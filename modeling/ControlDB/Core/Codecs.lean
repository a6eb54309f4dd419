import ControlDB.Core.RunRecord
import ControlDB.Core.WalLaw

/-!
# Records as texts in their columns

The write and read paths of `event_store.cpp` with the texts that RocksDB holds: a record is dumped
into its column under its key, and read back by parsing what is found there.  All codecs give back
the record that was stored but that of `ApiKey`, which dumps the scopes it reads once more.
-/

namespace ControlDB

open Library
open Function (update)

/-! ## Organizations, projects and keys -/

structure Organization where
  orgId : Bytes := []
  name : Bytes := []
  createdAtMs : Int := 0
  deriving DecidableEq, Repr

structure Project where
  projectId : Bytes := []
  orgId : Bytes := []
  name : Bytes := []
  createdAtMs : Int := 0
  deriving DecidableEq, Repr

structure ApiKey where
  keyId : Bytes := []
  apiKeyHash : Bytes := []
  orgId : Bytes := []
  projectId : Bytes := []
  name : Bytes := []
  /-- The text of a JSON object. -/
  scopes : Bytes := []
  createdAtMs : Int := 0
  /-- 0: active. -/
  revokedAtMs : Int := 0
  deriving DecidableEq, Repr

/-- `j[key]`: an absent member reads as `null`. -/
def Json.index (j : Json) (key : String) : Except StoreError Json :=
  match j with
  | .null => .ok .null
  | .obj _ => .ok ((j.find (bytes key)).getD .null)
  | _ => .error .typeError

def orgToJson (o : Organization) : Json :=
  .obj [
    (bytes "org_id", .str o.orgId),
    (bytes "name", .str o.name),
    (bytes "created_at_ms", .int o.createdAtMs)]

def jsonToOrg (j : Json) : Except StoreError Organization := do
  return {
    orgId := ← (← j.index "org_id").getString
    name := ← (← j.index "name").getString
    createdAtMs := ← (← j.index "created_at_ms").getInt }

def projectToJson (p : Project) : Json :=
  .obj [
    (bytes "project_id", .str p.projectId),
    (bytes "org_id", .str p.orgId),
    (bytes "name", .str p.name),
    (bytes "created_at_ms", .int p.createdAtMs)]

def jsonToProject (j : Json) : Except StoreError Project := do
  return {
    projectId := ← (← j.index "project_id").getString
    orgId := ← (← j.index "org_id").getString
    name := ← (← j.index "name").getString
    createdAtMs := ← (← j.index "created_at_ms").getInt }

def apiKeyToJson (k : ApiKey) : Json :=
  .obj [
    (bytes "key_id", .str k.keyId),
    (bytes "api_key_hash", .str k.apiKeyHash),
    (bytes "org_id", .str k.orgId),
    (bytes "project_id", .str k.projectId),
    (bytes "name", .str k.name),
    (bytes "scopes", .str k.scopes),
    (bytes "created_at_ms", .int k.createdAtMs),
    (bytes "revoked_at_ms", .int k.revokedAtMs)]

/-- `dump()` of a document, which throws `type_error` on a string that is not UTF-8. -/
def Json.dump (env : Env) (j : Json) : Except StoreError Bytes :=
  match env.dump j with
  | some text => .ok text
  | none => .error .typeError

/-- The scopes were stored as a string, and are dumped again when read. -/
def jsonToApiKey (env : Env) (j : Json) : Except StoreError ApiKey := do
  return {
    keyId := ← (← j.index "key_id").getString
    apiKeyHash := ← (← j.index "api_key_hash").getString
    orgId := ← (← j.index "org_id").getString
    projectId := ← (← j.index "project_id").getString
    name := ← j.value Json.getString "name" []
    scopes := ← (← j.index "scopes").dump env
    createdAtMs := ← (← j.index "created_at_ms").getInt
    revokedAtMs := ← j.value Json.getInt "revoked_at_ms" 0 }

def jsonToExport (j : Json) : Except StoreError EvidenceExport := do
  return {
    exportId := ← (← j.index "export_id").getString
    runId := ← (← j.index "run_id").getString
    orgId := ← (← j.index "org_id").getString
    projectId := ← (← j.index "project_id").getString
    bundleUri := ← (← j.index "bundle_uri").getString
    bundleHash := ← (← j.index "bundle_hash").getString
    eventCount := ← (← j.index "event_count").getInt
    hashChainValid := ← (← j.index "hash_chain_valid").getBool
    generatedBy := ← (← j.index "generated_by").getString
    generatedAtMs := ← (← j.index "generated_at_ms").getInt }

/-! ## Columns of texts -/

/-- The column families that hold records. -/
inductive Column
  | runs
  | events
  | approvals
  | exports
  | apiKeys
  | orgs
  | projects
  deriving DecidableEq, Repr

/-- The texts stored under the keys of the columns; a missing key reads as the empty string. -/
abbrev Columns := Column → Bytes → Bytes

namespace Columns

variable {α : Type}

def set (db : Columns) (col : Column) (key text : Bytes) : Columns :=
  update db col (update (db col) key text)

/-- `impl_->put(batch, col, key, doc.dump())`. -/
def putDoc (env : Env) (db : Columns) (col : Column) (key : Bytes) (doc : Json) :
    Except StoreError Columns :=
  (doc.dump env).map (db.set col key)

/-- `impl_->get(col, key)`, parsed and decoded. -/
def fetch (env : Env) (db : Columns) (col : Column) (key : Bytes)
    (decode : Json → Except StoreError α) : Except StoreError (Option α) :=
  if db col key = [] then .ok none
  else
    match env.parse (db col key) with
    | none => .error .parseError
    | some doc => (decode doc).map some

/-- A put of a batch, with the text of its document; the other columns hold no records. -/
def put (env : Env) (db : Columns) : Put → Except StoreError Columns
  | .runs runId doc => db.putDoc env .runs runId doc
  | .events seq doc => db.putDoc env .events (seqToKey seq) doc
  | .approvals approvalId doc => db.putDoc env .approvals approvalId doc
  | .exports exportId none => .ok (db.set .exports exportId [])
  | .exports exportId (some doc) => db.putDoc env .exports exportId doc
  | .globalSeq _ | .runsByOrg _ _ | .evByRun _ | .evByType _ | .idempotency _ _ => .ok db

def write (env : Env) (db : Columns) (batch : List Put) : Except StoreError Columns :=
  batch.foldlM (put env) db

def putOrg (env : Env) (db : Columns) (o : Organization) : Except StoreError Columns :=
  db.putDoc env .orgs o.orgId (orgToJson o)

def getOrg (env : Env) (db : Columns) (orgId : Bytes) : Except StoreError (Option Organization) :=
  db.fetch env .orgs orgId jsonToOrg

def putProject (env : Env) (db : Columns) (p : Project) : Except StoreError Columns :=
  db.putDoc env .projects p.projectId (projectToJson p)

def getProject (env : Env) (db : Columns) (projectId : Bytes) :
    Except StoreError (Option Project) :=
  db.fetch env .projects projectId jsonToProject

def putApiKey (env : Env) (db : Columns) (k : ApiKey) : Except StoreError Columns :=
  db.putDoc env .apiKeys k.apiKeyHash (apiKeyToJson k)

def getApiKeyByHash (env : Env) (db : Columns) (hash : Bytes) :
    Except StoreError (Option ApiKey) :=
  db.fetch env .apiKeys hash (jsonToApiKey env)

def getRun (env : Env) (db : Columns) (runId : Bytes) : Except StoreError (Option AgentRun) :=
  db.fetch env .runs runId jsonToRun

/-- The event of a sequence number, as `timeline` and `query` read it. -/
def getEvent (env : Env) (db : Columns) (seq : Nat) : Except StoreError (Option AuditEvent) :=
  db.fetch env .events (seqToKey seq) jsonToEvent

def getApproval (env : Env) (db : Columns) (approvalId : Bytes) :
    Except StoreError (Option Approval) :=
  db.fetch env .approvals approvalId jsonToApproval

def getExport (env : Env) (db : Columns) (exportId : Bytes) :
    Except StoreError (Option EvidenceExport) :=
  db.fetch env .exports exportId jsonToExport

end Columns

/-! ## Records -/

inductive Record
  | run (r : AgentRun)
  | event (e : AuditEvent)
  | approval (a : Approval)
  | «export» (e : EvidenceExport)
  | apiKey (k : ApiKey)
  | org (o : Organization)
  | project (p : Project)
  deriving DecidableEq, Repr

namespace Record

/-- The document that is dumped for the record. -/
def doc : Record → Json
  | run r => runToJson r
  | event e => eventToJson e
  | approval a => approvalToJson a
  | «export» e => exportToJson e
  | apiKey k => apiKeyToJson k
  | org o => orgToJson o
  | project p => projectToJson p

/-- What a batch of the write path puts for the record, where a batch is written for it. -/
def puts : Record → List Put
  | run r => [.runs r.runId (runToJson r)]
  | event e => [.events e.sequence (eventToJson e)]
  | approval a => [.approvals a.approvalId (approvalToJson a)]
  | «export» e => [.exports e.exportId none, .exports e.exportId (some (exportToJson e))]
  | apiKey _ | org _ | project _ => []

/-- The write path of the store. -/
def store (env : Env) (db : Columns) : Record → Except StoreError Columns
  | apiKey k => db.putApiKey env k
  | org o => db.putOrg env o
  | project p => db.putProject env p
  | rec => db.write env rec.puts

/-- The read path of the store, under the key of the record. -/
def fetch (env : Env) (db : Columns) : Record → Except StoreError (Option Record)
  | run r => (db.getRun env r.runId).map (Option.map run)
  | event e => (db.getEvent env e.sequence).map (Option.map event)
  | approval a => (db.getApproval env a.approvalId).map (Option.map approval)
  | «export» e => (db.getExport env e.exportId).map (Option.map «export»)
  | apiKey k => (db.getApiKeyByHash env k.apiKeyHash).map (Option.map apiKey)
  | org o => (db.getOrg env o.orgId).map (Option.map org)
  | project p => (db.getProject env p.projectId).map (Option.map project)

/-- The record is stored, and reading it back returns it. -/
def RoundTrips (env : Env) (db : Columns) (rec : Record) : Prop :=
  ∃ db', rec.store env db = .ok db' ∧ rec.fetch env db' = .ok (some rec)

/-- The names and values of the document. -/
def members (rec : Record) : List (Bytes × Json) :=
  match rec.doc with
  | .obj members => members
  | _ => []

/-- Every string of the record is UTF-8. -/
def Utf8 (rec : Record) : Prop :=
  ∀ m ∈ rec.members, ∀ s, m.2 = .str s → IsUtf8 s

def column : Record → Column
  | run _ => .runs
  | event _ => .events
  | approval _ => .approvals
  | «export» _ => .exports
  | apiKey _ => .apiKeys
  | org _ => .orgs
  | project _ => .projects

def key : Record → Bytes
  | run r => r.runId
  | event e => seqToKey e.sequence
  | approval a => a.approvalId
  | «export» e => e.exportId
  | apiKey k => k.apiKeyHash
  | org o => o.orgId
  | project p => p.projectId

/-- The decoder of records of the same kind. -/
def decode (env : Env) (j : Json) : Record → Except StoreError Record
  | run _ => (jsonToRun j).map run
  | event _ => (jsonToEvent j).map event
  | approval _ => (jsonToApproval j).map approval
  | «export» _ => (jsonToExport j).map «export»
  | apiKey _ => (jsonToApiKey env j).map apiKey
  | org _ => (jsonToOrg j).map org
  | project _ => (jsonToProject j).map project

end Record

/-- The put goes to a column of records. -/
def Put.HoldsRecord : Put → Prop
  | .runs _ _ | .events _ _ | .approvals _ _ | .exports _ _ => True
  | .globalSeq _ | .runsByOrg _ _ | .evByRun _ | .evByType _ | .idempotency _ _ => False

/-- All that a call puts into these columns is put for a record, under the key of that record. -/
theorem Commit.puts_records {env : Env} {now : Nat → Int} {s : Store} {c : Call} {batch : List Put}
    {n : Nat} (hs : Consistent s) (hcommit : Commit env now s c batch n) {p : Put}
    (hp : p ∈ batch) (hholds : p.HoldsRecord) : ∃ rec : Record, p ∈ rec.puts := by
  have hrun : ∀ {runId r}, p = .runs runId (runToJson r) → ∃ rec : Record, p ∈ rec.puts := by
    rintro runId r rfl
    rw [← hcommit.run_key hs hp]
    exact ⟨.run r, List.mem_singleton.2 rfl⟩
  have happroval : ∀ {approvalId a}, p = .approvals approvalId (approvalToJson a) →
      ∃ rec : Record, p ∈ rec.puts := by
    rintro approvalId a rfl
    rw [← hcommit.approval_key hs hp]
    exact ⟨.approval a, List.mem_singleton.2 rfl⟩
  have hevent : ∀ {e}, p ∈ eventPuts e → ∃ rec : Record, p ∈ rec.puts := by
    intro e he
    rcases List.mem_append.1 he with he | hkeys
    · simp only [List.mem_cons, List.not_mem_nil, or_false] at he
      rcases he with rfl | rfl | rfl
      · exact ⟨.event e, List.mem_singleton.2 rfl⟩
      · exact hholds.elim
      · exact hholds.elim
    · unfold idempotencyPuts at hkeys
      split_ifs at hkeys
      · exact absurd hkeys List.not_mem_nil
      · simp only [List.mem_cons, List.not_mem_nil, or_false] at hkeys
        rcases hkeys with rfl | rfl <;> exact hholds.elim
  cases hcommit with
  | startRun hnew hopens =>
      rcases List.mem_cons.1 hp with hp | hp
      · exact hrun hp
      · rcases List.mem_singleton.1 hp with rfl
        exact hholds.elim
  | updateRun hfetch hsame hhash hcount => exact hrun (List.mem_singleton.1 hp)
  | appendEvents hfetch hsame hes hhash hcount =>
      rcases List.mem_append.1 hp with hp | hp
      · rcases List.mem_flatMap.1 hp with ⟨e, _, he⟩
        exact hevent he
      · rcases List.mem_cons.1 hp with hp | hp
        · exact hrun hp
        · rcases List.mem_singleton.1 hp with rfl
          exact hholds.elim
  | insertApproval hnew hsame => exact happroval (List.mem_singleton.1 hp)
  | updateApproval hget hdoc hsame => exact happroval (List.mem_singleton.1 hp)
  | @putExport exp => exact ⟨.export exp, hp⟩

/-- What is documented of the JSON library, of the document of a record: `dump` throws only on a
string that is not UTF-8, and `parse` gives the members back, sorted by name; the empty text is no
document, and a string is dumped between quotes with nothing left out. -/
structure DumpsBack (env : Env) (rec : Record) : Prop where
  dumps : rec.doc.Utf8 → ∃ text, env.dump rec.doc = some text
  parses : ∀ {text}, env.dump rec.doc = some text →
    ∃ members : List (Bytes × Json), members.Perm rec.members ∧ env.parse text = some (.obj members)
  empty : env.parse [] = none
  quotes : ∀ {s text}, env.dump (.str s) = some text → s.length < text.length

/-! ## Members in another order -/

section Order

variable {members members' : List (Bytes × Json)}

theorem Json.find_eq_some_iff (hkeys : (members.map Prod.fst).Nodup) {key : Bytes} {v : Json} :
    (Json.obj members).find key = some v ↔ (key, v) ∈ members := by
  induction members with
  | nil => simp [find]
  | cons m rest ih =>
      rcases m with ⟨name, value⟩
      rw [List.map_cons, List.nodup_cons] at hkeys
      have hrest := ih hkeys.2
      simp only [find] at hrest ⊢
      by_cases hname : name = key
      · -- no later member has the name
        have hlater : (key, v) ∉ rest := by
          intro hmem
          exact hkeys.1 (List.mem_map.2 ⟨(key, v), hmem, hname.symm⟩)
        simp [hname, hlater, eq_comm]
      · have hother : key ≠ name := fun h => hname h.symm
        simp [hname, hother, hrest]

/-- Members are found by name, whatever their order. -/
theorem Json.find_perm (hperm : members'.Perm members) (hkeys : (members.map Prod.fst).Nodup)
    (key : Bytes) : (Json.obj members').find key = (Json.obj members).find key := by
  have hkeys' : (members'.map Prod.fst).Nodup := (hperm.map Prod.fst).nodup_iff.2 hkeys
  refine Option.ext fun v => ?_
  rw [Json.find_eq_some_iff hkeys', Json.find_eq_some_iff hkeys, hperm.mem_iff]

variable (hfind : ∀ key, (Json.obj members').find key = (Json.obj members).find key)

include hfind

theorem Json.atKey_congr (key : String) :
    (Json.obj members').atKey key = (Json.obj members).atKey key := by
  simp only [atKey, hfind]

theorem Json.value_congr {α : Type} (get : Json → Except StoreError α) (key : String)
    (default : α) :
    (Json.obj members').value get key default = (Json.obj members).value get key default := by
  simp only [value, hfind]

theorem Json.index_congr (key : String) :
    (Json.obj members').index key = (Json.obj members).index key := by
  simp only [index, hfind]

/-- The decoders look members up by name only. -/
theorem Record.decode_congr (env : Env) (rec : Record) :
    rec.decode env (.obj members') = rec.decode env (.obj members) := by
  cases rec <;>
    simp only [decode, jsonToRun, jsonToEvent, jsonToApproval, jsonToExport, jsonToApiKey,
      jsonToOrg, jsonToProject, Json.atKey_congr hfind, Json.value_congr hfind,
      Json.index_congr hfind]

end Order

/-! ## Storing and reading back -/

namespace Record

section Paths

variable {env : Env} {db : Columns} {text : Bytes} (rec : Record)

theorem doc_eq : rec.doc = .obj rec.members := by
  cases rec <;> rfl

theorem names_ascii : (rec.members.map Prod.fst).all isAscii = true := by
  cases rec <;> rfl

theorem names_nodup : (rec.members.map Prod.fst).Nodup := by
  cases rec <;>
    simp only [members, doc, runToJson, eventToJson, approvalToJson, exportToJson, apiKeyToJson,
      orgToJson, projectToJson, List.map_cons, List.map_nil] <;>
    decide +kernel

theorem write_singleton (db : Columns) (p : Put) : db.write env [p] = db.put env p := by
  simp [Columns.write]

theorem store_eq (hdump : env.dump rec.doc = some text) :
    rec.store env db = .ok (db.set rec.column rec.key text) := by
  have hput : ∀ (db : Columns) (col : Column) (key : Bytes),
      db.putDoc env col key rec.doc = .ok (db.set col key text) := by
    intro db col key
    rw [Columns.putDoc, Json.dump, hdump]
    rfl
  cases rec with
  | run r => exact (write_singleton db _).trans (hput db .runs r.runId)
  | event e => exact (write_singleton db _).trans (hput db .events (seqToKey e.sequence))
  | approval a => exact (write_singleton db _).trans (hput db .approvals a.approvalId)
  | «export» e =>
      -- the empty text that is put first is replaced
      have htwice : (db.set .exports e.exportId []).set .exports e.exportId text =
          db.set .exports e.exportId text := by
        simp [Columns.set]
      have hsecond := hput (db.set .exports e.exportId []) .exports e.exportId
      rw [htwice] at hsecond
      exact (write_singleton _ _).trans hsecond
  | apiKey k => exact hput db .apiKeys k.apiKeyHash
  | org o => exact hput db .orgs o.orgId
  | project p => exact hput db .projects p.projectId

theorem fetch_eq :
    rec.fetch env db = db.fetch env rec.column rec.key fun j => rec.decode env j := by
  have hmap : ∀ {α : Type} (wrap : α → Record) (col : Column) (key : Bytes)
      (decode : Json → Except StoreError α),
      (db.fetch env col key decode).map (Option.map wrap) =
        db.fetch env col key fun j => (decode j).map wrap := by
    intro α wrap col key decode
    unfold Columns.fetch
    split_ifs
    · rfl
    · rcases env.parse (db col key) with _ | j
      · rfl
      · dsimp only
        rcases decode j with _ | x <;> rfl
  cases rec <;> exact hmap _ _ _ _

/-- What is read back after storing is what the decoder makes of the record's document. -/
theorem fetch_stored (hlib : DumpsBack env rec) (hdump : env.dump rec.doc = some text) :
    rec.fetch env (db.set rec.column rec.key text) = (rec.decode env rec.doc).map some := by
  rcases hlib.parses hdump with ⟨members, hperm, hparse⟩
  have hfilled : text ≠ [] := by
    rintro rfl
    rw [hlib.empty] at hparse
    cases hparse
  have hsame : rec.decode env (.obj members) = rec.decode env rec.doc := by
    rw [doc_eq]
    exact decode_congr (Json.find_perm hperm rec.names_nodup) env rec
  have htext : db.set rec.column rec.key text rec.column rec.key = text := by
    simp [Columns.set]
  have hfetch : (db.set rec.column rec.key text).fetch env rec.column rec.key
      (fun j => rec.decode env j) = (rec.decode env (.obj members)).map some := by
    rw [Columns.fetch, htext, if_neg hfilled, hparse]
  calc rec.fetch env (db.set rec.column rec.key text)
      = (db.set rec.column rec.key text).fetch env rec.column rec.key
          fun j => rec.decode env j := rec.fetch_eq
    _ = (rec.decode env (.obj members)).map some := hfetch
    _ = (rec.decode env rec.doc).map some := congrArg (Except.map some) hsame

theorem doc_utf8 (h : rec.Utf8) : rec.doc.Utf8 := by
  have hscalar : ∀ m ∈ rec.members, (∃ s, m.2 = .str s) ∨ (∃ n, m.2 = .int n) ∨ ∃ b, m.2 = .bool b := by
    cases rec <;> simp [members, doc, runToJson, eventToJson, approvalToJson, exportToJson, apiKeyToJson,
      orgToJson, projectToJson]
  rw [doc_eq]
  refine .obj (fun m hm => ?_) fun m hm => ?_
  · exact isUtf8_of_ascii (List.all_eq_true.1 rec.names_ascii _ (List.mem_map_of_mem hm))
  · rcases hscalar m hm with ⟨s, hs⟩ | ⟨n, hn⟩ | ⟨b, hb⟩
    · rw [hs]
      exact .str (h m hm s hs)
    · rw [hn]
      exact .int n
    · rw [hb]
      exact .bool b

/-- A record comes back exactly if its decoder makes it of its document. -/
theorem roundTrips_iff_decode (hlib : DumpsBack env rec) (h : rec.Utf8) :
    rec.RoundTrips env db ↔ rec.decode env rec.doc = .ok rec := by
  rcases hlib.dumps (rec.doc_utf8 h) with ⟨text, hdump⟩
  have hback := @fetch_stored env db text rec hlib hdump
  constructor
  · rintro ⟨db', hstore, hfetch⟩
    rw [rec.store_eq hdump] at hstore
    cases hstore
    rw [hback] at hfetch
    rcases hdecode : rec.decode env rec.doc with e | rec'
    · rw [hdecode] at hfetch
      cases hfetch
    · rw [hdecode] at hfetch
      exact congrArg Except.ok (Option.some.inj (Except.ok.inj hfetch))
  · intro hdecode
    refine ⟨db.set rec.column rec.key text, rec.store_eq hdump, ?_⟩
    rw [hback, hdecode]
    rfl

/-- The scopes come back as the dump of the string they were stored as. -/
theorem decode_apiKey (k : ApiKey) :
    (apiKey k).decode env (apiKey k).doc =
      ((Json.str k.scopes).dump env).map fun text => apiKey { k with scopes := text } := by
  have hdecode : jsonToApiKey env (apiKeyToJson k) = do
      let text ← (Json.str k.scopes).dump env
      return { k with scopes := text } := rfl
  change (jsonToApiKey env (apiKeyToJson k)).map apiKey = _
  rw [hdecode]
  rcases (Json.str k.scopes).dump env with e | text
  · rfl
  · rfl

theorem decode_doc (h : ∀ k, rec ≠ apiKey k) : rec.decode env rec.doc = .ok rec := by
  cases rec with
  | apiKey k => exact (h k rfl).elim
  | _ => rfl

/-- Storing a record and reading it back returns it unless it is an API key. -/
theorem roundTrips_iff (env : Env) (db : Columns) (rec : Record) (hlib : DumpsBack env rec)
    (h : rec.Utf8) : rec.RoundTrips env db ↔ ∀ k, rec ≠ apiKey k := by
  rw [rec.roundTrips_iff_decode hlib h]
  refine ⟨?_, rec.decode_doc⟩
  rintro hdecode k rfl
  rw [decode_apiKey, Json.dump] at hdecode
  rcases hdump : env.dump (.str k.scopes) with _ | text
  · rw [hdump] at hdecode
    cases hdecode
  · -- the quotes make the text longer
    rw [hdump] at hdecode
    have hscopes : text = k.scopes := by
      have hkey := apiKey.inj (Except.ok.inj hdecode)
      exact congrArg ApiKey.scopes hkey
    have hlonger := hlib.quotes hdump
    rw [hscopes] at hlonger
    exact Nat.lt_irrefl _ hlonger

end Paths

/-! ### A project and an API key -/

namespace Example

/-- The JSON library on one record, and on strings without characters to escape. -/
def env (rec : Record) (text : Bytes) : Env where
  sha256 := fun _ => .replicate 32 0
  dump := fun
    | .obj _ => some text
    | .str s => some (0x22 :: s ++ [0x22])
    | _ => none
  parse := fun text' =>
    if text' = text then some (.obj (rec.members.insertionSort fun a b => a.1 ≤ b.1)) else none

theorem dumpsBack (rec : Record) {text : Bytes} (htext : text ≠ []) :
    DumpsBack (env rec text) rec where
  dumps := fun _ => ⟨text, by rw [doc_eq]; rfl⟩
  parses := by
    intro text' hdump
    rw [doc_eq] at hdump
    cases hdump
    exact ⟨_, List.perm_insertionSort _ _, if_pos rfl⟩
  empty := if_neg fun h => htext h.symm
  quotes := by
    intro s text' hdump
    cases hdump
    simp only [List.cons_append, List.length_cons, List.length_append, List.length_nil]
    omega

def payments : Record :=
  project ⟨bytes "proj_1", bytes "org_1", bytes "Payments", 1778673600000⟩

def paymentsText : Bytes :=
  bytes ("\x7b\"created_at_ms\":1778673600000,\"name\":\"Payments\",\"org_id\":\"org_1\"," ++
    "\"project_id\":\"proj_1\"\x7d")

/-- A key whose scopes are the text of an empty object. -/
def ci : ApiKey :=
  { keyId := bytes "key_1", apiKeyHash := bytes "sha256:00", orgId := bytes "org_1",
    projectId := bytes "proj_1", name := bytes "ci", scopes := bytes "\x7b\x7d",
    createdAtMs := 1778673600000 }

def ciText : Bytes :=
  bytes ("\x7b\"api_key_hash\":\"sha256:00\",\"created_at_ms\":1778673600000,\"key_id\":\"key_1\"," ++
    "\"name\":\"ci\",\"org_id\":\"org_1\",\"project_id\":\"proj_1\",\"revoked_at_ms\":0," ++
    "\"scopes\":\"\x7b\x7d\"\x7d")

theorem utf8_of_ascii {rec : Record}
    (h : rec.members.all (fun m => match m.2 with | .str s => isAscii s | _ => true) = true) :
    rec.Utf8 := by
  intro m hm s hs
  have hm' := List.all_eq_true.1 h m hm
  rw [hs] at hm'
  exact isUtf8_of_ascii hm'

end Example

open Example in
theorem roundTrips_payments :
    payments.RoundTrips (env payments paymentsText) (fun _ _ => []) ↔ ∀ k, payments ≠ apiKey k :=
  roundTrips_iff (env payments paymentsText) (fun _ _ => []) payments
    (dumpsBack payments (by decide +kernel)) (utf8_of_ascii (by decide +kernel))

open Example in
/-- The scopes of a key come back in quotes. -/
theorem apiKey_changes :
    ¬ ∀ (env : Env) (db : Columns) (rec : Record), DumpsBack env rec → rec.Utf8 →
      rec.RoundTrips env db := by
  intro hall
  have hlib := dumpsBack (apiKey ci) (by decide +kernel : ciText ≠ [])
  have hutf8 : (apiKey ci).Utf8 := utf8_of_ascii (by decide +kernel)
  have hdecode := (roundTrips_iff_decode (apiKey ci) hlib hutf8).1
    (hall _ (fun _ _ => []) (apiKey ci) hlib hutf8)
  rw [decode_apiKey] at hdecode
  have hscopes := congrArg ApiKey.scopes (apiKey.inj (Except.ok.inj hdecode))
  exact absurd hscopes (by decide +kernel)

end Record
end ControlDB
