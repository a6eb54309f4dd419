import ControlDB.Collector.RocksKeys
import ControlDB.Collector.RowSession
import ControlDB.Library.SecondaryIndex

/-!
# The run index of the RocksDB backend

`_write_run` of `storage/rocksdb_backend.py` puts a run under its id and an entry into `runs_by_org`,
whose key has the tenant and the start of the run in milliseconds; a run without a start is indexed
under the time of the write.  `_query_runs` walks that column from its end and reads the run of each
entry.  Ids are texts without `:`.

`RunIndex.listsRuns_throughout_iff` says in which sequences of sessions the listings are right: those
that write a run always with the same index key.
-/

namespace ControlDB
namespace Collector
namespace RunIndex

open Library Python
open PyObject (dumpsMembers loadsMembers isJson)
open RowSession (Row RowKey RowClass Doc getKey times dt_iso isJson_iso)

/-! ## Rows and writes -/

/-- An `AgentRunRow` of the services: its ids are texts without `:`, and a time is a datetime or
`None`. -/
structure RunRow where
  row : Row
  runId : String
  orgId : String
  projectId : String
  agentRun : row.cls = .agentRun
  get_runId : row.get "run_id" = .str runId
  get_orgId : row.get "org_id" = .str orgId
  get_projectId : row.get "project_id" = .str projectId
  clear : ∀ id ∈ [runId, orgId, projectId], ':' ∉ id.toList
  time : ∀ name ∈ times, row.get name = .none ∨ ∃ t, row.get name = .datetime t

/-- What the standard library makes of a time; `millis t` is `int(t.timestamp() * 1000)`, if that
returns. -/
structure Builtins extends RowSession.Builtins where
  millis : DateTime → Int

/-- A run as it is when its session flushes it, and `_now_ms()` then. -/
structure RunWrite where
  run : RunRow
  nowMs : Int

/-- What an index key is made of, apart from the id of the run. -/
structure RunEntry where
  orgId : String
  projectId : String
  tsMs : Int

/-- `idx_key`. -/
def indexKey (e : RunEntry) (runId : String) : Option Bytes :=
  (seqKey e.tsMs).map fun ts =>
    tenantPrefix e.orgId e.projectId ++ ts ++ encodeUtf8 (":" ++ runId).toList

/-- The entry of `_write_run`: `started_at` counts as false where it is `None`. -/
def RunWrite.entry (b : Builtins) (w : RunWrite) : RunEntry where
  orgId := w.run.orgId
  projectId := w.run.projectId
  tsMs :=
    match w.run.row.get "started_at" with
    | .datetime t => b.millis t
    | _ => w.nowMs

/-- The columns `runs` and `runs_by_org`. -/
abbrev Runs := IndexedTable String Bytes Doc

/-- `_write_run`, or `none` where it raises. -/
def writeRun (b : Builtins) (w : RunWrite) : Option (IndexedWrite String Bytes Doc) :=
  match w.run.row.write b.toBuiltins, indexKey (w.entry b) w.run.runId with
  | some (key, doc), some idxKey => some ⟨key.pk, doc, idxKey⟩
  | _, _ => none

/-- A session that writes runs; one that raises writes nothing. -/
def step (b : Builtins) (runs : Runs) (writes : List RunWrite) : Runs :=
  ((writes.mapM (writeRun b)).map runs.write).getD runs

/-! ## The listing -/

/-- `AgentRunRow.from_dict(json.loads(v))`, or `none` where it raises. -/
def load (b : Builtins) (doc : Doc) : Option Row :=
  Row.fromDict b.toBuiltins .agentRun (loadsMembers doc)

/-- `row.name == text`. -/
def hasText (row : Row) (name text : String) : Bool :=
  match row.get name with
  | .leaf (.str s) => decide (s = text)
  | _ => false

/-- The row is of the tenant. -/
def ofTenant (orgId projectId : String) (row : Row) : Bool :=
  hasText row "org_id" orgId && hasText row "project_id" projectId

/-- The loop of `_query_runs` on the values of the index, or `none` where it raises. -/
def collect (b : Builtins) (runs : Runs) (orgId projectId : String) (limit : Nat) :
    List String → List Row → Option (List Row)
  | [], rows => some rows
  | runId :: rest, rows =>
      if limit ≤ rows.length then some rows
      else
        match runs.rows.get runId with
        | none => collect b runs orgId projectId limit rest rows
        | some doc =>
            match load b doc with
            | none => none
            | some row =>
                if ofTenant orgId projectId row then
                  collect b runs orgId projectId limit rest (rows ++ [row])
                else collect b runs orgId projectId limit rest rows

/-- `_query_runs`. -/
def queryRuns (b : Builtins) (runs : Runs) (orgId projectId : String) (limit : Nat) :
    Option (List Row) :=
  collect b runs orgId projectId limit (runs.index.entries.reverse.map Prod.snd) []

/-- The stored runs of a tenant. -/
def tenantRuns (b : Builtins) (runs : Runs) (orgId projectId : String) : List Row :=
  (runs.rows.entries.filterMap fun e => load b e.2).filter (ofTenant orgId projectId)

/-- Every query for a tenant returns runs of that tenant, none of them twice, and all of them if
fewer than the limit are stored. -/
def ListsRuns (b : Builtins) (runs : Runs) : Prop :=
  ∀ orgId projectId limit, ∃ rows, queryRuns b runs orgId projectId limit = some rows ∧
    (∀ row ∈ rows, row ∈ tenantRuns b runs orgId projectId) ∧
    (rows.map Row.key).Nodup ∧
    ((tenantRuns b runs orgId projectId).length < limit →
      ∀ row ∈ tenantRuns b runs orgId projectId, row ∈ rows)

/-- A session that does not raise writes each run with one tenant and one start, those of its index
entry if it has one. -/
def KeepsEntries (b : Builtins) (runs : Runs) (writes : List RunWrite) : Prop :=
  (∀ w ∈ writes, (writeRun b w).isSome) →
    (∀ w ∈ writes, ∀ k, runs.index.get k = some w.run.runId →
      indexKey (w.entry b) w.run.runId = some k) ∧
    ∀ w ∈ writes, ∀ w' ∈ writes, w.run.runId = w'.run.runId → w.entry b = w'.entry b

/-! ## Index keys -/

/-- A key of the run: it ends in its id. -/
def owns (key : Bytes) (runId : String) : Prop :=
  ':' ∉ runId.toList ∧ ∃ p, key = p ++ encodeUtf8 (":" ++ runId).toList

theorem owns_unique ⦃key : Bytes⦄ ⦃runId runId' : String⦄ (h : owns key runId)
    (h' : owns key runId') : runId = runId' := by
  rcases h with ⟨hclear, p, hkey⟩
  rcases h' with ⟨hclear', p', hkey'⟩
  exact append_id_inj hclear hclear' (hkey.symm.trans hkey')

/-- An index key tells the tenant and the start. -/
theorem indexKey_inj {e e' : RunEntry} {runId : String} {key : Bytes}
    (he : ∀ id ∈ [e.orgId, e.projectId], ':' ∉ id.toList)
    (he' : ∀ id ∈ [e'.orgId, e'.projectId], ':' ∉ id.toList) (h : indexKey e runId = some key)
    (h' : indexKey e' runId = some key) : e = e' := by
  rcases Option.map_eq_some_iff.1 h with ⟨ts, hts, hkey⟩
  rcases Option.map_eq_some_iff.1 h' with ⟨ts', hts', hkey'⟩
  have hsame : tenantPrefix e.orgId e.projectId ++ (ts ++ encodeUtf8 (":" ++ runId).toList) =
      tenantPrefix e'.orgId e'.projectId ++ (ts' ++ encodeUtf8 (":" ++ runId).toList) := by
    simpa only [List.append_assoc] using hkey.trans hkey'.symm
  rcases tenantPrefix_append_inj (he _ (by simp)) (he' _ (by simp)) (he _ (by simp))
    (he' _ (by simp)) hsame with ⟨⟨horg, hproject⟩, htail⟩
  have hstart : ts = ts' := List.append_cancel_right htail
  subst hstart
  rcases e with ⟨orgId, projectId, tsMs⟩
  rcases e' with ⟨orgId', projectId', tsMs'⟩
  rw [RunEntry.mk.injEq]
  exact ⟨horg, hproject, seqKey_inj hts hts'⟩

/-! ## What is written is read -/

section Written

variable {b : Builtins} {row : Row} {name name' : String}

theorem get_assign_of_ne (hne : name' ≠ name) (value : PyObject) :
    (row.assign name value).get name' = row.get name' := by
  have hlookup : ∀ attrs : List (String × PyObject),
      (attrs.map fun a => (a.1, if a.1 = name then value else a.2)).lookup name' =
        attrs.lookup name' := by
    intro attrs
    induction attrs with
    | nil => rfl
    | cons a attrs ih =>
        rw [List.map_cons, List.lookup_cons, List.lookup_cons, ih]
        cases hkey : name' == a.1 with
        | false => rfl
        | true =>
            have ha : ¬ a.1 = name := fun h => hne ((eq_of_beq hkey).trans h)
            simp [ha]
  rw [Row.get, getKey, Row.assign, hlookup]
  rfl

/-- An argument of the constructor is the value of its attribute. -/
theorem get_init {cls : RowClass} {kw : List (String × PyObject)} {v : PyObject}
    (hname : name ∈ cls.attributes.map Prod.fst) (hkw : kw.lookup name = some v) :
    (Row.init cls kw).get name = v := by
  rcases List.mem_map.1 hname with ⟨a, ha, rfl⟩
  have hmem : (a.1, (kw.lookup a.1).getD a.2) ∈ (Row.init cls kw).attrs :=
    List.mem_map_of_mem (f := fun a => (a.1, (kw.lookup a.1).getD a.2)) ha
  rw [Row.get_of_mem hmem, hkw]
  rfl

/-- What a run has in its document, before that is dumped. -/
theorem lookup_toDict (hcls : row.cls = .agentRun)
    (hname : name ∈ RowClass.agentRun.attributes.map Prod.fst) :
    (row.toDict b.toBuiltins).lookup name =
      some (if name ∈ times then b.toBuiltins.iso (row.get name) else row.get name) := by
  have hmem : (name, row.get name) ∈ row.attrs := Row.mem_attrs (by rwa [hcls])
  have hlookup := lookup_map_of_mem Function.injective_id
    (fun a : String × PyObject => if a.1 ∈ times then b.toBuiltins.iso a.2 else a.2)
    row.nodup_attrs hmem
  rw [RowSession.Row.toDict_agentRun hcls]
  exact hlookup

/-- The document of a run is loaded as a run with the same texts. -/
theorem exists_load {run : RunRow} {doc : Doc}
    (hiso : ∀ t : DateTime, b.fromisoformat t.isoformat = some t)
    (hdoc : dumpsMembers none (run.row.toDict b.toBuiltins) = some doc) :
    ∃ row, load b doc = some row ∧ row.cls = .agentRun ∧
      ∀ name ∈ RowClass.agentRun.attributes.map Prod.fst, name ∉ times →
        ∀ text, run.row.get name = .str text → row.get name = .str text := by
  -- a time is loaded from its text, which is JSON
  have htime : ∀ name ∈ times, name ∈ RowClass.agentRun.attributes.map Prod.fst →
      b.toBuiltins.dt (getKey (loadsMembers doc) name) = some (run.row.get name) := by
    intro name hname hattr
    have hlookup := lookup_toDict (b := b) run.agentRun hattr
    rw [if_pos hname] at hlookup
    rw [getKey, PyObject.lookup_loadsMembers hdoc hlookup (isJson_iso _)]
    exact dt_iso hiso (run.time name hname)
  have hload : load b doc = some (((Row.init .agentRun ((loadsMembers doc).filter fun a =>
      decide (a.1 ∉ times))).assign "started_at" (run.row.get "started_at")).assign "ended_at"
        (run.row.get "ended_at")) := by
    rw [load, Row.fromDict, htime "started_at" (by decide) (by decide),
      htime "ended_at" (by decide) (by decide)]
  refine ⟨_, hload, rfl, fun name hattr hname text hget => ?_⟩
  have hlookup := lookup_toDict (b := b) run.agentRun hattr
  rw [if_neg hname, hget] at hlookup
  have hended : name ≠ "ended_at" := fun h => hname (by simp [h, times])
  have hstarted : name ≠ "started_at" := fun h => hname (by simp [h, times])
  rw [get_assign_of_ne hended, get_assign_of_ne hstarted]
  refine get_init hattr ?_
  rw [lookup_filter_of_pos (p := fun name => decide (name ∉ times)) (by simpa using hname)]
  exact PyObject.lookup_loadsMembers hdoc hlookup (by rw [PyObject.str, isJson])

/-- The run that is loaded from what `_write_run` stores has the ids of the one written. -/
theorem load_of_write {run : RunRow} {key : RowKey} {doc : Doc}
    (hiso : ∀ t : DateTime, b.fromisoformat t.isoformat = some t)
    (h : run.row.write b.toBuiltins = some (key, doc)) :
    key = ⟨.agentRun, run.runId⟩ ∧ ∃ row, load b doc = some row ∧
      row.key = some ⟨.agentRun, run.runId⟩ ∧ ofTenant run.orgId run.projectId row = true := by
  have hkey : run.row.key = some ⟨.agentRun, run.runId⟩ := by
    simp only [Row.key, run.agentRun, RowClass.pk, run.get_runId, PyObject.str]
  simp only [Row.write, hkey] at h
  split at h
  · next key' doc' hkey' hdoc =>
      split_ifs at h
      cases hkey'
      cases h
      have hdumps : dumpsMembers none (run.row.toDict b.toBuiltins) = some doc := by
        simpa only [Row.document, run.agentRun] using hdoc
      rcases exists_load hiso hdumps with ⟨row, hload, hcls, htexts⟩
      refine ⟨rfl, row, hload, ?_, ?_⟩
      · simp only [Row.key, hcls, RowClass.pk, htexts "run_id" (by decide) (by decide) _ run.get_runId,
          PyObject.str]
      · simp [ofTenant, hasText, PyObject.str,
          htexts "org_id" (by decide) (by decide) _ run.get_orgId,
          htexts "project_id" (by decide) (by decide) _ run.get_projectId]
  · cases h

end Written

/-! ## What is listed -/

/-- The run under an id, as it is loaded. -/
def fetchRun (b : Builtins) (runs : Runs) (runId : String) : Option Row :=
  (runs.rows.get runId).bind (load b)

/-- The document is of a run of the tenant. -/
def tenantDoc (b : Builtins) (orgId projectId : String) (doc : Doc) : Bool :=
  (load b doc).any (ofTenant orgId projectId)

/-- The index belongs to the runs, and every stored run is loaded with its id and a tenant. -/
structure Sound (b : Builtins) (runs : Runs) : Prop where
  table : IndexedTable.Sound owns runs
  readable : ∀ runId doc, runs.rows.get runId = some doc → ∃ row orgId projectId,
    load b doc = some row ∧ row.key = some ⟨.agentRun, runId⟩ ∧ ofTenant orgId projectId row = true

section Listing

variable {b : Builtins} {runs : Runs} {orgId projectId : String} {limit : Nat}

/-- The loop goes on while the limit is not reached. -/
theorem collect_eq (h : Sound b runs) (ids : List String) {rows : List Row}
    (hrows : rows.length ≤ limit) : collect b runs orgId projectId limit ids rows =
      some (rows ++ ((ids.filter fun runId => (runs.rows.get runId).any
        (tenantDoc b orgId projectId)).take (limit - rows.length)).filterMap (fetchRun b runs)) := by
  induction ids generalizing rows with
  | nil => simp [collect]
  | cons runId ids ih =>
      rw [collect]
      split_ifs with hfull
      · have hroom : limit - rows.length = 0 := Nat.sub_eq_zero_of_le hfull
        simp [hroom]
      · cases hget : runs.rows.get runId with
        | none =>
            rw [List.filter_cons_of_neg (by simp [hget])]
            exact ih hrows
        | some doc =>
            rcases h.readable runId doc hget with ⟨row, _, _, hload, _⟩
            simp only [hload]
            split_ifs with htenant
            · -- one place fewer for the rest
              have hroom : limit - rows.length = limit - (rows ++ [row]).length + 1 := by
                simp only [List.length_append, List.length_singleton]
                omega
              have hfetch : fetchRun b runs runId = some row := by simp [fetchRun, hget, hload]
              rw [ih (by simp only [List.length_append, List.length_singleton]; omega),
                List.filter_cons_of_pos (by simp [hget, tenantDoc, hload, htenant]), hroom,
                List.take_succ_cons, List.filterMap_cons_some hfetch, List.append_assoc,
                List.singleton_append]
            · rw [List.filter_cons_of_neg (by simp [hget, tenantDoc, hload, htenant])]
              exact ih hrows

theorem queryRuns_eq (h : Sound b runs) : queryRuns b runs orgId projectId limit =
    some ((runs.listing (tenantDoc b orgId projectId) limit).filterMap (fetchRun b runs)) :=
  collect_eq h _ (Nat.zero_le limit)

theorem tenantRuns_eq : tenantRuns b runs orgId projectId =
    (runs.selected (tenantDoc b orgId projectId)).filterMap (fetchRun b runs) := by
  have hentries : ∀ entries : List (String × Doc), (∀ e ∈ entries, e ∈ runs.rows.entries) →
      (entries.filterMap fun e => load b e.2).filter (ofTenant orgId projectId) =
        ((entries.filter fun e => tenantDoc b orgId projectId e.2).map Prod.fst).filterMap
          (fetchRun b runs) := by
    intro entries hall
    induction entries with
    | nil => rfl
    | cons e entries ih =>
        have hrest := ih fun e' he' => hall e' (List.mem_cons_of_mem e he')
        have hfetch : fetchRun b runs e.1 = load b e.2 := by
          rw [fetchRun, SortedMap.get_eq_some_iff.2 (hall e List.mem_cons_self), Option.bind_some]
        cases hload : load b e.2 with
        | none => simp [tenantDoc, hload, hrest]
        | some row =>
            by_cases htenant : ofTenant orgId projectId row = true
            · simp [tenantDoc, hload, htenant, hrest, hfetch]
            · simp [tenantDoc, hload, htenant, hrest]
  exact hentries runs.rows.entries fun _ he => he

theorem fetchRun_of_mem_selected (h : Sound b runs) {p : Doc → Bool} {runId : String}
    (hid : runId ∈ runs.selected p) :
    ∃ row, fetchRun b runs runId = some row ∧ row.key = some ⟨.agentRun, runId⟩ := by
  rcases IndexedTable.mem_selected.1 hid with ⟨doc, hget, _⟩
  rcases h.readable runId doc hget with ⟨row, _, _, hload, hkey, _⟩
  exact ⟨row, by rw [fetchRun, hget, Option.bind_some, hload], hkey⟩

/-- Runs that are loaded by their ids have these ids. -/
theorem map_key_filterMap (h : Sound b runs) {p : Doc → Bool} {ids : List String}
    (hids : ∀ runId ∈ ids, runId ∈ runs.selected p) :
    (ids.filterMap (fetchRun b runs)).map Row.key = ids.map fun runId => some ⟨.agentRun, runId⟩ := by
  induction ids with
  | nil => rfl
  | cons runId ids ih =>
      rcases fetchRun_of_mem_selected h (hids runId List.mem_cons_self) with ⟨row, hfetch, hkey⟩
      rw [List.filterMap_cons_some hfetch, List.map_cons, List.map_cons, hkey,
        ih fun id hid => hids id (List.mem_cons_of_mem runId hid)]

theorem key_injective : Function.Injective fun runId => some (RowKey.mk .agentRun runId) := by
  intro runId runId' h
  exact congrArg RowKey.pk (Option.some.inj h)

/-- The runs of a query are as they should be if the ids of the listing are. -/
theorem listsRuns_iff (h : Sound b runs) : ListsRuns b runs ↔
    ∀ (tenant : String × String) limit, runs.ListsOnce (tenantDoc b tenant.1 tenant.2) limit := by
  have hone : ∀ orgId projectId limit, (∃ rows, queryRuns b runs orgId projectId limit = some rows ∧
      (∀ row ∈ rows, row ∈ tenantRuns b runs orgId projectId) ∧ (rows.map Row.key).Nodup ∧
      ((tenantRuns b runs orgId projectId).length < limit →
        ∀ row ∈ tenantRuns b runs orgId projectId, row ∈ rows)) ↔
      runs.ListsOnce (tenantDoc b orgId projectId) limit := by
    intro orgId projectId limit
    have hlisted : ∀ runId ∈ runs.listing (tenantDoc b orgId projectId) limit,
        runId ∈ runs.selected (tenantDoc b orgId projectId) :=
      fun _ hid => IndexedTable.mem_selected_of_listing hid
    have hlength : ((runs.selected (tenantDoc b orgId projectId)).filterMap (fetchRun b runs)).length =
        (runs.selected (tenantDoc b orgId projectId)).length := by
      have hkeys := congrArg List.length (map_key_filterMap h (fun _ hid => hid :
        ∀ runId ∈ runs.selected (tenantDoc b orgId projectId), runId ∈ runs.selected _))
      simpa using hkeys
    simp only [queryRuns_eq h, tenantRuns_eq, Option.some.injEq, exists_eq_left', hlength,
      map_key_filterMap h hlisted, List.nodup_map_iff key_injective, IndexedTable.ListsOnce]
    constructor
    · rintro ⟨_, hnodup, hall⟩
      refine ⟨hnodup, fun hfew runId hid => ?_⟩
      rcases fetchRun_of_mem_selected h hid with ⟨row, hfetch, hkey⟩
      rcases List.mem_filterMap.1 (hall hfew row (List.mem_filterMap.2 ⟨runId, hid, hfetch⟩)) with
        ⟨runId', hid', hfetch'⟩
      -- a run is loaded under one id only
      rcases fetchRun_of_mem_selected h (hlisted runId' hid') with ⟨row', hrow', hkey'⟩
      cases hfetch'.symm.trans hrow'
      have hsame : runId = runId' := key_injective (hkey.symm.trans hkey')
      rwa [hsame]
    · rintro ⟨hnodup, hall⟩
      refine ⟨fun row hrow => ?_, hnodup, fun hfew row hrow => ?_⟩
      · rcases List.mem_filterMap.1 hrow with ⟨runId, hid, hfetch⟩
        exact List.mem_filterMap.2 ⟨runId, hlisted runId hid, hfetch⟩
      · rcases List.mem_filterMap.1 hrow with ⟨runId, hid, hfetch⟩
        exact List.mem_filterMap.2 ⟨runId, hall hfew runId hid, hfetch⟩
  constructor
  · intro hlists tenant limit
    exact (hone tenant.1 tenant.2 limit).1 (hlists tenant.1 tenant.2 limit)
  · intro hlists orgId projectId limit
    exact (hone orgId projectId limit).2 (hlists (orgId, projectId) limit)

theorem listsRuns_iff_single (h : Sound b runs) : ListsRuns b runs ↔ runs.Single := by
  rw [listsRuns_iff h, IndexedTable.single_iff_listsOnce h.table
    (fun tenant : String × String => tenantDoc b tenant.1 tenant.2)]
  intro runId doc hget
  rcases h.readable runId doc hget with ⟨row, orgId, projectId, hload, _, htenant⟩
  exact ⟨(orgId, projectId), by simp [tenantDoc, hload, htenant]⟩

end Listing

/-! ## Sessions -/

section Sessions

variable {b : Builtins} {runs : Runs} {writes : List RunWrite} {w : RunWrite}
  {p : IndexedWrite String Bytes Doc}

theorem isSome_of_mapM {α β : Type} {f : α → Option β} {items : List α} {batch : List β}
    (h : items.mapM f = some batch) : ∀ a ∈ items, (f a).isSome := by
  induction items generalizing batch with
  | nil => simp
  | cons a items ih =>
      rw [List.mapM_cons] at h
      rcases Option.bind_eq_some_iff.1 h with ⟨p, hp, hrest⟩
      rcases Option.bind_eq_some_iff.1 hrest with ⟨ps, hps, _⟩
      intro a' ha'
      rcases List.mem_cons.1 ha' with rfl | htail
      · simp [hp]
      · exact ih hps a' htail

/-- What is put for a run. -/
theorem writeRun_spec (hiso : ∀ t : DateTime, b.fromisoformat t.isoformat = some t)
    (h : writeRun b w = some p) :
    p.id = w.run.runId ∧ indexKey (w.entry b) w.run.runId = some p.key ∧ owns p.key p.id ∧
      ∃ row, load b p.doc = some row ∧ row.key = some ⟨.agentRun, p.id⟩ ∧
        ofTenant w.run.orgId w.run.projectId row = true := by
  unfold writeRun at h
  split at h
  · next key doc idxKey hwrite hkey =>
      cases h
      rcases load_of_write hiso hwrite with ⟨rfl, hload⟩
      refine ⟨rfl, hkey, ⟨w.run.clear _ (by simp), ?_⟩, hload⟩
      rcases Option.map_eq_some_iff.1 hkey with ⟨ts, _, rfl⟩
      exact ⟨_, rfl⟩
  · cases h

/-- What a session writes that does not raise. -/
theorem batch_spec (hiso : ∀ t : DateTime, b.fromisoformat t.isoformat = some t)
    {batch : List (IndexedWrite String Bytes Doc)} (h : writes.mapM (writeRun b) = some batch) :
    (∀ w ∈ writes, ∃ p ∈ batch, writeRun b w = some p) ∧
      (∀ p ∈ batch, ∃ w ∈ writes, writeRun b w = some p) ∧ ∀ p ∈ batch, owns p.key p.id := by
  rcases RowSession.exists_mapM fun w hw =>
    Option.isSome_iff_exists.1 (isSome_of_mapM h w hw) with ⟨batch', hbatch', hrows, hback⟩
  cases h.symm.trans hbatch'
  refine ⟨hrows, hback, fun p hp => ?_⟩
  rcases hback p hp with ⟨w, _, hwrite⟩
  exact (writeRun_spec hiso hwrite).2.2.1

theorem Sound.empty : Sound b {} where
  table := ⟨fun _ _ h => by simp at h, fun _ _ h => by simp at h, fun _ h => by simp at h⟩
  readable _ _ h := by simp at h

/-- Step lemma. -/
theorem Sound.step (h : Sound b runs) (hiso : ∀ t : DateTime, b.fromisoformat t.isoformat = some t)
    (writes : List RunWrite) : Sound b (step b runs writes) := by
  unfold RunIndex.step
  cases hbatch : writes.mapM (writeRun b) with
  | none => exact h
  | some batch =>
      rcases batch_spec hiso hbatch with ⟨_, hback, howned⟩
      refine ⟨h.table.write owns_unique howned, fun runId doc hget => ?_⟩
      rcases IndexedTable.rows_write hget with hold | ⟨p, hp, rfl, rfl⟩
      · exact h.readable runId doc hold
      · rcases hback p hp with ⟨w, _, hwrite⟩
        rcases (writeRun_spec hiso hwrite).2.2.2 with ⟨row, hload, hkey, htenant⟩
        exact ⟨row, w.run.orgId, w.run.projectId, hload, hkey, htenant⟩

theorem entry_clear (w : RunWrite) :
    ∀ id ∈ [(w.entry b).orgId, (w.entry b).projectId], ':' ∉ id.toList := by
  intro id hid
  exact w.run.clear id (List.mem_cons_of_mem _ hid)

/-- The condition on a session is that on the keys of its batch. -/
theorem keepsEntries_iff (hiso : ∀ t : DateTime, b.fromisoformat t.isoformat = some t)
    {batch : List (IndexedWrite String Bytes Doc)} (hbatch : writes.mapM (writeRun b) = some batch) :
    KeepsEntries b runs writes ↔ runs.KeepsKeys batch := by
  rcases batch_spec hiso hbatch with ⟨hrows, hback, _⟩
  constructor
  · intro hkeeps
    rcases hkeeps (isSome_of_mapM hbatch) with ⟨hold, hsame⟩
    refine ⟨fun p hp k hk => ?_, fun p hp p' hp' hid => ?_⟩
    · rcases hback p hp with ⟨w, hw, hwrite⟩
      rcases writeRun_spec hiso hwrite with ⟨hid, hkey, _⟩
      exact Option.some.inj ((hold w hw k (hid ▸ hk)).symm.trans hkey)
    · rcases hback p hp with ⟨w, hw, hwrite⟩
      rcases hback p' hp' with ⟨w', hw', hwrite'⟩
      rcases writeRun_spec hiso hwrite with ⟨hrun, hkey, _⟩
      rcases writeRun_spec hiso hwrite' with ⟨hrun', hkey', _⟩
      have hruns : w.run.runId = w'.run.runId := hrun.symm.trans (hid.trans hrun')
      rw [hsame w hw w' hw' hruns, hruns] at hkey
      exact Option.some.inj (hkey.symm.trans hkey')
  · rintro ⟨hold, hsame⟩ _
    refine ⟨fun w hw k hk => ?_, fun w hw w' hw' hruns => ?_⟩
    · rcases hrows w hw with ⟨p, hp, hwrite⟩
      rcases writeRun_spec hiso hwrite with ⟨hid, hkey, _⟩
      rw [hkey, hold p hp k (hid ▸ hk)]
    · rcases hrows w hw with ⟨p, hp, hwrite⟩
      rcases hrows w' hw' with ⟨p', hp', hwrite'⟩
      rcases writeRun_spec hiso hwrite with ⟨hid, hkey, _⟩
      rcases writeRun_spec hiso hwrite' with ⟨hid', hkey', _⟩
      have hkeys : p.key = p'.key := hsame p hp p' hp' (hid.trans (hruns.trans hid'.symm))
      rw [← hruns, ← hkeys] at hkey'
      exact indexKey_inj (entry_clear w) (entry_clear w') hkey hkey'

/-- The condition says of every session whether the listings stay right. -/
theorem listsRuns_step_iff (h : Sound b runs)
    (hiso : ∀ t : DateTime, b.fromisoformat t.isoformat = some t) (hlists : ListsRuns b runs) :
    ListsRuns b (step b runs writes) ↔ KeepsEntries b runs writes := by
  cases hbatch : writes.mapM (writeRun b) with
  | none =>
      -- the session raises
      have hstep : step b runs writes = runs := by simp [RunIndex.step, hbatch]
      rw [hstep]
      refine iff_of_true hlists fun hall => ?_
      rcases RowSession.exists_mapM fun w hw => Option.isSome_iff_exists.1 (hall w hw) with
        ⟨batch, hsome, _⟩
      cases hbatch.symm.trans hsome
  | some batch =>
      have hstep : step b runs writes = runs.write batch := by simp [RunIndex.step, hbatch]
      have hsound := h.step hiso writes
      rcases batch_spec hiso hbatch with ⟨_, _, howned⟩
      calc ListsRuns b (step b runs writes)
          ↔ (step b runs writes).Single := listsRuns_iff_single hsound
        _ ↔ (runs.write batch).Single := by rw [hstep]
        _ ↔ runs.KeepsKeys batch :=
            IndexedTable.single_write_iff h.table ((listsRuns_iff_single h).1 hlists) owns_unique howned
        _ ↔ KeepsEntries b runs writes := (keepsEntries_iff hiso hbatch).symm

/-- Where a run is always written with the same tenant and the same start, the sessions meet the
condition. -/
theorem meets_of_sameEntries (hiso : ∀ t : DateTime, b.fromisoformat t.isoformat = some t)
    (all : List RunWrite)
    (hsame : ∀ w ∈ all, ∀ w' ∈ all, w.run.runId = w'.run.runId → w.entry b = w'.entry b)
    {sessions : List (List RunWrite)} (hall : ∀ writes ∈ sessions, ∀ w ∈ writes, w ∈ all)
    (h : Sound b runs)
    (hindex : ∀ k runId, runs.index.get k = some runId →
      ∃ w ∈ all, w.run.runId = runId ∧ indexKey (w.entry b) runId = some k) :
    Meets (step b) (KeepsEntries b) runs sessions := by
  induction sessions generalizing runs with
  | nil => trivial
  | cons writes sessions ih =>
      have hwrites : ∀ w ∈ writes, w ∈ all := hall writes List.mem_cons_self
      refine ⟨fun _ => ⟨fun w hw k hk => ?_, fun w hw w' hw' => ?_⟩, ?_⟩
      · rcases hindex k _ hk with ⟨w', hw', hid, hkey⟩
        rw [hsame w (hwrites w hw) w' hw' hid.symm]
        exact hkey
      · exact hsame w (hwrites w hw) w' (hwrites w' hw')
      · refine ih (fun writes' hwrites' => hall writes' (List.mem_cons_of_mem writes hwrites'))
          (h.step hiso writes) fun k runId hk => ?_
        unfold RunIndex.step at hk
        cases hbatch : writes.mapM (writeRun b) with
        | none =>
            rw [hbatch] at hk
            exact hindex k runId hk
        | some batch =>
            rcases batch_spec hiso hbatch with ⟨_, hback, howned⟩
            rw [hbatch, Option.map_some, Option.getD_some,
              IndexedTable.index_write owns_unique h.table.owned howned] at hk
            rcases hk with hold | ⟨p, hp, rfl, rfl⟩
            · exact hindex k runId hold
            · rcases hback p hp with ⟨w, hw, hwrite⟩
              rcases writeRun_spec hiso hwrite with ⟨hid, hkey, _⟩
              exact ⟨w, hwrites w hw, hid.symm, hid ▸ hkey⟩

/-! ### A run that is written twice -/

/-- The library at noon of 2026-05-01. -/
noncomputable def noonBuiltins : Builtins where
  fromisoformat := Function.partialInv DateTime.isoformat
  timestamp _ := some 1777636800
  str _ := ""
  millis _ := 1777636800000

/-- A run of one tenant with this start. -/
def exampleRun (startedAt : PyObject) (h : startedAt = .none ∨ ∃ t, startedAt = .datetime t)
    (status : String) : RunRow where
  row := .init .agentRun [("run_id", .str "run_1"), ("org_id", .str "org_test"),
    ("project_id", .str "proj_test"), ("status", .str status), ("started_at", startedAt)]
  runId := "run_1"
  orgId := "org_test"
  projectId := "proj_test"
  agentRun := rfl
  get_runId := rfl
  get_orgId := rfl
  get_projectId := rfl
  clear := by decide
  time := by
    intro name hname
    rcases List.mem_cons.1 hname with rfl | hrest
    · exact h
    · rcases List.mem_singleton.1 hrest with rfl
      exact .inl rfl

theorem firstOfMay_inRange : 2026 < 10000 ∧ 5 < 100 ∧ 1 < 100 ∧ 12 < 100 ∧ 0 < 100 ∧ 0 < 100 ∧
    0 < 1000000 ∧ ∀ o ∈ (some 0 : Option Int), o.natAbs < 86400000000 := by
  decide

def noon : PyObject :=
  .datetime ⟨2026, 5, 1, 12, 0, 0, 0, some 0, firstOfMay_inRange⟩

/-- A run is added, and added again when it is committed. -/
def exampleSessions (startedAt : PyObject) (h : startedAt = .none ∨ ∃ t, startedAt = .datetime t) :
    List (List RunWrite) :=
  [[⟨exampleRun startedAt h "running", 1777636800500⟩],
    [⟨exampleRun startedAt h "committed", 1777636860500⟩]]

end Sessions

end RunIndex
end Collector
end ControlDB
