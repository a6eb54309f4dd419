import ControlDB.Python.CanonicalBinding
import ControlDB.Collector.AllOrNothing

/-!
# Tamper evidence

`verify` follows the chain of the rows it finds from the first one on.  Where SHA-256 has no
collision on the hashed texts, it accepts what is left of an accepted run exactly if that is a
beginning of the run: a row that was changed no longer has its hash, and a row whose predecessor is
gone points to nothing.  Nothing points to the end of the run.
-/

namespace ControlDB
namespace Collector

open Library Python

/-! ## Rows and their hashed columns -/

/-- The rows agree in every column that is hashed: a payload up to the order of members, a time up
to a missing offset, which stands for UTC. -/
structure SameColumns (a b : AuditEvent) : Prop where
  eventId : a.eventId = b.eventId
  schemaVersion : a.schemaVersion = b.schemaVersion
  eventType : a.eventType = b.eventType
  orgId : a.orgId = b.orgId
  projectId : a.projectId = b.projectId
  environment : a.environment = b.environment
  runId : a.runId = b.runId
  stepId : a.stepId = b.stepId
  stepIndex : a.stepIndex = b.stepIndex
  traceId : a.traceId = b.traceId
  spanId : a.spanId = b.spanId
  parentSpanId : a.parentSpanId = b.parentSpanId
  actorType : a.actorType = b.actorType
  actorId : a.actorId = b.actorId
  payloadMode : a.payloadMode = b.payloadMode
  payload : a.payload.sortKeys = b.payload.sortKeys
  payloadHash : a.payloadHash = b.payloadHash
  previousEventHash : a.previousEventHash = b.previousEventHash
  occurredAt : a.occurredAt.attachUtc = b.occurredAt.attachUtc
  ingestedAt : a.ingestedAt.attachUtc = b.ingestedAt.attachUtc
  idempotencyKey : a.idempotencyKey = b.idempotencyKey

/-- What `verify` hashes for a row. -/
def rowText (run : AgentRun) (e : AuditEvent) : Option Bytes :=
  canonicalJson (.obj (rowEnvelope run e).members)

/-- The row has the hash of its columns. -/
def HasOwnHash (env : Env) (run : AgentRun) (e : AuditEvent) : Prop :=
  Python.computeEventHash env.sha256 (rowEnvelope run e).members = some e.eventHash

section Rows

variable {env : Env} {run : AgentRun} {a b : AuditEvent}

theorem str_inj {s t : String} : PyJson.str s = PyJson.str t ↔ s = t := by
  simp [PyJson.str]

theorem optStr_inj {s t : Option String} : PyJson.optStr s = PyJson.optStr t ↔ s = t := by
  cases s <;> cases t <;> simp [PyJson.optStr, PyJson.str, PyJson.none]

theorem optInt_inj {n m : Option Int} : PyJson.optInt n = PyJson.optInt m ↔ n = m := by
  cases n <;> cases m <;> simp [PyJson.optInt, PyJson.int, PyJson.none]

theorem utcIso_inj {s t : DateTime} : utcIso s = utcIso t ↔ s.attachUtc = t.attachUtc := by
  constructor
  · exact fun h => DateTime.isoformat_injective h
  · exact congrArg DateTime.isoformat

/-- An envelope has no hash of its own to leave out. -/
theorem computeEventHash_members (sha256 : Sha256) (e : Envelope) :
    Python.computeEventHash sha256 e.members =
      (canonicalJson (.obj e.members)).map (Python.sha256Hex sha256) := by
  have hkeys : (e.members.filter fun m => decide (m.1 ≠ "event_hash")) = e.members := by
    simp [Envelope.members]
  rw [Python.computeEventHash, hkeys]

theorem computeEventHash_rowEnvelope (sha256 : Sha256) (run : AgentRun) (e : AuditEvent) :
    Python.computeEventHash sha256 (rowEnvelope run e).members =
      (rowText run e).map (Python.sha256Hex sha256) :=
  computeEventHash_members sha256 (rowEnvelope run e)

theorem sortMembers_actor (e : AuditEvent) :
    (JsonTree.obj [("type", PyJson.optStr e.actorType), ("id", PyJson.optStr e.actorId)]).sortKeys =
      .obj [("id", PyJson.optStr e.actorId), ("type", PyJson.optStr e.actorType)] := by
  have hlt : ¬ "type" ≤ "id" := by decide
  simp [JsonTree.sortKeys, JsonTree.sortMembers, sortKeys_optStr, List.orderedInsert, hlt]

/-- The sorted members determine the hashed columns. -/
theorem sortMembers_rowEnvelope :
    JsonTree.sortMembers (rowEnvelope run a).members =
      JsonTree.sortMembers (rowEnvelope run b).members ↔ SameColumns a b := by
  constructor
  -- each member of the sorted envelope determines its column
  · intro h
    simp only [Envelope.members, rowEnvelope, JsonTree.sortMembers, sortKeys_str, sortKeys_optStr,
      sortKeys_optInt, sortMembers_actor, List.cons.injEq, Prod.mk.injEq, str_inj, optStr_inj,
      optInt_inj, utcIso_inj, JsonTree.obj.injEq, true_and, and_true] at h
    rcases h with ⟨h1, h2, h3, h4, h5, h6, h7, h8, h9, h10, h11, h12, ⟨h13, h14⟩, h15, h16, h17, h18,
      h19, h20, h21⟩
    exact ⟨h1, h2, h3, h4, h5, h6, h7, h8, h9, h10, h11, h12, h14, h13, h15, h16, h17, h18, h19, h20,
      h21⟩
  · intro h
    simp only [Envelope.members, rowEnvelope, JsonTree.sortMembers, sortKeys_str, sortKeys_optStr,
      sortKeys_optInt, sortMembers_actor, h.eventId, h.schemaVersion, h.eventType, h.orgId,
      h.projectId, h.environment, h.runId, h.stepId, h.stepIndex, h.traceId, h.spanId,
      h.parentSpanId, h.actorType, h.actorId, h.payloadMode, h.payload, h.payloadHash,
      h.previousEventHash, utcIso_inj.2 h.occurredAt, utcIso_inj.2 h.ingestedAt, h.idempotencyKey]

/-- Rows with the same hashed text have the same hashed columns. -/
theorem sameColumns_of_rowText {data : Bytes} (ha : rowText run a = some data)
    (hb : rowText run b = some data) : SameColumns a b := by
  have hkeys : (rowEnvelope run a).members.map Prod.fst =
      (rowEnvelope run b).members.map Prod.fst := by
    simp only [Envelope.members, List.map_cons, List.map_nil]
  have hnodup : ((rowEnvelope run a).members.map Prod.fst).Nodup := by
    simp only [Envelope.members, List.map_cons, List.map_nil]
    decide
  apply sortMembers_rowEnvelope.1
  exact JsonTree.sortMembers_eq_of_sortKeys hkeys hnodup (sortKeys_eq_of_canonicalJson ha hb)

theorem SameColumns.rowText_eq (h : SameColumns a b) (run : AgentRun) :
    rowText run a = rowText run b := by
  apply canonicalJson_congr
  simp only [JsonTree.sortKeys, sortMembers_rowEnvelope.2 h]

/-- Only the payload can keep a row from being hashed. -/
theorem rowText_eq_none (run : AgentRun) : rowText run a = none ↔ encodable a.payload = false := by
  have hstr : ∀ s, encodable (PyJson.str s) = true := fun _ => rfl
  have hoptStr : ∀ s, encodable (PyJson.optStr s) = true := by
    intro s
    cases s <;> rfl
  have hoptInt : ∀ n, encodable (PyJson.optInt n) = true := by
    intro n
    cases n <;> rfl
  have hpayload : encodable (.obj (rowEnvelope run a).members) = encodable a.payload := by
    simp [Envelope.members, rowEnvelope, encodable, encodableMembers, hstr, hoptStr, hoptInt]
  unfold rowText canonicalJson
  rw [hpayload]
  cases encodable a.payload <;> simp

/-- Without a collision, rows with their own, equal hashes have the same hashed columns. -/
theorem HasOwnHash.sameColumns {texts : Set Bytes} (hinj : Set.InjOn env.sha256 texts)
    (hatexts : ∀ data ∈ rowText run a, data ∈ texts) (hbtexts : ∀ data ∈ rowText run b, data ∈ texts)
    (ha : HasOwnHash env run a) (hb : HasOwnHash env run b) (hhash : a.eventHash = b.eventHash) :
    SameColumns a b := by
  rw [HasOwnHash, computeEventHash_rowEnvelope] at ha hb
  rcases Option.map_eq_some_iff.1 ha with ⟨s, hs, hsHash⟩
  rcases Option.map_eq_some_iff.1 hb with ⟨t, ht, htHash⟩
  have hdigests : env.sha256 s = env.sha256 t := by
    apply sha256Hex_eq
    rw [hsHash, htHash, hhash]
  have hsame : s = t := hinj (hatexts s hs) (hbtexts t ht) hdigests
  exact sameColumns_of_rowText hs (hsame ▸ ht)

end Rows

/-! ## What `verify` accepts -/

/-- A chain of rows that have their own hashes. -/
def Accepted (env : Env) (run : AgentRun) (previous : Option String) (rows : List AuditEvent) :
    Prop :=
  Linked AuditEvent.previousEventHash AuditEvent.eventHash previous rows ∧
    ∀ e ∈ rows, HasOwnHash env run e

section Verify

variable {env : Env} {run : AgentRun} {previous : Option String} {rows : List AuditEvent}

theorem accepted_nil : Accepted env run previous [] := by
  simp [Accepted]

theorem accepted_cons {row : AuditEvent} :
    Accepted env run previous (row :: rows) ↔
      row.previousEventHash = previous ∧ HasOwnHash env run row ∧
        Accepted env run (some row.eventHash) rows := by
  simp only [Accepted, linked_cons, List.forall_mem_cons]
  constructor
  · rintro ⟨⟨hprev, hlinked⟩, hrow, hrows⟩
    exact ⟨hprev, hrow, hlinked, hrows⟩
  · rintro ⟨hprev, hrow, hlinked, hrows⟩
    exact ⟨⟨hprev, hlinked⟩, hrow, hrows⟩

theorem verifyLoop_eq_none : verifyLoop env run previous rows = .ok none ↔
    Accepted env run previous rows := by
  induction rows generalizing previous with
  | nil => exact iff_of_true rfl accepted_nil
  | cons row rest ih =>
      rw [accepted_cons, ← ih, verifyLoop, HasOwnHash]
      by_cases hprev : row.previousEventHash = previous
      · cases hhash : Python.computeEventHash env.sha256 (rowEnvelope run row).members with
        | none => simp [hprev]
        | some expected =>
            by_cases hexpected : expected = row.eventHash
            · simp [hprev, hexpected]
            · simp [hprev, hexpected]
      · simp [hprev]

/-- The loop raises at a row that cannot be hashed, if it accepts all rows before it. -/
theorem verifyLoop_error : (∃ err, verifyLoop env run previous rows = .error err) ↔
    ∃ kept row rest, rows = kept ++ row :: rest ∧ Accepted env run previous kept ∧
      row.previousEventHash = lastLink AuditEvent.eventHash previous kept ∧
      encodable row.payload = false := by
  induction rows generalizing previous with
  | nil =>
      constructor
      · rintro ⟨err, herr⟩
        cases herr
      · rintro ⟨kept, row, rest, hrows, _⟩
        simp at hrows
  | cons row rest ih =>
      -- the raising row is this one, or one behind it
      have hhere : (∃ kept row' rest', row :: rest = kept ++ row' :: rest' ∧
          Accepted env run previous kept ∧
          row'.previousEventHash = lastLink AuditEvent.eventHash previous kept ∧
          encodable row'.payload = false) ↔
          (row.previousEventHash = previous ∧ encodable row.payload = false) ∨
          (row.previousEventHash = previous ∧ HasOwnHash env run row ∧
            ∃ err, verifyLoop env run (some row.eventHash) rest = .error err) := by
        rw [ih]
        constructor
        · rintro ⟨kept, row', rest', hrows, haccepted, hprev, hpayload⟩
          cases kept with
          | nil =>
              cases hrows
              exact .inl ⟨hprev, hpayload⟩
          | cons first kept =>
              rcases List.cons.inj hrows with ⟨rfl, hrest⟩
              rcases accepted_cons.1 haccepted with ⟨hfirst, hhash, hkept⟩
              exact .inr ⟨hfirst, hhash, kept, row', rest', hrest, hkept, hprev, hpayload⟩
        · rintro (⟨hprev, hpayload⟩ | ⟨hprev, hhash, kept, row', rest', rfl, hkept, hlast, hpayload⟩)
          · exact ⟨[], row, rest, rfl, accepted_nil, hprev, hpayload⟩
          · exact ⟨row :: kept, row', rest', rfl, accepted_cons.2 ⟨hprev, hhash, hkept⟩, hlast,
              hpayload⟩
      rw [hhere, verifyLoop, HasOwnHash, ← rowText_eq_none run,
        computeEventHash_rowEnvelope]
      -- a broken link ends the loop before the payload is encoded
      by_cases hprev : row.previousEventHash = previous
      · cases htext : rowText run row with
        | none => simp [hprev]
        | some data =>
            by_cases hexpected : Python.sha256Hex env.sha256 data = row.eventHash
            · simp [hprev, hexpected]
            · simp [hprev, hexpected]
      · simp [hprev]

end Verify

/-! ## Tampering with the rows of a run -/

/-- The row as it was, as far as `verify` can tell. -/
structure Intact (e e' : AuditEvent) : Prop where
  columns : SameColumns e e'
  eventHash : e'.eventHash = e.eventHash

/-- Event rows of a run are deleted (`none`) or get other hashed columns, at least one of them;
everything else stays. -/
structure Tampered (runId : String) (edit : AuditEvent → Option AuditEvent) (db db' : Database) :
    Prop where
  agentRuns : db'.agentRuns = db.agentRuns
  auditEvents : db'.auditEvents = db.auditEvents.filterMap edit
  others : ∀ e ∈ db.auditEvents, e.runId ≠ runId → edit e = some e
  kept : ∀ e ∈ db.auditEvents, ∀ e' ∈ edit e,
    e'.sequence = e.sequence ∧ e'.eventHash = e.eventHash
  changed : ∃ e ∈ db.auditEvents, e.runId = runId ∧ ∀ e' ∈ edit e, ¬ SameColumns e e'

/-- Deleting one event of a run. -/
def deleteEvent (runId eventId : String) (e : AuditEvent) : Option AuditEvent :=
  if e.runId = runId ∧ e.eventId = eventId then none else some e

/-- What `verify` finds of a row of the run afterwards. -/
def editIn (runId : String) (edit : AuditEvent → Option AuditEvent) (e : AuditEvent) :
    Option AuditEvent :=
  (edit e).filter fun e' => decide (e'.runId = runId)

/-- The rows that are left are the first ones of the run, as they were. -/
def Truncated (rows rows' : List AuditEvent) : Prop :=
  ∃ n, List.Forall₂ Intact (rows.take n) rows'

/-- The first rows of the run are left as they were, and behind them comes a row that continues the
chain and has a payload that is no JSON value. -/
def Unreadable (rows rows' : List AuditEvent) : Prop :=
  ∃ kept row rest, rows' = kept ++ row :: rest ∧ Truncated rows kept ∧
    row.previousEventHash = lastLink AuditEvent.eventHash none kept ∧
    encodable row.payload = false

/-- The texts that `verify` hashes for the rows of a run. -/
def verifiedTexts (db : Database) (runId : String) (rows : List AuditEvent) : Set Bytes :=
  {data | ∃ run, db.agentRuns.get runId = some run ∧ ∃ e ∈ rows, rowText run e = some data}

/-- `verify` answers, and says that the chain is broken. -/
def Detected (env : Env) (db : Database) (principal : Principal) (runId : String) : Prop :=
  ∃ v, verify env db principal runId = .ok v ∧ v.valid = false

section Tampering

variable {env : Env} {run : AgentRun} {principal : Principal} {runId : String}
  {db db' : Database} {edit : AuditEvent → Option AuditEvent}

/-- What a partial map keeps of a list. -/
theorem exists_sublist_of_filterMap (edit : AuditEvent → Option AuditEvent) (l : List AuditEvent) :
    ∃ orig, orig.Sublist l ∧ List.Forall₂ (fun e e' => edit e = some e') orig (l.filterMap edit) := by
  induction l with
  | nil => exact ⟨[], .slnil, .nil⟩
  | cons e l ih =>
      rcases ih with ⟨orig, hsub, hall⟩
      cases hedit : edit e with
      | none =>
          rw [List.filterMap_cons_none hedit]
          exact ⟨orig, hsub.cons e, hall⟩
      | some e' =>
          rw [List.filterMap_cons_some hedit]
          exact ⟨e :: orig, hsub.cons_cons e, .cons hedit hall⟩

/-- The rows that `verify` finds afterwards come from rows of the run, in their order. -/
theorem Tampered.exists_sublist (hdb : Sound db) (h : Tampered runId edit db db') :
    ∃ orig, orig.Sublist (runEvents db runId) ∧
      List.Forall₂ (fun e e' => e'.eventHash = e.eventHash) orig (runEvents db' runId) := by
  have hevents : (db'.auditEvents.filter fun e => decide (e.runId = runId)) =
      (runEvents db runId).filterMap (editIn runId edit) := by
    rw [h.auditEvents, hdb.runEvents_eq, List.filterMap_filter, List.filter_filterMap]
    refine List.filterMap_congr fun e he => ?_
    by_cases hid : e.runId = runId
    · simp [editIn, hid]
    · simp [hid, h.others e he hid]
  have hmem : ∀ {e}, e ∈ runEvents db runId → e ∈ db.auditEvents := by
    intro e he
    rw [hdb.runEvents_eq] at he
    exact List.mem_of_mem_filter he
  have hkeep : ∀ {e e'}, e ∈ runEvents db runId → editIn runId edit e = some e' →
      e'.sequence = e.sequence ∧ e'.eventHash = e.eventHash := by
    intro e e' he he'
    exact h.kept e (hmem he) e' (Option.filter_eq_some_iff.1 he').1
  -- the sequence column is left alone, so the rows are still in order
  have hsorted : ((runEvents db runId).filterMap (editIn runId edit)).Pairwise
      fun a b => a.sequence < b.sequence := by
    have hrows : (runEvents db runId).Pairwise fun a b => a.sequence < b.sequence := by
      rw [hdb.runEvents_eq]
      exact hdb.sorted.filter _
    refine List.pairwise_filterMap.2 (hrows.imp_of_mem ?_)
    intro a b ha hb hlt a' ha' b' hb'
    rw [(hkeep ha ha').1, (hkeep hb hb').1]
    exact hlt
  rw [← hevents] at hsorted
  rcases exists_sublist_of_filterMap (editIn runId edit) (runEvents db runId) with ⟨orig, hsub, hall⟩
  refine ⟨orig, hsub, ?_⟩
  rw [runEvents_eq_filter hsorted, hevents]
  refine List.forall₂_iff_get.2 ⟨hall.length_eq, ?_⟩
  intro i hi hi'
  exact (hkeep (hsub.subset (List.get_mem _ _)) (hall.get hi hi')).2

theorem tampered_deleteEvent {eventId : String}
    (hstored : ∃ e ∈ db.auditEvents, e.runId = runId ∧ e.eventId = eventId) :
    Tampered runId (deleteEvent runId eventId) db
      { db with auditEvents := db.auditEvents.filterMap (deleteEvent runId eventId) } where
  agentRuns := rfl
  auditEvents := rfl
  others := by
    intro e _ hid
    simp [deleteEvent, hid]
  kept := by
    intro e _ e' he'
    unfold deleteEvent at he'
    split_ifs at he'
    · cases he'
    · rw [Option.some.inj he']
      exact ⟨rfl, rfl⟩
  changed := by
    rcases hstored with ⟨e, he, hid⟩
    refine ⟨e, he, hid.1, ?_⟩
    simp [deleteEvent, hid]

theorem mem_without {eventId : String} {e : AuditEvent}
    (he : e ∈ runEvents { db with
      auditEvents := db.auditEvents.filterMap (deleteEvent runId eventId) } runId) :
    e ∈ runEvents db runId := by
  rcases List.mem_filter.1 ((List.mem_insertionSort _).1 he) with ⟨hmem, hid⟩
  rcases List.mem_filterMap.1 hmem with ⟨e', he', hedit⟩
  unfold deleteEvent at hedit
  split_ifs at hedit
  cases hedit
  exact (List.mem_insertionSort _).2 (List.mem_filter.2 ⟨he', hid⟩)

/-- Accepted rows with different hashes have texts with different digests. -/
theorem injOn_verifiedTexts {rows rows' : List AuditEvent}
    (hget : db.agentRuns.get runId = some run) (hrows : Accepted env run none rows)
    (hnodup : (rows.map AuditEvent.eventHash).Nodup) (hsub : ∀ e ∈ rows', e ∈ rows) :
    Set.InjOn env.sha256 (verifiedTexts db runId (rows ++ rows')) := by
  -- every text is that of a row, whose hash it gives
  have hown : ∀ {data}, data ∈ verifiedTexts db runId (rows ++ rows') →
      ∃ e ∈ rows, rowText run e = some data ∧ Python.sha256Hex env.sha256 data = e.eventHash := by
    rintro data ⟨run', hrun', e, he, hdata⟩
    rw [hget] at hrun'
    cases hrun'
    have hmem : e ∈ rows := (List.mem_append.1 he).elim id (hsub e)
    have hhash := hrows.2 e hmem
    rw [HasOwnHash, computeEventHash_rowEnvelope, hdata] at hhash
    exact ⟨e, hmem, hdata, Option.some.inj hhash⟩
  intro s hs t ht hsame
  rcases hown hs with ⟨a, ha, haText, haHash⟩
  rcases hown ht with ⟨b, hb, hbText, hbHash⟩
  have hhashes : a.eventHash = b.eventHash := by
    rw [← haHash, ← hbHash, Python.sha256Hex, Python.sha256Hex, hsame]
  -- the stored hashes differ, so equal digests mean the same row
  have hab : a = b := List.inj_on_of_nodup_map hnodup ha hb hhashes
  rw [← hab, haText] at hbText
  exact Option.some.inj hbText

/-- What is left of an accepted run is accepted exactly if it is a beginning of the run. -/
theorem accepted_iff_truncated {texts : Set Bytes} {rows orig kept : List AuditEvent}
    (hrows : Accepted env run none rows) (hids : rows.Pairwise Apart) (hsub : orig.Sublist rows)
    (hhash : List.Forall₂ (fun e e' => e'.eventHash = e.eventHash) orig kept)
    (hinj : Set.InjOn env.sha256 texts)
    (hrowTexts : ∀ e ∈ rows, ∀ data ∈ rowText run e, data ∈ texts)
    (hkeptTexts : ∀ e ∈ kept, ∀ data ∈ rowText run e, data ∈ texts) :
    Accepted env run none kept ↔ Truncated rows kept := by
  have hlinks : ∀ {l : List AuditEvent}, List.Forall₂ Intact l kept →
      (Linked AuditEvent.previousEventHash AuditEvent.eventHash none l ↔
        Linked AuditEvent.previousEventHash AuditEvent.eventHash none kept) := by
    intro l hintact
    exact linked_congr (hintact.imp fun e e' h => ⟨h.columns.previousEventHash, h.eventHash.symm⟩)
  constructor
  · intro hkept
    -- a row with the hash it had is unchanged, as there is no collision
    have hintact : List.Forall₂ Intact orig kept := by
      refine List.forall₂_iff_get.2 ⟨hhash.length_eq, fun i hi hi' => ?_⟩
      have he := hsub.subset (List.get_mem orig ⟨i, hi⟩)
      have he' := List.get_mem kept ⟨i, hi'⟩
      have hsame := hhash.get hi hi'
      refine ⟨?_, hsame⟩
      exact (hrows.2 _ he).sameColumns hinj (hrowTexts _ he) (hkeptTexts _ he') (hkept.2 _ he')
        hsame.symm
    -- so distinct rows have distinct hashes
    have hnodup : (rows.map AuditEvent.eventHash).Nodup := by
      refine List.pairwise_map.2 (hids.imp_of_mem ?_)
      intro a b ha hb hapart heq
      have hsame := (hrows.2 a ha).sameColumns hinj (hrowTexts a ha) (hrowTexts b hb) (hrows.2 b hb)
        heq
      exact hapart.1 hsame.eventId
    -- and a chain with distinct hashes can only lose its end
    have hbeginning : orig <+: rows :=
      hrows.1.isPrefix_of_sublist hnodup (by simp) hsub ((hlinks hintact).2 hkept.1)
    refine ⟨orig.length, ?_⟩
    rw [← List.prefix_iff_eq_take.1 hbeginning]
    exact hintact
  · rintro ⟨n, hintact⟩
    -- conversely, a beginning of an accepted run is accepted
    have htake : Linked AuditEvent.previousEventHash AuditEvent.eventHash none (rows.take n) := by
      have hall := hrows.1
      rw [← List.take_append_drop n rows, linked_append] at hall
      exact hall.1
    refine ⟨(hlinks hintact).1 htake, ?_⟩
    intro e' he'
    rcases List.get_of_mem he' with ⟨i, rfl⟩
    have hi : i.1 < (rows.take n).length := by
      rw [hintact.length_eq]
      exact i.2
    have hpair := hintact.get hi i.2
    have hold := hrows.2 _ (List.mem_of_mem_take (List.get_mem (rows.take n) ⟨i.1, hi⟩))
    unfold HasOwnHash at hold ⊢
    rw [computeEventHash_rowEnvelope] at hold ⊢
    rw [← hpair.columns.rowText_eq, hold, hpair.eventHash]

/-- What is left after truncation has the first ids of the run. -/
theorem Truncated.eventIds {rows rows' : List AuditEvent} (h : Truncated rows rows') :
    rows'.map AuditEvent.eventId <+: rows.map AuditEvent.eventId := by
  rcases h with ⟨n, hintact⟩
  have hids : ∀ {l l' : List AuditEvent}, List.Forall₂ Intact l l' →
      l.map AuditEvent.eventId = l'.map AuditEvent.eventId := by
    intro l l' hl
    induction hl with
    | nil => rfl
    | cons hpair _ ih => rw [List.map_cons, List.map_cons, hpair.columns.eventId, ih]
  rw [← hids hintact]
  exact (List.take_prefix n rows).map _

theorem verify_eq_ok {v : Verification} (h : verify env db principal runId = .ok v) :
    ∃ run brokenAt, authorizeRun db principal runId = .ok run ∧
      verifyLoop env run none (runEvents db runId) = .ok brokenAt ∧ v.valid = brokenAt.isNone := by
  unfold verify at h
  cases hauth : authorizeRun db principal runId with
  | error e => simp [hauth, Bind.bind, Except.bind] at h
  | ok run =>
      simp only [hauth, Bind.bind, Except.bind] at h
      cases hloop : verifyLoop env run none (runEvents db runId) with
      | error e => simp [hloop] at h
      | ok brokenAt =>
          simp only [hloop, pure, Except.pure, Except.ok.injEq] at h
          exact ⟨run, brokenAt, rfl, hloop, by rw [← h]⟩

theorem detected_iff_loop (hauth : authorizeRun db principal runId = .ok run) :
    Detected env db principal runId ↔
      ∃ id, verifyLoop env run none (runEvents db runId) = .ok (some id) := by
  constructor
  · rintro ⟨v, hv, hvalid⟩
    rcases verify_eq_ok hv with ⟨run', brokenAt, hauth', hloop, hbroken⟩
    rw [hauth] at hauth'
    cases hauth'
    cases brokenAt with
    | none =>
        rw [hvalid] at hbroken
        cases hbroken
    | some id => exact ⟨id, hloop⟩
  · rintro ⟨id, hloop⟩
    refine ⟨_, by simp only [verify, hauth, hloop, Bind.bind, Except.bind]; rfl, rfl⟩

/-- For every run that was stored through the services and that `verify` accepts: tampering with its
event rows is detected exactly if it does more than cut off the last ones, and leaves values that can
be hashed up to the first break. -/
theorem detected_iff (env : Env) (requests : List Request) {v : Verification}
    (hverify : verify env (runRequests env {} requests) principal runId = .ok v)
    (hvalid : v.valid = true)
    (htampered : Tampered runId edit (runRequests env {} requests) db')
    (hinj : Set.InjOn env.sha256 (verifiedTexts (runRequests env {} requests) runId
      (runEvents (runRequests env {} requests) runId ++ runEvents db' runId))) :
    Detected env db' principal runId ↔
      ¬ Truncated (runEvents (runRequests env {} requests) runId) (runEvents db' runId) ∧
        ¬ Unreadable (runEvents (runRequests env {} requests) runId) (runEvents db' runId) := by
  have hdb := sound_runRequests env requests
  rcases verify_eq_ok hverify with ⟨run, brokenAt, hauth, hloop, hbroken⟩
  have hnone : brokenAt = none := Option.isNone_iff_eq_none.1 (hbroken.symm.trans hvalid)
  rw [hnone] at hloop
  have hrows := verifyLoop_eq_none.1 hloop
  have hget := (authorizeRun_eq_ok hauth).1
  have hids : (runEvents (runRequests env {} requests) runId).Pairwise Apart := by
    rw [hdb.runEvents_eq]
    exact hdb.distinct.filter _
  rcases htampered.exists_sublist hdb with ⟨orig, hsub, hhash⟩
  -- every beginning of what is left comes from a part of the run
  have hbeginning : ∀ {kept rest}, runEvents db' runId = kept ++ rest →
      (Accepted env run none kept ↔
        Truncated (runEvents (runRequests env {} requests) runId) kept) := by
    intro kept rest heq
    rw [heq] at hhash
    have hhead := List.forall₂_take kept.length hhash
    rw [List.take_left] at hhead
    apply accepted_iff_truncated hrows hids ((List.take_sublist _ _).trans hsub) hhead hinj
    · intro e he data hdata
      exact ⟨run, hget, e, List.mem_append_left _ he, hdata⟩
    · intro e he data hdata
      exact ⟨run, hget, e, List.mem_append_right _ (heq ▸ List.mem_append_left _ he), hdata⟩
  have hauth' : authorizeRun db' principal runId = .ok run := by
    unfold authorizeRun at hauth ⊢
    rw [htampered.agentRuns]
    exact hauth
  have haccept : verifyLoop env run none (runEvents db' runId) = .ok none ↔
      Truncated (runEvents (runRequests env {} requests) runId) (runEvents db' runId) :=
    verifyLoop_eq_none.trans (hbeginning (List.append_nil _).symm)
  have hraise : (∃ err, verifyLoop env run none (runEvents db' runId) = .error err) ↔
      Unreadable (runEvents (runRequests env {} requests) runId) (runEvents db' runId) := by
    rw [verifyLoop_error]
    constructor
    · rintro ⟨kept, row, rest, heq, hkept, hprev, hpayload⟩
      exact ⟨kept, row, rest, heq, (hbeginning heq).1 hkept, hprev, hpayload⟩
    · rintro ⟨kept, row, rest, heq, hkept, hprev, hpayload⟩
      exact ⟨kept, row, rest, heq, (hbeginning heq).2 hkept, hprev, hpayload⟩
  rw [detected_iff_loop hauth', ← haccept, ← hraise]
  cases hloop' : verifyLoop env run none (runEvents db' runId) with
  | error err => simp
  | ok broken =>
      cases broken with
      | none => simp
      | some id => simp

end Tampering

namespace TamperExample

open CollectorExample

/-- A run with two events. -/
def history : List Request :=
  [start, append [event "evt_a" (some "idem_a"), event "evt_b" (some "idem_b")]]

def stored : Database :=
  runRequests env {} history

def without (eventId : String) : Database :=
  { stored with auditEvents := stored.auditEvents.filterMap (deleteEvent "run_1" eventId) }

/-- What is known of the run, before and after its last event is deleted. -/
theorem evaluated : verify env stored owner "run_1" = .ok ⟨"run_1", true, 2, none⟩ ∧
    (runEvents stored "run_1").map AuditEvent.eventHash = [hashA, hashB] ∧
    verify env (without "evt_b") owner "run_1" = .ok ⟨"run_1", true, 1, none⟩ := by
  -- in one go, so that the run is computed once
  decide +kernel

theorem verify_stored : verify env stored owner "run_1" = .ok ⟨"run_1", true, 2, none⟩ :=
  evaluated.1

theorem injOn_stored (eventId : String) :
    Set.InjOn env.sha256 (verifiedTexts stored "run_1"
      (runEvents stored "run_1" ++ runEvents (without eventId) "run_1")) := by
  rcases verify_eq_ok verify_stored with ⟨run, brokenAt, hauth, hloop, hbroken⟩
  have hnone : brokenAt = none := Option.isNone_iff_eq_none.1 hbroken.symm
  rw [hnone] at hloop
  refine injOn_verifiedTexts (authorizeRun_eq_ok hauth).1 (verifyLoop_eq_none.1 hloop) ?_
    fun e he => mem_without he
  rw [evaluated.2.1]
  decide

theorem tampered_without {eventId : String}
    (hstored : (stored.auditEvents.any fun e =>
      decide (e.runId = "run_1" ∧ e.eventId = eventId)) = true) :
    Tampered "run_1" (deleteEvent "run_1" eventId) stored (without eventId) := by
  apply tampered_deleteEvent
  rcases List.any_eq_true.1 hstored with ⟨e, he, hid⟩
  exact ⟨e, he, of_decide_eq_true hid⟩

end TamperExample

open CollectorExample TamperExample in
/-- The first event is deleted, and the second one gives it away. -/
theorem detected_iff_first_deleted : Detected env (without "evt_a") owner "run_1" := by
  refine (detected_iff env history verify_stored rfl (tampered_without (by decide +kernel))
    (injOn_stored "evt_a")).2 ⟨?_, ?_⟩
  · intro htruncated
    have hids := htruncated.eventIds
    revert hids
    decide +kernel
  · rintro ⟨kept, row, rest, heq, _, _, hpayload⟩
    have hall : ((runEvents (without "evt_a") "run_1").all fun e => encodable e.payload) = true := by
      decide +kernel
    rw [heq] at hall
    simp [hpayload] at hall

open CollectorExample TamperExample in
/-- The last event is deleted, and `verify` accepts what is left. -/
theorem detected_fails_last_deleted :
    verify env stored owner "run_1" = .ok ⟨"run_1", true, 2, none⟩ ∧
      Tampered "run_1" (deleteEvent "run_1" "evt_b") stored (without "evt_b") ∧
      Set.InjOn env.sha256 (verifiedTexts stored "run_1"
        (runEvents stored "run_1" ++ runEvents (without "evt_b") "run_1")) ∧
      ¬ Detected env (without "evt_b") owner "run_1" := by
  refine ⟨verify_stored, tampered_without (by decide +kernel), injOn_stored "evt_b", ?_⟩
  rintro ⟨v, hv, hinvalid⟩
  rw [evaluated.2.2] at hv
  cases hv
  cases hinvalid

end Collector
end ControlDB
