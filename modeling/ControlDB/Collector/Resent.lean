import ControlDB.Collector.EventsBody
import ControlDB.Collector.Isolation
import ControlDB.Collector.Provenance
import ControlDB.Library.Resend

/-!
# Batches that come again

A sender gives each event an id and an idempotency key of its own and may send an event in many
batches.  The rows of its events are those of the receiver of `Library.Resend`: `append_events` stores
what is new and answers the rest from what is there.
-/

namespace ControlDB
namespace Collector

open Library Python

/-! ## Rows of sent events -/

/-- What a row keeps of an event that names its id. -/
structure Recorded (env : Env) (runId : String) (event : EventInput) (row : AuditEvent) : Prop where
  eventId : event.eventId = some row.eventId
  runId : row.runId = runId
  eventType : row.eventType = event.eventType
  schemaVersion : row.schemaVersion = (truthy event.schemaVersion).getD schemaVersion
  stepId : row.stepId = event.stepId
  stepIndex : row.stepIndex = event.stepIndex
  traceId : row.traceId = event.traceId
  spanId : row.spanId = event.spanId
  parentSpanId : row.parentSpanId = event.parentSpanId
  actor : ∀ member members, event.actor = some (member :: members) →
    env.bindString (PyJson.get (member :: members) "type") = some row.actorType ∧
      env.bindString (PyJson.get (member :: members) "id") = some row.actorId
  payloadMode : row.payloadMode = event.payloadMode
  payload : row.payload = redactedPayload env event
  payloadHash : payloadHashOf env event = .ok row.payloadHash
  idempotencyKey : row.idempotencyKey = event.idempotencyKey

/-- The event has an id and a key that `_persist_event` does not take for missing. -/
structure EventInput.Named (event : EventInput) : Prop where
  eventId : truthy event.eventId = event.eventId ∧ event.eventId.isSome = true
  idempotencyKey : (truthy event.idempotencyKey).isSome = true

/-- Events that have names of their own. -/
structure Distinct (events : List EventInput) : Prop where
  named : ∀ event ∈ events, event.Named
  ids : (events.map EventInput.eventId).Nodup
  keys : (events.map EventInput.idempotencyKey).Nodup

/-- The rows of the given events. -/
def rowsOf (events : List EventInput) (rows : List AuditEvent) : List AuditEvent :=
  rows.filter fun row => decide (some row.eventId ∈ events.map EventInput.eventId)

/-- The rows of the events are those of the stored ones, in their order, and no other row has the key
of an event. -/
structure Holds (env : Env) (runId : String) (events stored : List EventInput)
    (rows : List AuditEvent) : Prop where
  subset : stored ⊆ events
  recorded : List.Forall₂ (Recorded env runId) stored (rowsOf events rows)
  others : ∀ row ∈ rows, some row.eventId ∈ events.map EventInput.eventId ∨
    row.idempotencyKey ∉ events.map EventInput.idempotencyKey

section Rows

variable {env : Env} {m : Moment} {runId : String} {events stored : List EventInput}
  {rows : List AuditEvent}

theorem EventInput.Named.resolvedEventId {event : EventInput} (h : event.Named) (m : Moment)
    (i : Nat) : event.eventId = some (resolvedEventId m i event) := by
  rcases Option.isSome_iff_exists.1 h.eventId.2 with ⟨id, hid⟩
  rw [Collector.resolvedEventId, h.eventId.1, hid, Option.getD_some]

theorem recorded_of_newRow {i sequence : Nat} {principal : Principal} {run : AgentRun}
    {event : EventInput} {previousHash : Option String} {row : AuditEvent} (hnamed : event.Named)
    (h : newRow env m i sequence principal run event previousHash = .ok row) :
    Recorded env run.runId event row := by
  have hid := hnamed.resolvedEventId m i
  unfold newRow at h
  cases hhash : payloadHashOf env event with
  | error e =>
      rw [hhash] at h
      cases h
  | ok payloadHash =>
      simp only [hhash] at h
      split at h
      · next eventHash actorType actorId _ htype hactor =>
          cases h
          refine ⟨?_, rfl, rfl, rfl, rfl, rfl, rfl, rfl, rfl, ?_, rfl, rfl, hhash, rfl⟩
          · exact hid
          · intro member members hgiven
            have hmembers : actorOf run event = member :: members := by rw [actorOf, hgiven]
            rw [← hmembers]
            exact ⟨htype, hactor⟩
      · cases h

/-- A row of one of the events is that of a stored event. -/
theorem Holds.exists_stored (h : Holds env runId events stored rows) {row : AuditEvent}
    (hrow : row ∈ rows) (hown : some row.eventId ∈ events.map EventInput.eventId) :
    ∃ event ∈ stored, Recorded env runId event row := by
  have hmem : row ∈ rowsOf events rows := List.mem_filter.2 ⟨hrow, decide_eq_true hown⟩
  rcases List.mem_iff_getElem.1 hmem with ⟨n, hn, rfl⟩
  have hlength := h.recorded.length_eq
  refine ⟨stored[n], List.getElem_mem _, ?_⟩
  exact (List.forall₂_iff_get.1 h.recorded).2 n (by omega) hn

/-- The rows of the events are all rows of the run. -/
theorem Holds.rowsOf_runEvents {db : Database} (hdb : Sound db)
    (h : Holds env runId events stored db.auditEvents) :
    rowsOf events (runEvents db runId) = rowsOf events db.auditEvents := by
  rw [hdb.runEvents_eq, rowsOf, List.filter_filter]
  refine List.filter_congr fun row hrow => ?_
  rw [← Bool.decide_and, decide_eq_decide]
  refine and_iff_left_of_imp fun hown => ?_
  rcases h.exists_stored hrow hown with ⟨event, _, hrecorded⟩
  exact hrecorded.runId

/-- A stored event has a row. -/
theorem Holds.exists_row (h : Holds env runId events stored rows) {event : EventInput}
    (hevent : event ∈ stored) : ∃ row ∈ rows, Recorded env runId event row := by
  rcases List.mem_iff_getElem.1 hevent with ⟨n, hn, rfl⟩
  have hlength := h.recorded.length_eq
  have hrows : n < (rowsOf events rows).length := by omega
  refine ⟨(rowsOf events rows)[n], (List.mem_filter.1 (List.getElem_mem hrows)).1, ?_⟩
  exact (List.forall₂_iff_get.1 h.recorded).2 n hn hrows

/-- The key of one of the events is looked up with the event's own row, or in vain. -/
theorem Holds.findByKey_isSome_iff (h : Holds env runId events stored rows)
    (hdistinct : Distinct events) {event : EventInput} (hevent : event ∈ events) :
    (findByKey rows event.idempotencyKey).isSome = true ↔
      event.idempotencyKey ∈ stored.map EventInput.idempotencyKey := by
  constructor
  · intro hsome
    rcases Option.isSome_iff_exists.1 hsome with ⟨row, hfind⟩
    rcases findByKey_eq_some hfind with ⟨hrow, hkey⟩
    rcases h.others row hrow with hown | hother
    · rcases h.exists_stored hrow hown with ⟨x, hx, hrecorded⟩
      rw [hkey.2, hrecorded.idempotencyKey]
      exact List.mem_map_of_mem hx
    · exact absurd (hkey.2 ▸ List.mem_map_of_mem hevent) hother
  · intro hmem
    rcases List.mem_map.1 hmem with ⟨x, hx, hkey⟩
    rcases h.exists_row hx with ⟨row, hrow, hrecorded⟩
    cases hfind : findByKey rows event.idempotencyKey with
    | some found => rfl
    | none =>
        refine absurd ⟨(hdistinct.named event hevent).idempotencyKey, ?_⟩
          (findByKey_eq_none hfind hrow)
        rw [hrecorded.idempotencyKey, hkey]

/-- An event that is not stored has no row. -/
theorem Holds.eventId_ne (h : Holds env runId events stored rows) (hdistinct : Distinct events)
    {event : EventInput} (hevent : event ∈ events)
    (hnew : event.idempotencyKey ∉ stored.map EventInput.idempotencyKey) {row : AuditEvent}
    (hrow : row ∈ rows) : some row.eventId ≠ event.eventId := by
  intro hid
  have hown : some row.eventId ∈ events.map EventInput.eventId := by
    rw [hid]
    exact List.mem_map_of_mem hevent
  rcases h.exists_stored hrow hown with ⟨x, hx, hrecorded⟩
  -- two of the events with one id are the same
  have hsame : x = event := by
    refine List.inj_on_of_nodup_map hdistinct.ids (h.subset hx) hevent ?_
    rw [hrecorded.eventId, hid]
  exact hnew (hsame ▸ List.mem_map_of_mem hx)

theorem Holds.not_sameKey (h : Holds env runId events stored rows) (hdistinct : Distinct events)
    {event : EventInput} (hevent : event ∈ events)
    (hnew : event.idempotencyKey ∉ stored.map EventInput.idempotencyKey) {row : AuditEvent}
    (hrow : row ∈ rows) : ¬ SameKey event.idempotencyKey row.idempotencyKey := by
  refine findByKey_eq_none (Option.not_isSome_iff_eq_none.1 fun hfound => hnew ?_) hrow
  exact (h.findByKey_isSome_iff hdistinct hevent).1 hfound

/-- A row of an event that is not stored fits the unique columns. -/
theorem Holds.not_clashes (h : Holds env runId events stored rows) (hdistinct : Distinct events)
    {event : EventInput} (hevent : event ∈ events)
    (hnew : event.idempotencyKey ∉ stored.map EventInput.idempotencyKey) {row : AuditEvent}
    (hrow : Recorded env runId event row) : ¬ Clashes rows row := by
  rintro ⟨e, he, hid | ⟨hkey, _⟩⟩
  · exact h.eventId_ne hdistinct hevent hnew he (hid ▸ hrow.eventId.symm)
  · refine h.not_sameKey hdistinct hevent hnew he ⟨?_, ?_⟩
    · exact (hdistinct.named event hevent).idempotencyKey
    · rw [hkey, hrow.idempotencyKey]

theorem Holds.append_row (h : Holds env runId events stored rows) {event : EventInput}
    (hevent : event ∈ events) {row : AuditEvent} (hrow : Recorded env runId event row) :
    Holds env runId events (stored ++ [event]) (rows ++ [row]) := by
  have hown : some row.eventId ∈ events.map EventInput.eventId := by
    rw [← hrow.eventId]
    exact List.mem_map_of_mem hevent
  have hrows : rowsOf events (rows ++ [row]) = rowsOf events rows ++ [row] := by
    rw [rowsOf, List.filter_append, List.filter_singleton, decide_eq_true hown]
    rfl
  refine ⟨List.append_subset.2 ⟨h.subset, fun x hx => List.mem_singleton.1 hx ▸ hevent⟩, ?_, fun e he => ?_⟩
  · rw [hrows]
    exact List.rel_append h.recorded (.cons hrow .nil)
  · rcases List.mem_append.1 he with hold | hnew
    · exact h.others e hold
    · rw [List.mem_singleton.1 hnew]
      exact .inl hown

/-- An event that is new to the table may be added to those that will be sent. -/
theorem Holds.add_event (h : Holds env runId events stored rows) {event : EventInput}
    (hid : ∀ row ∈ rows, some row.eventId ≠ event.eventId)
    (hkey : ∀ row ∈ rows, some row.eventId ∈ events.map EventInput.eventId ∨
      row.idempotencyKey ≠ event.idempotencyKey) :
    Holds env runId (events ++ [event]) stored rows := by
  have hmem : ∀ row ∈ rows, (some row.eventId ∈ (events ++ [event]).map EventInput.eventId ↔
      some row.eventId ∈ events.map EventInput.eventId) := by
    intro row hrow
    rw [List.map_append, List.mem_append, List.map_singleton, List.mem_singleton]
    exact or_iff_left (hid row hrow)
  have hrows : rowsOf (events ++ [event]) rows = rowsOf events rows :=
    List.filter_congr fun row hrow => decide_eq_decide.2 (hmem row hrow)
  refine ⟨List.subset_append_of_subset_left _ h.subset, hrows ▸ h.recorded, fun row hrow => ?_⟩
  rw [hmem row hrow, List.map_append, List.mem_append, List.map_singleton, List.mem_singleton]
  rcases h.others row hrow with hown | hother
  · exact .inl hown
  · exact (hkey row hrow).imp_right fun hne => not_or.2 ⟨hother, hne⟩

/-- Rows of others may be added. -/
theorem Holds.append_others (h : Holds env runId events stored rows) {more : List AuditEvent}
    (hmore : ∀ row ∈ more, some row.eventId ∉ events.map EventInput.eventId ∧
      row.idempotencyKey ∉ events.map EventInput.idempotencyKey) :
    Holds env runId events stored (rows ++ more) := by
  have hrows : rowsOf events (rows ++ more) = rowsOf events rows := by
    have hnone : rowsOf events more = [] :=
      List.filter_eq_nil_iff.2 fun row hrow hown => (hmore row hrow).1 (of_decide_eq_true hown)
    rw [rowsOf, List.filter_append]
    exact (congrArg _ hnone).trans (List.append_nil _)
  refine ⟨h.subset, hrows ▸ h.recorded, fun row hrow => ?_⟩
  rcases List.mem_append.1 hrow with hold | hnew
  · exact h.others row hold
  · exact .inr (hmore row hnew).2

end Rows

/-! ## A batch of sent events -/

section Batches

variable {env : Env} {m : Moment} {committed : Database} {principal : Principal}
  {events stored : List EventInput} {runId : String}

/-- Step lemma: the event is stored already, or its row is new. -/
theorem Persisted.holds {i sequence : Nat} {s s' : AppendSession} {event : EventInput}
    {previousHash : Option String} {answer : AuditEvent} (hdistinct : Distinct events)
    (hevent : event ∈ events) (h : Holds env runId events stored (s.visible committed))
    (hrun : s.run.runId = runId)
    (hstep : Persisted env m i committed sequence principal s event previousHash s' answer) :
    s'.run.runId = runId ∧
      Holds env runId events (storeNew EventInput.idempotencyKey stored [event])
        (s'.visible committed) := by
  have hfound := h.findByKey_isSome_iff hdistinct hevent
  rw [storeNew, storeNew]
  cases hstep with
  | replayed hfind =>
      rw [if_pos (hfound.1 (by rw [hfind, Option.isSome_some]))]
      exact ⟨hrun, h⟩
  | @recovered row _ run' hnone hrow hclash hfind hreload =>
      have hnew : event.idempotencyKey ∉ stored.map EventInput.idempotencyKey := fun hmem => by
        simpa [hnone] using hfound.2 hmem
      have hrecorded := recorded_of_newRow (hdistinct.named event hevent) hrow
      rw [hrun] at hrecorded
      exact absurd hclash (h.not_clashes hdistinct hevent hnew hrecorded)
  | stored hnone hrow hfree =>
      have hnew : event.idempotencyKey ∉ stored.map EventInput.idempotencyKey := fun hmem => by
        simpa [hnone] using hfound.2 hmem
      have hrecorded := recorded_of_newRow (hdistinct.named event hevent) hrow
      rw [hrun] at hrecorded
      rw [if_neg hnew]
      refine ⟨?_, ?_⟩
      · rw [updateStatus_same]
        exact hrun
      · have happended := h.append_row hevent hrecorded
        rwa [AppendSession.visible, List.append_assoc] at happended

/-- A batch does to the rows of the events what the receiver does to its store. -/
theorem AppendRun.holds {i : Nat} {batch : List EventInput} {s s' : AppendSession}
    {previousHash lastHash : Option String} {answers : List AuditEvent}
    (hdistinct : Distinct events) (hbatch : batch ⊆ events)
    (h : Holds env runId events stored (s.visible committed)) (hrun : s.run.runId = runId)
    (happend : AppendRun env m committed principal i batch s previousHash s' lastHash answers) :
    Holds env runId events (storeNew EventInput.idempotencyKey stored batch)
      (s'.visible committed) := by
  induction happend generalizing stored with
  | nil => exact h
  | cons hfirst hrest ih =>
      rcases List.cons_subset.1 hbatch with ⟨hevent, hrestBatch⟩
      rcases hfirst.holds hdistinct hevent h hrun with ⟨hrun', hnext⟩
      exact ih hrestBatch hnext hrun'

/-- A batch of sent events that is answered is stored as far as it is new. -/
theorem Appended.holds {db db' : Database} {batch : List EventInput} {ids : List String}
    (hdb : Sound db) (hdistinct : Distinct events) (hbatch : batch ⊆ events)
    (h : Holds env runId events stored db.auditEvents)
    (happend : Appended env m db principal runId batch db' ids) :
    Holds env runId events (storeNew EventInput.idempotencyKey stored batch) db'.auditEvents := by
  cases happend with
  | empty => exact h
  | @batch _ run s lastHash answers hrun horg hproject hne hanswers =>
      have hstart : AppendSession.visible { loaded := run, run := run } db = db.auditEvents :=
        List.append_nil _
      have hholds := hanswers.holds hdistinct hbatch (hstart ▸ h) (hdb.runKey hrun)
      exact hholds

end Batches

/-! ## The chain -/

/-- The hash that the next event of the run is linked to. -/
def headHash (db : Database) (runId : String) : Option String :=
  (db.agentRuns.get runId).bind AgentRun.lastEventHash

/-- The events of the run are one chain, and the run has its last hash. -/
structure Continuous (db : Database) (runId : String) : Prop where
  linked : Linked AuditEvent.previousEventHash AuditEvent.eventHash none (runEvents db runId)
  head : headHash db runId = lastLink AuditEvent.eventHash none (runEvents db runId)

section Chains

variable {env : Env} {m : Moment} {committed : Database} {principal : Principal}
  {events stored : List EventInput} {runId : String}

theorem AppendRun.split {xs ys : List EventInput} {i : Nat} {s s' : AppendSession}
    {previousHash lastHash : Option String} {answers : List AuditEvent}
    (h : AppendRun env m committed principal i (xs ++ ys) s previousHash s' lastHash answers) :
    ∃ s₁ middleHash front back,
      AppendRun env m committed principal i xs s previousHash s₁ middleHash front ∧
      AppendRun env m committed principal (i + xs.length) ys s₁ middleHash s' lastHash back ∧
      answers = front ++ back := by
  induction xs generalizing i s previousHash answers with
  | nil => exact ⟨s, previousHash, [], answers, .nil, h, rfl⟩
  | cons x rest ih =>
      cases h with
      | @cons _ _ _ _ s₁ _ _ _ answer answers hfirst hrest =>
          rcases ih hrest with ⟨s₂, middleHash, front, back, hfront, hback, rfl⟩
          refine ⟨s₂, middleHash, answer :: front, back, .cons hfirst hfront, ?_, rfl⟩
          rw [List.length_cons, Nat.add_comm rest.length 1, ← Nat.add_assoc]
          exact hback

/-- Two rows of one event are the same. -/
theorem Recorded.unique {rows : List AuditEvent} (hrows : rows.Pairwise Apart) {event : EventInput}
    {a b : AuditEvent} (ha : a ∈ rows) (hb : b ∈ rows) (h : Recorded env runId event a)
    (h' : Recorded env runId event b) : a = b := by
  refine eq_of_not_apart hrows ha hb fun hapart => hapart.1 ?_
  exact Option.some.inj (h.eventId.symm.trans h'.eventId)

/-- Events that are stored are answered from their rows, and nothing else happens. -/
theorem AppendRun.replayed {i : Nat} {batch : List EventInput} {s s' : AppendSession}
    {previousHash lastHash : Option String} {answers : List AuditEvent}
    (hdistinct : Distinct events) (hbatch : batch ⊆ stored)
    (h : Holds env runId events stored (s.visible committed))
    (happend : AppendRun env m committed principal i batch s previousHash s' lastHash answers) :
    s' = s ∧ lastHash = lastLink AuditEvent.eventHash previousHash answers ∧
      List.Forall₂ (fun event row => Recorded env runId event row ∧ row ∈ s.visible committed)
        batch answers := by
  induction happend with
  | nil => exact ⟨rfl, rfl, .nil⟩
  | @cons i event rest s s₁ s' previousHash lastHash answer answers hfirst hrest ih =>
      rcases List.cons_subset.1 hbatch with ⟨hevent, hrestBatch⟩
      have hfound := (h.findByKey_isSome_iff hdistinct (h.subset hevent)).2
        (List.mem_map_of_mem hevent)
      cases hfirst with
      | replayed hfind =>
          rcases ih hrestBatch h with ⟨rfl, hlast, hrecorded⟩
          refine ⟨rfl, hlast, .cons ?_ hrecorded⟩
          -- the row that was found is the one of this event
          rcases findByKey_eq_some hfind with ⟨hrow, hkey⟩
          have hown : some answer.eventId ∈ events.map EventInput.eventId :=
            (h.others answer hrow).resolve_right fun hother =>
              hother (hkey.2 ▸ List.mem_map_of_mem (h.subset hevent))
          rcases h.exists_stored hrow hown with ⟨x, hx, hrecorded⟩
          have hsame : x = event := by
            refine List.inj_on_of_nodup_map hdistinct.keys (h.subset hx) (h.subset hevent) ?_
            rw [hkey.2, hrecorded.idempotencyKey]
          exact ⟨hsame ▸ hrecorded, hrow⟩
      | recovered hnone => simp [hnone] at hfound
      | stored hnone => simp [hnone] at hfound

/-- Events that are not stored repeat nothing. -/
theorem Holds.freshFrom {rows : List AuditEvent} (h : Holds env runId events stored rows)
    (hdistinct : Distinct events) {earlier batch : List EventInput} (i : Nat)
    (hbatch : batch ⊆ events)
    (hnew : ∀ event ∈ batch, event.idempotencyKey ∉ stored.map EventInput.idempotencyKey)
    (hnodup : ((earlier ++ batch).map EventInput.idempotencyKey).Nodup) :
    FreshFrom m rows earlier i batch := by
  induction batch generalizing earlier i with
  | nil => trivial
  | cons event rest ih =>
      rcases List.cons_subset.1 hbatch with ⟨hevent, hrest⟩
      refine ⟨?_, ih _ hrest (fun e he => hnew e (List.mem_cons_of_mem _ he)) ?_⟩
      · rintro (⟨row, hrow, hid | hkey⟩ | ⟨ev, hev, hkey⟩)
        · refine h.eventId_ne hdistinct hevent (hnew event List.mem_cons_self) hrow ?_
          rw [(hdistinct.named event hevent).resolvedEventId m i, hid]
        · exact h.not_sameKey hdistinct hevent (hnew event List.mem_cons_self) hrow hkey
        · rw [List.map_append, List.nodup_append] at hnodup
          refine hnodup.2.2 _ (List.mem_map_of_mem hev) _ (List.mem_map_of_mem List.mem_cons_self) ?_
          exact hkey.2.symm
      · rw [List.append_assoc]
        exact hnodup

/-- A batch of stored events, up to the last row of the run, and new ones continues the chain. -/
theorem Appended.continuous {db db' : Database} {front dups fresh : List EventInput}
    {ids : List String} (hdb : Sound db) (hdistinct : Distinct events)
    (h : Holds env runId events (front ++ dups) db.auditEvents)
    (hall : rowsOf events (runEvents db runId) = runEvents db runId)
    (hfresh : fresh ⊆ events)
    (hnew : ∀ event ∈ fresh,
      event.idempotencyKey ∉ (front ++ dups).map EventInput.idempotencyKey)
    (hnodup : (fresh.map EventInput.idempotencyKey).Nodup) (hcontinuous : Continuous db runId)
    (happend : Appended env m db principal runId (dups ++ fresh) db' ids) :
    Continuous db' runId := by
  have hdb' := sound_of_changes hdb (changes_of_change (happend.change hdb))
  generalize hbatch : dups ++ fresh = batch at happend
  cases happend with
  | empty => exact hcontinuous
  | @batch _ run s lastHash answers hrun horg hproject hne hanswers =>
      obtain rfl := hdb.runKey hrun
      have hs := hanswers.sessionInv hdb hrun (sessionInv_load hdb principal run)
      have hstart : AppendSession.visible { loaded := run, run := run } db = db.auditEvents :=
        List.append_nil _
      rw [← hbatch] at hanswers
      rcases hanswers.split with ⟨s₁, middleHash, old, rows, hold, hrows, rfl⟩
      rcases hold.replayed hdistinct (List.subset_append_right front dups) (hstart ▸ h) with
        ⟨rfl, hmiddle, hrecorded⟩
      rcases hrows.stored_of_fresh [] (fun _ he => absurd he List.not_mem_nil)
        (h.freshFrom hdistinct _ hfresh hnew hnodup) with ⟨hflushed, hlinked, hlast⟩
      -- the answers to the stored events are the last rows of the run
      have hall' := (h.rowsOf_runEvents hdb).symm.trans hall
      have hend : old = (runEvents db run.runId).drop front.length := by
        have hrow := List.forall₂_drop front.length h.recorded
        rw [List.drop_left, hall'] at hrow
        have hmem : ∀ row ∈ (runEvents db run.runId).drop front.length, row ∈ db.auditEvents :=
          fun row hrow => (List.mem_filter.1 (hall' ▸ List.mem_of_mem_drop hrow)).1
        have hunique : Relator.RightUnique fun (event : EventInput) (row : AuditEvent) =>
            Recorded env run.runId event row ∧ row ∈ db.auditEvents :=
          fun _ _ _ ha hb => ha.1.unique hdb.distinct ha.2 hb.2 hb.1
        rw [hstart] at hrecorded
        refine List.right_unique_forall₂' hunique hrecorded (List.forall₂_iff_get.2 ⟨hrow.length_eq, ?_⟩)
        exact fun n hn hn' => ⟨(List.forall₂_iff_get.1 hrow).2 n hn hn', hmem _ (List.get_mem _ _)⟩
      have hevents := List.take_append_drop front.length (runEvents db run.runId)
      rw [← hend] at hevents
      have hhead : middleHash = lastLink AuditEvent.eventHash none (runEvents db run.runId) := by
        have hprevious := hcontinuous.head
        rw [headHash, hrun, Option.bind_some] at hprevious
        rw [hmiddle, hprevious, ← hevents, lastLink_again]
      rw [hs.commit_eq hrun] at hdb' ⊢
      have hafter := runEvents_append hdb hs hdb' rfl run.runId
      have hflushed' : s.flushed = rows := hflushed.trans (List.nil_append rows)
      rw [if_pos rfl] at hafter
      refine ⟨?_, ?_⟩
      · rw [hafter, hflushed', linked_append, ← hhead]
        exact ⟨hcontinuous.linked, hlinked⟩
      · rw [hafter, hflushed', lastLink_append, ← hhead, ← hlast, headHash, SortedMap.get_put,
          if_pos rfl]
        rfl

end Chains

/-! ## Rows are only added -/

section Added

variable {env : Env} {principal : Principal} {db db' : Database}

theorem Change.rows (h : Change env principal db db') : db.auditEvents <+: db'.auditEvents := by
  cases h with
  | quiet h => cases h <;> exact List.prefix_rfl
  | append => exact List.prefix_append _ _

theorem rows_of_changes (h : Relation.ReflTransGen (Change env principal) db db') :
    db.auditEvents <+: db'.auditEvents := by
  induction h with
  | refl => exact List.prefix_rfl
  | tail _ hchange ih => exact ih.trans hchange.rows

/-- Whatever happens at the server, the rows of events stay and new ones come last. -/
theorem server_rows {opens : String → Bool} {sv : Server} (hdb : Sound sv.store.db)
    (step : ServerStep) :
    sv.store.db.auditEvents <+: (step.run env opens sv).store.db.auditEvents := by
  cases step with
  | start s => exact List.prefix_rfl
  | edit accounts => exact List.prefix_rfl
  | serve req =>
      rcases serve_cases env opens sv req with hsame | ⟨row, call, _, _, heq⟩
      · rw [ServerStep.run, hsame]
      · rw [ServerStep.run, heq]
        dsimp only
        rcases archive_db env opens sv.store ⟨req.moment, row.tenant, call⟩ with hsame | hrun
        · rw [hsame]
        · rw [hrun]
          exact rows_of_changes (Request.run_changes hdb _)

end Added

end Collector
end ControlDB
