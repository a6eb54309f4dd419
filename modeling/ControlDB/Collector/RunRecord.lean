import ControlDB.Collector.RunInvariant
import ControlDB.Library.LastWrite

/-!
# The run record in the collector

What `append_events` leaves of the record of its run when it stores every event of the batch, and
when it does: `newRow` has nothing to raise, and the rows keep the two unique columns.
-/

namespace ControlDB
namespace Collector

open Library Python

/-! ## The status of a run -/

/-- The status that an event of a type gives the run. -/
def collectorStatus (eventType : String) : Option String :=
  if eventType = "agent_run.started" then some "running"
  else if eventType = "agent_run.requires_approval" then some "requires_approval"
  else if eventType = "agent_run.committed" then some "committed"
  else if eventType = "agent_run.rolled_back" then some "rolled_back"
  else if eventType = "agent_run.failed" then some "failed"
  else none

/-- The types that end the run. -/
def collectorEnds (eventType : String) : Bool :=
  decide (eventType = "agent_run.committed" ∨ eventType = "agent_run.rolled_back" ∨
    eventType = "agent_run.failed")

theorem updateStatus_status (run : AgentRun) (row : AuditEvent) :
    (updateStatus run row).status = (collectorStatus row.eventType).getD run.status := by
  unfold updateStatus collectorStatus
  split_ifs <;> rfl

theorem updateStatus_ended (run : AgentRun) (row : AuditEvent) :
    (updateStatus run row).endedAt.isSome =
      (run.endedAt.isSome || collectorEnds row.eventType) := by
  unfold updateStatus
  split_ifs with hstarted happroval hcommitted hrolled hfailed <;>
    simp [collectorEnds, *]

section Batch

variable {env : Env} {m : Moment} {committed : Database} {principal : Principal} {i : Nat}
  {events : List EventInput} {s s' : AppendSession} {previousHash lastHash : Option String}
  {answers : List AuditEvent}

/-- If every answer flushed a row, every event has counted for the status. -/
theorem AppendRun.lifecycle
    (h : AppendRun env m committed principal i events s previousHash s' lastHash answers)
    (hlength : s'.flushed.length = s.flushed.length + events.length) :
    s'.run.status = lastSet collectorStatus s.run.status (events.map EventInput.eventType) ∧
      s'.run.endedAt.isSome =
        (s.run.endedAt.isSome || events.any fun event => collectorEnds event.eventType) := by
  induction h with
  | nil => simp
  | @cons i event rest s s₁ s' previousHash lastHash answer answers hfirst hrest ih =>
      have hle := hrest.length_flushed_le
      rw [List.length_cons] at hlength
      cases hfirst with
      | replayed hfind => omega
      | recovered hnone hrow hclash hfind hrun =>
          rw [List.length_nil] at hle
          omega
      | stored hnone hrow hfree =>
          have htype := (newRow_spec hrow).eventType
          rcases ih (by rw [List.length_append, List.length_singleton]; omega) with ⟨hstatus, hended⟩
          constructor
          · rw [hstatus, List.map_cons, lastSet_cons, updateStatus_status, htype]
          · rw [hended, updateStatus_ended, htype, List.any_cons, Bool.or_assoc]

end Batch

/-! ## Rows that can be built -/

/-- What `newRow` turns to text or binds has a text. -/
structure Storable (env : Env) (run : AgentRun) (event : EventInput) : Prop where
  payload : encodable (redactedPayload env event) = true
  actor : encodableMembers (actorOf run event) = true
  actorType : (env.bindString (PyJson.get (actorOf run event) "type")).isSome = true
  actorId : (env.bindString (PyJson.get (actorOf run event) "id")).isSome = true

theorem actorOf_congr {run run' : AgentRun} (h : run'.agentId = run.agentId) (event : EventInput) :
    actorOf run' event = actorOf run event := by
  unfold actorOf
  rw [h]

theorem Storable.congr {env : Env} {run run' : AgentRun} {event : EventInput}
    (h : Storable env run event) (hagent : run'.agentId = run.agentId) : Storable env run' event := by
  have hactor := actorOf_congr hagent event
  exact ⟨h.payload, hactor ▸ h.actor, hactor ▸ h.actorType, hactor ▸ h.actorId⟩

theorem payloadHashOf_ok {env : Env} {event : EventInput}
    (h : encodable (redactedPayload env event) = true) :
    ∃ payloadHash, payloadHashOf env event = .ok payloadHash := by
  unfold payloadHashOf
  cases truthy event.payloadHash with
  | some hash => exact ⟨_, rfl⟩
  | none =>
      dsimp only
      split_ifs with hnone
      · exact ⟨_, rfl⟩
      · simp [Python.computePayloadHash, canonicalJson, hnone, h]

theorem computeEventHash_isSome (sha256 : Sha256) {e : Envelope}
    (hactor : encodableMembers e.actor = true) (hpayload : encodable e.payload = true) :
    ∃ hash, Python.computeEventHash sha256 e.members = some hash := by
  simp [Python.computeEventHash, canonicalJson, Envelope.members, encodable, encodableMembers,
    hactor, hpayload]

theorem newRow_ok {env : Env} {run : AgentRun} {event : EventInput} (h : Storable env run event)
    (m : Moment) (i sequence : Nat) (principal : Principal) (previousHash : Option String) :
    ∃ row, newRow env m i sequence principal run event previousHash = .ok row := by
  rcases payloadHashOf_ok h.payload with ⟨payloadHash, hpayload⟩
  rcases Option.isSome_iff_exists.1 h.actorType with ⟨actorType, htype⟩
  rcases Option.isSome_iff_exists.1 h.actorId with ⟨actorId, hid⟩
  generalize hbuilt : newEnvelope env m i principal run event previousHash payloadHash = envelope
  have hactor : envelope.actor = actorOf run event := hbuilt ▸ rfl
  have hredacted : envelope.payload = redactedPayload env event := hbuilt ▸ rfl
  rcases computeEventHash_isSome env.sha256 (hactor ▸ h.actor) (hredacted ▸ h.payload) with
    ⟨hash, hhash⟩
  simp only [newRow, hpayload, hbuilt, hhash, hactor, htype, hid]
  exact ⟨_, rfl⟩

/-! ## Batches that are stored -/

/-- The values of a row in the two unique columns. -/
def uniqueColumns (e : AuditEvent) : String × Option String :=
  (e.eventId, e.idempotencyKey)

/-- Two rows with these values can both be stored; a `NULL` key clashes with nothing. -/
def ApartColumns (p q : String × Option String) : Prop :=
  p.1 ≠ q.1 ∧ (q.2.isSome = true → p.2 ≠ q.2)

/-- The values that the rows of a batch would have. -/
def submitted (m : Moment) : Nat → List EventInput → List (String × Option String)
  | _, [] => []
  | i, event :: rest =>
      (resolvedEventId m i event, event.idempotencyKey) :: submitted m (i + 1) rest

theorem findByKey_none_of {rows : List AuditEvent} {key : Option String}
    (h : ∀ e ∈ rows, ¬ SameKey key e.idempotencyKey) : findByKey rows key = none := by
  cases hfind : findByKey rows key with
  | none => rfl
  | some e =>
      rcases findByKey_eq_some hfind with ⟨he, hkey⟩
      exact absurd hkey (h e he)

theorem SameKey.isSome {key key' : Option String} (h : SameKey key key') : key.isSome = true := by
  cases key with
  | none => exact absurd h.1 (by simp [truthy])
  | some k => rfl

/-- Rows that are apart from an event's values leave it to be stored. -/
theorem persistEvent_stores {env : Env} {m : Moment} {i : Nat} {committed : Database}
    {s : AppendSession} {event : EventInput} (htype : event.eventType ∈ eventTypes)
    (hstorable : Storable env s.run event)
    (hapart : ∀ e ∈ s.visible committed,
      ApartColumns (uniqueColumns e) (resolvedEventId m i event, event.idempotencyKey))
    (sequence : Nat) (principal : Principal) (previousHash : Option String) :
    ∃ row, RowOf m i sequence principal s.run event previousHash row ∧
      persistEvent env m i committed sequence principal s event previousHash =
        .ok ({ s with run := updateStatus s.run row, flushed := s.flushed ++ [row] },
          row.eventId, row.eventHash) := by
  rcases newRow_ok hstorable m i sequence principal previousHash with ⟨row, hrow⟩
  have hspec := newRow_spec hrow
  have hunknown : findByKey (s.visible committed) event.idempotencyKey = none := by
    refine findByKey_none_of fun e he hkey => ?_
    exact (hapart e he).2 hkey.isSome hkey.2.symm
  have hfree : ¬ Clashes (s.visible committed) row := by
    rintro ⟨e, he, hid | ⟨hkey, hsome⟩⟩
    · exact (hapart e he).1 (hid.trans hspec.eventId)
    · rw [hspec.idempotencyKey] at hkey hsome
      exact (hapart e he).2 hsome hkey
  refine ⟨row, hspec, ?_⟩
  unfold persistEvent
  rw [if_neg (not_not.2 htype), hunknown]
  simp only [hrow, Bind.bind, Except.bind, if_neg hfree]
  rfl

theorem appendLoop_stores {env : Env} {m : Moment} {committed : Database} {principal : Principal}
    {i : Nat} {events : List EventInput} {s : AppendSession} {previousHash : Option String}
    (htypes : ∀ event ∈ events, event.eventType ∈ eventTypes)
    (hstorable : ∀ event ∈ events, Storable env s.run event)
    (hapart : ((s.visible committed).map uniqueColumns ++ submitted m i events).Pairwise
      ApartColumns) :
    ∃ s' lastHash ids,
      appendLoop env m committed principal i events s previousHash = .ok (s', lastHash, ids) ∧
        s'.flushed.length = s.flushed.length + events.length := by
  induction events generalizing i s previousHash with
  | nil => exact ⟨s, previousHash, [], rfl, rfl⟩
  | cons event rest ih =>
      have hfirst : ∀ e ∈ s.visible committed,
          ApartColumns (uniqueColumns e) (resolvedEventId m i event, event.idempotencyKey) := by
        intro e he
        exact (List.pairwise_append.1 hapart).2.2 _ (List.mem_map_of_mem he) _ List.mem_cons_self
      rcases persistEvent_stores (htypes event List.mem_cons_self)
        (hstorable event List.mem_cons_self) hfirst (nextSequence (m.skipped i) (s.visible committed))
        principal previousHash with ⟨row, hspec, hpersist⟩
      generalize hnext : { s with
        run := updateStatus s.run row, flushed := s.flushed ++ [row] : AppendSession } = s₁ at hpersist
      have hagent : s₁.run.agentId = s.run.agentId := by
        rw [← hnext, updateStatus_same]
      -- the row has the values of the event
      have hcolumns : (s₁.visible committed).map uniqueColumns =
          (s.visible committed).map uniqueColumns ++
            [(resolvedEventId m i event, event.idempotencyKey)] := by
        have hrow : uniqueColumns row = (resolvedEventId m i event, event.idempotencyKey) :=
          Prod.ext hspec.eventId hspec.idempotencyKey
        simp [← hnext, AppendSession.visible, hrow]
      have hrest := @ih (i + 1) s₁ (some row.eventHash)
        (fun event' h' => htypes event' (List.mem_cons_of_mem _ h'))
        (fun event' h' => (hstorable event' (List.mem_cons_of_mem _ h')).congr hagent)
        (by rwa [hcolumns, List.append_assoc, List.singleton_append])
      rcases hrest with ⟨s', lastHash, ids, hloop, hlength⟩
      refine ⟨s', lastHash, row.eventId :: ids, ?_, ?_⟩
      · simp only [appendLoop, hpersist, Bind.bind, Except.bind, hloop]
        rfl
      · rw [hlength, ← hnext, List.length_append, List.length_singleton, List.length_cons]
        omega

/-- If every answer flushed a row, the rows have the values of the batch. -/
theorem AppendRun.columns {env : Env} {m : Moment} {committed : Database} {principal : Principal}
    {i : Nat} {events : List EventInput} {s s' : AppendSession}
    {previousHash lastHash : Option String} {answers : List AuditEvent}
    (h : AppendRun env m committed principal i events s previousHash s' lastHash answers)
    (hlength : s'.flushed.length = s.flushed.length + events.length) :
    (s'.visible committed).map uniqueColumns =
      (s.visible committed).map uniqueColumns ++ submitted m i events := by
  induction h with
  | nil => simp [submitted]
  | @cons i event rest s s₁ s' previousHash lastHash answer answers hfirst hrest ih =>
      have hle := hrest.length_flushed_le
      rw [List.length_cons] at hlength
      cases hfirst with
      | replayed hfind => omega
      | recovered hnone hrow hclash hfind hrun =>
          rw [List.length_nil] at hle
          omega
      | stored hnone hrow hfree =>
          have hspec := newRow_spec hrow
          have hcolumns : uniqueColumns answer = (resolvedEventId m i event, event.idempotencyKey) :=
            Prod.ext hspec.eventId hspec.idempotencyKey
          rw [ih (by rw [List.length_append, List.length_singleton]; omega)]
          simp [AppendSession.visible, submitted, hcolumns]

/-- What a call of `append_events` leaves when it stores the whole batch. -/
structure StoresAll (db db' : Database) (principal : Principal) (run r : AgentRun)
    (events : List EventInput) : Prop where
  stored : db'.agentRuns.get run.runId = some r
  own : r.BelongsTo principal
  status : r.status = lastSet collectorStatus run.status (events.map EventInput.eventType)
  ended : r.endedAt.isSome =
    (run.endedAt.isSome || events.any fun event => collectorEnds event.eventType)
  count : r.eventCount = run.eventCount + events.length
  events : ∃ rows, db'.auditEvents = db.auditEvents ++ rows ∧ rows.length = events.length ∧
    ∀ e ∈ rows, e.runId = run.runId

/-- A batch each of whose events flushed a row is stored whole. -/
theorem AppendRun.storesAll {env : Env} {m : Moment} {db : Database} {principal : Principal}
    {run : AgentRun} {events : List EventInput} {s : AppendSession} {lastHash : Option String}
    {answers : List AuditEvent} (hdb : Sound db) (hrun : db.agentRuns.get run.runId = some run)
    (hown : run.BelongsTo principal)
    (h : AppendRun env m db principal 0 events { loaded := run, run := run } run.lastEventHash
      s lastHash answers)
    (hlength : s.flushed.length = events.length) :
    StoresAll db ((s.finish lastHash answers.length).commit db) principal run
      (s.finalRun run lastHash answers.length) events := by
  have hs := h.sessionInv hdb hrun (sessionInv_load hdb principal run)
  have hwhole : s.flushed.length = ([] : List AuditEvent).length + events.length := by
    rw [hlength, List.length_nil, Nat.zero_add]
  rcases h.lifecycle hwhole with ⟨hstatus, hended⟩
  have hcount : (s.finalRun run lastHash answers.length).eventCount =
      run.eventCount + events.length := by
    rw [← h.length]
    rfl
  rw [hs.commit_eq hrun]
  exact ⟨SortedMap.get_put_self _ _ _, hown, hstatus, hended, hcount, s.flushed, rfl, hlength,
    fun e he => (hs.own e he).1⟩

/-- An empty batch is stored whole by leaving everything as it is. -/
theorem storesAll_nil {db : Database} {principal : Principal} {run : AgentRun}
    (hrun : db.agentRuns.get run.runId = some run) (hown : run.BelongsTo principal) :
    StoresAll db db principal run run [] :=
  ⟨hrun, hown, rfl, by simp, rfl, [], by simp⟩

theorem visible_load (db : Database) (run : AgentRun) :
    (AppendSession.mk run run []).visible db = db.auditEvents := by
  simp [AppendSession.visible]

/-- A batch of known types whose rows can be built and keep the unique columns is stored whole. -/
theorem appendEvents_storesAll {env : Env} {m : Moment} {db : Database} {principal : Principal}
    {runId : String} {run : AgentRun} {events : List EventInput} (hdb : Sound db)
    (hrun : db.agentRuns.get runId = some run) (hown : run.BelongsTo principal)
    (htypes : ∀ event ∈ events, event.eventType ∈ eventTypes)
    (hstorable : ∀ event ∈ events, Storable env run event)
    (hapart : (db.auditEvents.map uniqueColumns ++ submitted m 0 events).Pairwise ApartColumns) :
    ∃ db' ids r, appendEvents env m db principal runId events = .ok (db', ids) ∧
      StoresAll db db' principal run r events := by
  obtain rfl := hdb.runKey hrun
  cases events with
  | nil => exact ⟨db, [], run, rfl, storesAll_nil hrun hown⟩
  | cons event rest =>
      generalize hevents : event :: rest = events at htypes hstorable hapart ⊢
      rcases @appendLoop_stores env m db principal 0 events { loaded := run, run := run }
        run.lastEventHash htypes hstorable (by rwa [visible_load]) with
        ⟨s, lastHash, ids, hloop, hlength⟩
      rcases appendRun_of_ok hloop with ⟨answers, hanswers, rfl⟩
      refine ⟨(s.finish lastHash answers.length).commit db, answers.map AuditEvent.eventId,
        s.finalRun run lastHash answers.length, ?_, hanswers.storesAll hdb hrun hown ?_⟩
      · have hne : events.isEmpty = false := by rw [← hevents]; rfl
        have hauth : authorizeRun db principal run.runId = .ok run := by
          simp [authorizeRun, hrun, hown.1, hown.2]
        simp [appendEvents, hne, hauth, hloop, Bind.bind, Except.bind, pure, Except.pure]
      · simpa using hlength

/-- A batch that returns counts whole; if it was stored whole too, its rows keep the unique columns
and every event has counted for the status. -/
theorem storesAll_of_length {env : Env} {m : Moment} {db db' : Database} {principal : Principal}
    {runId : String} {run : AgentRun} {events : List EventInput} {ids : List String}
    (hdb : Sound db) (hrun : db.agentRuns.get runId = some run) (hown : run.BelongsTo principal)
    (hout : appendEvents env m db principal runId events = .ok (db', ids)) :
    ∃ r rows, db'.agentRuns.get runId = some r ∧ r.eventCount = run.eventCount + events.length ∧
      db'.auditEvents = db.auditEvents ++ rows ∧ (∀ e ∈ rows, e.runId = runId) ∧
      (rows.length = events.length → StoresAll db db' principal run r events ∧
        (db.auditEvents.map uniqueColumns ++ submitted m 0 events).Pairwise ApartColumns) := by
  obtain rfl := hdb.runKey hrun
  have happended := appended_of_ok hout
  cases happended with
  | empty =>
      refine ⟨run, [], hrun, by simp, by simp, by simp, fun _ => ⟨storesAll_nil hrun hown, ?_⟩⟩
      rw [submitted, List.append_nil]
      exact List.pairwise_map.2 hdb.distinct
  | @batch _ run' s lastHash answers hrun' horg hproject hne hanswers =>
      obtain rfl : run = run' := Option.some.inj (hrun.symm.trans hrun')
      have hs := hanswers.sessionInv hdb hrun (sessionInv_load hdb principal run)
      have hcommit := hs.commit_eq hrun lastHash answers.length
      refine ⟨s.finalRun run lastHash answers.length, s.flushed, ?_, ?_, ?_,
        fun e he => (hs.own e he).1,
        fun hlength => ⟨hanswers.storesAll hdb hrun hown hlength, ?_⟩⟩
      · rw [hcommit]
        exact SortedMap.get_put_self _ _ _
      · rw [← hanswers.length]
        rfl
      · rw [hcommit]
      · have hcolumns := hanswers.columns (by simpa using hlength)
        rw [visible_load] at hcolumns
        rw [← hcolumns]
        exact List.pairwise_map.2 hs.distinct

end Collector
end ControlDB
