import ControlDB.Core.RunRecord
import ControlDB.Collector.EngineParity
import ControlDB.Collector.RunRecord
import ControlDB.Library.Runs

/-!
# One run in both engines

The same calls on one run go to the C++ engine and to the collector.  The collector counts every
event of a batch, stores one for each key and knows five types that set the status; the engine
counts and stores what it does not find under its key, and sets the status by three types, for
duplicates too.  `Agreeable` says which calls this leaves no trace of.
-/

namespace ControlDB
namespace Collector

open Library Python

/-! ## What is compared -/

/-- The run as a caller sees it: whether `ended_at` is set, and how many events are stored. -/
structure RunRecord where
  status : Bytes
  ended : Bool
  eventCount : Int
  stored : Nat
  deriving DecidableEq

def engineRecord (s : Store) (runId : String) : Option RunRecord :=
  (storedRun s.rocks (utf8 runId)).map fun (r : ControlDB.AgentRun) =>
    { status := r.status
      ended := decide (r.endedAtMs ≠ 0)
      eventCount := r.eventCount
      stored := (ControlDB.runEvents s.rocks (utf8 runId)).length }

def collectorRecord (db : Database) (runId : String) : Option RunRecord :=
  (db.agentRuns.get runId).map fun r =>
    { status := utf8 r.status
      ended := r.endedAt.isSome
      eventCount := r.eventCount
      stored := (runEvents db runId).length }

/-! ## Calls -/

/-- The run that all calls are about, and who makes them. -/
structure RunKey where
  runId : String
  principal : Principal
  named : runId ≠ ""

/-- A start as both get it: the engine's record says which run it is, and leaves to the engine what
the collector's caller cannot set. -/
structure Opening (key : RunKey) where
  engine : ControlDB.AgentRun
  agentId : String
  agentVersion : Option String
  environment : String
  metadata : List (String × PyJson)
  runId : engine.runId = utf8 key.runId
  orgId : engine.orgId = utf8 key.principal.orgId
  projectId : engine.projectId = utf8 key.principal.projectId
  status : engine.status = [] ∨ engine.status = bytes "running"
  endedAtMs : engine.endedAtMs = 0
  eventCount : engine.eventCount = 0

/-- An event of a known type as both get it. -/
structure Submission where
  engine : ControlDB.AuditEvent
  collector : EventInput
  eventId : engine.eventId = utf8OrEmpty collector.eventId
  eventType : engine.eventType = utf8 collector.eventType
  idempotencyKey : engine.idempotencyKey = utf8OrEmpty collector.idempotencyKey
  known : collector.eventType ∈ eventTypes

/-- The event types of a batch. -/
def types (batch : List Submission) : List String :=
  batch.map fun sub => sub.collector.eventType

inductive RunCall (key : RunKey)
  | start (opening : Opening key)
  | append (batch : List Submission)
  | commit
  | rollback (reason : Option String)

namespace RunCall

variable {key : RunKey}

def toEngine : RunCall key → ControlDB.Call
  | start opening => .startRun opening.engine
  | append batch =>
      .appendEvents (utf8 key.runId) (utf8 key.principal.orgId) (utf8 key.principal.projectId)
        (batch.map Submission.engine)
  | commit =>
      .commitRun (utf8 key.runId) (utf8 key.principal.orgId) (utf8 key.principal.projectId)
  | rollback reason =>
      .rollbackRun (utf8 key.runId) (utf8 key.principal.orgId) (utf8 key.principal.projectId)
        (utf8OrEmpty reason)

def toCollector : RunCall key → Call
  | start opening =>
      .startRun (some key.runId) opening.agentId opening.agentVersion opening.environment
        opening.metadata
  | append batch => .appendEvents key.runId (batch.map Submission.collector)
  | commit => .commitRun key.runId
  | rollback reason => .rollbackRun key.runId reason

end RunCall

/-- A call with what the two find around it.  The engine's clock has left zero, which is how it
writes that a run has not ended. -/
structure Turn (key : RunKey) where
  now : Nat → Int
  moment : Moment
  call : RunCall key
  running : ∀ i, now i ≠ 0

structure Engines where
  engine : Store := {}
  collector : Database := {}

/-- The call is made to both. -/
def Engines.step (env : ControlDB.Env) (cenv : Env) {key : RunKey} (s : Engines) (t : Turn key) :
    Engines where
  engine := (Action.call t.now t.call.toEngine).run env s.engine
  collector := (Request.mk t.moment key.principal t.call.toCollector).run cenv s.collector

def Engines.Agree (key : RunKey) (s : Engines) : Prop :=
  engineRecord s.engine key.runId = collectorRecord s.collector key.runId

/-! ## Which calls keep the agreement -/

/-- The types for which the engine sets the status too. -/
def sharedTypes : List String :=
  ["agent_run.started", "agent_run.committed", "agent_run.failed"]

/-- The engine's table as a part of the collector's. -/
def sharedStatus (eventType : String) : Option String :=
  if eventType ∈ sharedTypes then collectorStatus eventType else none

/-- What a batch must be like for the two, where `run` is the collector's record of the run. -/
structure BatchAligned (cenv : Env) (s : Engines) (m : Moment) (run : AgentRun)
    (batch : List Submission) : Prop where
  /-- both can write the events down -/
  texts : ∀ sub ∈ batch, sub.engine.SentUtf8
  storable : ∀ sub ∈ batch, Storable cenv run sub.collector
  /-- the engine has no record under a key of the batch -/
  unseen : ∀ sub ∈ batch, ¬ isDuplicate s.engine.rocks sub.engine
  /-- no row of the collector, and no two events of the batch, have an id or a key in common -/
  apart : (s.collector.auditEvents.map uniqueColumns ++
    submitted m 0 (batch.map Submission.collector)).Pairwise ApartColumns
  /-- the last event that sets the status in the collector sets it in the engine too, or the
  status stays what it was -/
  status : SameDecider sharedStatus collectorStatus run.status (types batch)
  /-- a rollback does not come as an event, unless the run has ended or ends otherwise -/
  ended : "agent_run.rolled_back" ∈ types batch →
    run.endedAt.isSome = true ∨ "agent_run.committed" ∈ types batch ∨
      "agent_run.failed" ∈ types batch

/-- The condition on a call, in the state before it. -/
def Agreeable (env : ControlDB.Env) (cenv : Env) {key : RunKey} (s : Engines) (t : Turn key) :
    Prop :=
  match t.call with
  | .start opening =>
      s.collector.agentRuns.get key.runId = none → opening.agentId ≠ "" ∧ opening.engine.Utf8
  | .append batch =>
      ∀ run, s.collector.agentRuns.get key.runId = some run →
        BatchAligned cenv s t.moment run batch
  | .commit => True
  | .rollback reason =>
      utf8OrEmpty reason ≠ [] → ∀ run, storedRun s.engine.rocks (utf8 key.runId) = some run →
        MetadataReadable env run.metadataJson

/-! ## The two tables -/

theorem utf8_injective : Function.Injective utf8 := fun _ _ h =>
  String.toList_injective (encodeUtf8_injective h)

theorem isUtf8_utf8 (s : String) : IsUtf8 (utf8 s) :=
  ⟨s.toList, rfl⟩

theorem isUtf8_utf8OrEmpty (s : Option String) : IsUtf8 (utf8OrEmpty s) := by
  cases s with
  | none => exact isUtf8_nil
  | some s => exact isUtf8_utf8 s

theorem namedStatus_utf8 (eventType : String) :
    namedStatus (utf8 eventType) = (sharedStatus eventType).map utf8 := by
  have hcommitted : bytes "agent_run.committed" = utf8 "agent_run.committed" := by decide
  have hfailed : bytes "agent_run.failed" = utf8 "agent_run.failed" := by decide
  have hstarted : bytes "agent_run.started" = utf8 "agent_run.started" := by decide
  unfold namedStatus
  simp only [hcommitted, hfailed, hstarted, utf8_injective.eq_iff]
  by_cases hshared : eventType ∈ sharedTypes
  · simp only [sharedTypes, List.mem_cons, List.not_mem_nil, or_false] at hshared
    rcases hshared with rfl | rfl | rfl <;> decide
  · rw [sharedStatus, if_neg hshared]
    simp only [sharedTypes, List.mem_cons, List.not_mem_nil, or_false, not_or] at hshared
    simp [hshared]

theorem endsRun_utf8 (eventType : String) : EndsRun (utf8 eventType) ↔
    eventType = "agent_run.committed" ∨ eventType = "agent_run.failed" := by
  have hcommitted : bytes "agent_run.committed" = utf8 "agent_run.committed" := by decide
  have hfailed : bytes "agent_run.failed" = utf8 "agent_run.failed" := by decide
  simp only [EndsRun, hcommitted, hfailed, utf8_injective.eq_iff]

theorem sharedStatus_partOf : PartOf sharedStatus collectorStatus := by
  intro eventType status h
  unfold sharedStatus at h
  split_ifs at h
  exact h

/-- The collector gives no status for two types. -/
theorem collectorStatus_injective (a b status : String) (ha : collectorStatus a = some status)
    (hb : collectorStatus b = some status) : a = b := by
  have hentry : ∀ {eventType}, collectorStatus eventType = some status →
      (eventType, status) ∈ [("agent_run.started", "running"),
        ("agent_run.requires_approval", "requires_approval"), ("agent_run.committed", "committed"),
        ("agent_run.rolled_back", "rolled_back"), ("agent_run.failed", "failed")] := by
    intro eventType h
    unfold collectorStatus at h
    split_ifs at h with hstarted happroval hcommitted hrolled hfailed <;> cases h <;> simp [*]
  have hpair := hentry ha
  have hpair' := hentry hb
  simp only [List.mem_cons, Prod.mk.injEq, List.not_mem_nil, or_false] at hpair hpair'
  rcases hpair with ⟨rfl, rfl⟩ | ⟨rfl, rfl⟩ | ⟨rfl, rfl⟩ | ⟨rfl, rfl⟩ | ⟨rfl, rfl⟩ <;>
    simpa [eq_comm] using hpair'

/-- Which batches leave the same status in both. -/
theorem status_eq_iff (status : String) (types : List String) :
    lastSet namedStatus (utf8 status) (types.map utf8) =
        utf8 (lastSet collectorStatus status types) ↔
      SameDecider sharedStatus collectorStatus status types := by
  rw [lastSet_map sharedStatus namedStatus utf8 utf8 namedStatus_utf8, utf8_injective.eq_iff]
  exact lastSet_eq_iff sharedStatus_partOf collectorStatus_injective status types

theorem engine_types (batch : List Submission) :
    (batch.map Submission.engine).map ControlDB.AuditEvent.eventType = (types batch).map utf8 := by
  simp [types, Submission.eventType]

theorem collector_types (batch : List Submission) :
    (batch.map Submission.collector).map EventInput.eventType = types batch := by
  simp [types]

theorem engine_ends (batch : List Submission) :
    (∃ ev ∈ batch.map Submission.engine, EndsRun ev.eventType) ↔
      "agent_run.committed" ∈ types batch ∨ "agent_run.failed" ∈ types batch := by
  have hends : ∀ sub : Submission, EndsRun sub.engine.eventType ↔
      sub.collector.eventType = "agent_run.committed" ∨
        sub.collector.eventType = "agent_run.failed" := by
    intro sub
    rw [sub.eventType]
    exact endsRun_utf8 _
  have hbatch : (∃ ev ∈ batch.map Submission.engine, EndsRun ev.eventType) ↔
      ∃ sub ∈ batch, EndsRun sub.engine.eventType := by simp
  rw [hbatch]
  simp only [hends, types, List.mem_map, and_or_left, exists_or]

theorem collector_ends (batch : List Submission) :
    ((batch.map Submission.collector).any fun event => collectorEnds event.eventType) = true ↔
      "agent_run.rolled_back" ∈ types batch ∨ "agent_run.committed" ∈ types batch ∨
        "agent_run.failed" ∈ types batch := by
  simp only [List.any_map, List.any_eq_true, Function.comp_apply, collectorEnds, decide_eq_true_eq,
    types, List.mem_map, and_or_left, exists_or]
  exact or_left_comm

/-! ## The two side by side -/

/-- The records of the run, where both can go on with it. -/
structure SameRecord (key : RunKey) (r : ControlDB.AgentRun) (r' : AgentRun) : Prop where
  status : r.status = utf8 r'.status
  ended : r.endedAtMs ≠ 0 ↔ r'.endedAt.isSome = true
  count : r.eventCount = r'.eventCount
  texts : r.Utf8
  orgId : r.orgId = utf8 key.principal.orgId
  projectId : r.projectId = utf8 key.principal.projectId
  own : r'.BelongsTo key.principal

structure Paired (key : RunKey) (s : Engines) : Prop where
  consistent : Consistent s.engine
  sound : Sound s.collector
  engineOwn : ∀ e ∈ storedEvents s.engine.rocks, e.runId = utf8 key.runId
  collectorOwn : ∀ e ∈ s.collector.auditEvents, e.runId = key.runId
  runs : Option.Rel (SameRecord key) (storedRun s.engine.rocks (utf8 key.runId))
    (s.collector.agentRuns.get key.runId)
  stored : (storedEvents s.engine.rocks).length = s.collector.auditEvents.length

section Paired

variable {env : ControlDB.Env} {cenv : Env} {key : RunKey} {s s' : Engines}

theorem paired_empty (key : RunKey) : Paired key {} where
  consistent := consistent_empty
  sound := sound_empty
  engineOwn := by simp [storedEvents]
  collectorOwn := by simp
  runs := .none
  stored := rfl

/-- Neither has the run, or both have it. -/
theorem Paired.run_cases (h : Paired key s) :
    (storedRun s.engine.rocks (utf8 key.runId) = none ∧
        s.collector.agentRuns.get key.runId = none) ∨
      ∃ r r', storedRun s.engine.rocks (utf8 key.runId) = some r ∧
        s.collector.agentRuns.get key.runId = some r' ∧ SameRecord key r r' := by
  have hruns := h.runs
  generalize storedRun s.engine.rocks (utf8 key.runId) = run at hruns ⊢
  generalize s.collector.agentRuns.get key.runId = run' at hruns ⊢
  cases hruns with
  | none => exact .inl ⟨rfl, rfl⟩
  | some hsame => exact .inr ⟨_, _, rfl, rfl, hsame⟩

/-- The engine's record, where all events are the run's. -/
theorem engineRecord_eq {store : Store} {runId : String}
    (hown : ∀ e ∈ storedEvents store.rocks, e.runId = utf8 runId) :
    engineRecord store runId = (storedRun store.rocks (utf8 runId)).map
      fun (r : ControlDB.AgentRun) =>
        { status := r.status
          ended := decide (r.endedAtMs ≠ 0)
          eventCount := r.eventCount
          stored := (storedEvents store.rocks).length } := by
  have hevents : ControlDB.runEvents store.rocks (utf8 runId) = storedEvents store.rocks :=
    List.filter_eq_self.2 fun e he => decide_eq_true (hown e he)
  simp only [engineRecord, hevents]

theorem collectorRecord_eq {db : Database} {runId : String} (hdb : Sound db)
    (hown : ∀ e ∈ db.auditEvents, e.runId = runId) :
    collectorRecord db runId = (db.agentRuns.get runId).map fun r =>
      { status := utf8 r.status
        ended := r.endedAt.isSome
        eventCount := r.eventCount
        stored := db.auditEvents.length } := by
  have hevents : runEvents db runId = db.auditEvents := by
    rw [hdb.runEvents_eq]
    exact List.filter_eq_self.2 fun e he => decide_eq_true (hown e he)
  simp only [collectorRecord, hevents]

theorem Paired.agree (h : Paired key s) : s.Agree key := by
  unfold Engines.Agree
  rw [engineRecord_eq h.engineOwn, collectorRecord_eq h.sound h.collectorOwn, h.stored]
  rcases h.run_cases with ⟨hnone, hnone'⟩ | ⟨r, r', hrun, hrun', hsame⟩
  · rw [hnone, hnone']
    rfl
  · have hended : decide (r.endedAtMs ≠ 0) = r'.endedAt.isSome := by
      rw [Bool.eq_iff_iff, decide_eq_true_iff]
      exact hsame.ended
    simp only [hrun, hrun', Option.map_some, hended, hsame.status, hsame.count]

theorem Paired.step_consistent (h : Paired key s) (t : Turn key) :
    Consistent (s.step env cenv t).engine :=
  ((Action.call t.now t.call.toEngine).durable env s.engine).consistent h.consistent

theorem Paired.step_sound (h : Paired key s) (t : Turn key) : Sound (s.step env cenv t).collector :=
  sound_of_changes h.sound (Request.run_changes h.sound _)

/-- What the two calls leave, put together. -/
theorem Paired.step_leaves (h : Paired key s) {t : Turn key} {r : ControlDB.AgentRun}
    {r' : AgentRun} {es : List ControlDB.AuditEvent} {rows : List AuditEvent}
    (hengine : Leaves s.engine (s.step env cenv t).engine (utf8 key.runId) r es)
    (hrun : (s.step env cenv t).collector.agentRuns.get key.runId = some r')
    (hrows : (s.step env cenv t).collector.auditEvents = s.collector.auditEvents ++ rows)
    (hes : ∀ e ∈ es, e.runId = utf8 key.runId) (hown : ∀ e ∈ rows, e.runId = key.runId)
    (hlength : es.length = rows.length) (hsame : SameRecord key r r') :
    Paired key (s.step env cenv t) where
  consistent := h.step_consistent t
  sound := h.step_sound t
  engineOwn := by
    intro e he
    rw [hengine.events] at he
    rcases List.mem_append.1 he with hold | hnew
    · exact h.engineOwn e hold
    · exact hes e hnew
  collectorOwn := by
    intro e he
    rw [hrows] at he
    rcases List.mem_append.1 he with hold | hnew
    · exact h.collectorOwn e hold
    · exact hown e hnew
  runs := by
    rw [hengine.run, hrun]
    exact .some hsame
  stored := by
    rw [hengine.events, hrows, List.length_append, List.length_append, h.stored, hlength]

/-- A call that writes the run alone. -/
theorem Paired.step_put (h : Paired key s) {t : Turn key} {r : ControlDB.AgentRun} {r' : AgentRun}
    (hengine : Leaves s.engine (s.step env cenv t).engine (utf8 key.runId) r [])
    (hcollector : (s.step env cenv t).collector =
      { s.collector with agentRuns := s.collector.agentRuns.put key.runId r' })
    (hsame : SameRecord key r r') : Paired key (s.step env cenv t) := by
  have hrun : (s.step env cenv t).collector.agentRuns.get key.runId = some r' := by
    rw [hcollector]
    exact SortedMap.get_put_self _ _ _
  have hrows : (s.step env cenv t).collector.auditEvents = s.collector.auditEvents ++ [] := by
    rw [hcollector, List.append_nil]
  exact h.step_leaves hengine hrun hrows (fun e he => absurd he List.not_mem_nil)
    (fun e he => absurd he List.not_mem_nil) rfl hsame

/-- Nothing has changed in either. -/
theorem Paired.step_unchanged (h : Paired key s) {t : Turn key}
    (hengine : (s.step env cenv t).engine = s.engine)
    (hcollector : (s.step env cenv t).collector = s.collector) :
    Paired key (s.step env cenv t) := by
  have hsame : s.step env cenv t = s := by
    cases s
    exact congr (congrArg Engines.mk hengine) hcollector
  rw [hsame]
  exact h

/-- A call on a run that neither has. -/
theorem Paired.engine_missing (h : Paired key s) {t : Turn key}
    (hnone : storedRun s.engine.rocks (utf8 key.runId) = none)
    (hcall : ∀ opening, t.call ≠ .start opening) :
    (s.step env cenv t).engine = s.engine := by
  have hget := h.consistent.represents.get_runs_none hnone
  have hfetch : ∀ orgId projectId, ∃ e, fetchRun s.engine.rocks (utf8 key.runId) orgId projectId =
      .error e := by
    intro orgId projectId
    simp [fetchRun, hget]
  rcases hfetch (utf8 key.principal.orgId) (utf8 key.principal.projectId) with ⟨e, hfetch⟩
  cases hturn : t.call with
  | start opening => exact absurd hturn (hcall opening)
  | append batch =>
      simp [Engines.step, hturn, RunCall.toEngine, Action.run, Call.effects, ControlDB.appendEvents,
        hfetch, Outcome.throw, Store.applyAll]
  | commit =>
      simp [Engines.step, hturn, RunCall.toEngine, Action.run, Call.effects, ControlDB.commitRun,
        hfetch, Outcome.throw, Store.applyAll]
  | rollback reason =>
      simp [Engines.step, hturn, RunCall.toEngine, Action.run, Call.effects, ControlDB.rollbackRun,
        hfetch, Outcome.throw, Store.applyAll]

theorem collector_missing {t : Turn key} (hnone : s.collector.agentRuns.get key.runId = none)
    (hcall : ∀ opening, t.call ≠ .start opening) :
    (s.step env cenv t).collector = s.collector := by
  have hauth : ∃ e, authorizeRun s.collector key.principal key.runId = .error e := by
    simp [authorizeRun, hnone]
  rcases hauth with ⟨e, hauth⟩
  cases hturn : t.call with
  | start opening => exact absurd hturn (hcall opening)
  | append batch =>
      cases hempty : (batch.map Submission.collector).isEmpty <;>
        simp [Engines.step, hturn, RunCall.toCollector, Request.run, Request.perform, appendEvents,
          hempty, hauth, Except.map, Bind.bind, Except.bind]
  | commit =>
      simp [Engines.step, hturn, RunCall.toCollector, Request.run, Request.perform, commitRun, hauth,
        Except.map, Bind.bind, Except.bind]
  | rollback reason =>
      simp [Engines.step, hturn, RunCall.toCollector, Request.run, Request.perform, rollbackRun,
        hauth, Except.map, Bind.bind, Except.bind]

theorem SameRecord.fetchRun {r : ControlDB.AgentRun} {r' : AgentRun} (h : SameRecord key r r')
    (hrun : storedRun s.engine.rocks (utf8 key.runId) = some r) :
    ControlDB.fetchRun s.engine.rocks (utf8 key.runId) (utf8 key.principal.orgId)
      (utf8 key.principal.projectId) = .ok r := by
  rw [← h.orgId, ← h.projectId]
  exact Represents.fetchRun_ok hrun

theorem SameRecord.authorizeRun {r : ControlDB.AgentRun} {r' : AgentRun} (h : SameRecord key r r')
    (hrun : s.collector.agentRuns.get key.runId = some r') :
    Collector.authorizeRun s.collector key.principal key.runId = .ok r' := by
  simp [Collector.authorizeRun, hrun, h.own.1, h.own.2]

/-- Closing the run, whatever becomes of the metadata. -/
theorem SameRecord.close {r : ControlDB.AgentRun} {r' : AgentRun} (h : SameRecord key r r')
    {status : Bytes} {status' : String} (hstatus : status = utf8 status') {ms : Int} (hms : ms ≠ 0)
    (endedAt : DateTime) {metadataJson : Bytes} (htext : IsUtf8 metadataJson)
    (metadata : List (String × PyJson)) :
    SameRecord key { r with status := status, endedAtMs := ms, metadataJson := metadataJson }
      { r' with status := status', endedAt := some endedAt, metadataJson := metadata } where
  status := hstatus
  ended := by simp [hms]
  count := h.count
  texts := { h.texts with status := hstatus ▸ isUtf8_utf8 status', metadataJson := htext }
  orgId := h.orgId
  projectId := h.projectId
  own := h.own

/-! ### One call -/

theorem Paired.start (hlib : JsonLibrary env) (h : Paired key s) {t : Turn key}
    {opening : Opening key} (hturn : t.call = .start opening) (hok : Agreeable env cenv s t) :
    Paired key (s.step env cenv t) := by
  have hengine : (s.step env cenv t).engine =
      s.engine.applyAll (ControlDB.startRun env t.now s.engine opening.engine).effects := by
    simp [Engines.step, hturn, RunCall.toEngine, Action.run, Call.effects]
  have hname : (truthy (some key.runId)).getD ("run_" ++ t.moment.ulid 0) = key.runId := by
    simp [truthy, key.named]
  rcases h.run_cases with ⟨hnone, hnone'⟩ | ⟨r, r', hrun, hrun', hsame⟩
  · unfold Agreeable at hok
    rw [hturn] at hok
    rcases hok hnone' with ⟨hagent, htexts⟩
    have hnew : s.engine.rocks.runs.get opening.engine.runId = none :=
      opening.runId ▸ h.consistent.represents.get_runs_none hnone
    have hleaves := @startRun_leaves env t.now s.engine opening.engine hlib htexts hnew
    rw [← hengine, opening.runId] at hleaves
    have hcollector : (s.step env cenv t).collector = { s.collector with
        agentRuns := s.collector.agentRuns.put key.runId {
          runId := key.runId
          orgId := key.principal.orgId
          projectId := key.principal.projectId
          environment := opening.environment
          agentId := opening.agentId
          agentVersion := opening.agentVersion
          status := "running"
          metadataJson := opening.metadata
          startedAt := cenv.storeDatetime (t.moment.now 0) } } := by
      simp [Engines.step, hturn, RunCall.toCollector, Request.run, Request.perform, startRun, hagent,
        hname, hnone', Except.map]
    have hstatus : (startedRun t.now opening.engine).status = utf8 "running" := by
      have hrunning : bytes "running" = utf8 "running" := by decide
      rcases opening.status with hempty | hgiven
      · rw [← hrunning, startedRun, if_pos hempty]
      · simp [startedRun, hgiven, hrunning]
    refine h.step_put hleaves hcollector ⟨hstatus, ?_, opening.eventCount, startedRun_utf8 htexts,
      opening.orgId, opening.projectId, rfl, rfl⟩
    simp [startedRun, opening.endedAtMs]
  · have heffects := @startRun_effects_of_stored env t.now s.engine opening.engine r
      (opening.runId ▸ hrun)
    refine h.step_unchanged ?_ ?_
    · rw [hengine, heffects]
      rfl
    -- without an agent the collector refuses, otherwise it finds the run
    · by_cases hagent : opening.agentId = "" <;>
        simp [Engines.step, hturn, RunCall.toCollector, Request.run, Request.perform, startRun,
          hagent, hname, hrun', Except.map]

theorem Paired.commit (hlib : JsonLibrary env) (h : Paired key s) {t : Turn key}
    (hturn : t.call = .commit) : Paired key (s.step env cenv t) := by
  have hcall : ∀ opening, t.call ≠ .start opening := by simp [hturn]
  rcases h.run_cases with ⟨hnone, hnone'⟩ | ⟨r, r', hrun, hrun', hsame⟩
  · exact h.step_unchanged (h.engine_missing hnone hcall) (collector_missing hnone' hcall)
  · have hleaves := @commitRun_leaves env t.now s.engine _ _ _ r hlib hsame.texts
      (hsame.fetchRun hrun)
    have hengine : (s.step env cenv t).engine = s.engine.applyAll (ControlDB.commitRun env t.now
        s.engine (utf8 key.runId) (utf8 key.principal.orgId)
        (utf8 key.principal.projectId)).effects := by
      simp [Engines.step, hturn, RunCall.toEngine, Action.run, Call.effects]
    have hcollector : (s.step env cenv t).collector = { s.collector with
        agentRuns := s.collector.agentRuns.put key.runId { r' with
          status := "committed", endedAt := some (cenv.storeDatetime (t.moment.now 0)) } } := by
      simp [Engines.step, hturn, RunCall.toCollector, Request.run, Request.perform, commitRun,
        hsame.authorizeRun hrun', Except.map, Bind.bind, Except.bind, pure, Except.pure]
    exact h.step_put (hengine ▸ hleaves) hcollector
      (hsame.close (by decide) (t.running 0) _ hsame.texts.metadataJson r'.metadataJson)

theorem Paired.rollback (hlib : JsonLibrary env) (h : Paired key s) {t : Turn key}
    {reason : Option String} (hturn : t.call = .rollback reason) (hok : Agreeable env cenv s t) :
    Paired key (s.step env cenv t) := by
  have hcall : ∀ opening, t.call ≠ .start opening := by simp [hturn]
  rcases h.run_cases with ⟨hnone, hnone'⟩ | ⟨r, r', hrun, hrun', hsame⟩
  · exact h.step_unchanged (h.engine_missing hnone hcall) (collector_missing hnone' hcall)
  · have hreadable : utf8OrEmpty reason ≠ [] → MetadataReadable env r.metadataJson := by
      intro hne
      unfold Agreeable at hok
      rw [hturn] at hok
      exact hok hne r hrun
    rcases @rollbackRun_leaves env t.now s.engine _ _ _ r _ hlib hsame.texts
      (isUtf8_utf8OrEmpty reason) hreadable (hsame.fetchRun hrun) with ⟨metadataJson, htext, hleaves⟩
    have hengine : (s.step env cenv t).engine = s.engine.applyAll (ControlDB.rollbackRun env t.now
        s.engine (utf8 key.runId) (utf8 key.principal.orgId)
        (utf8 key.principal.projectId) (utf8OrEmpty reason)).effects := by
      simp [Engines.step, hturn, RunCall.toEngine, Action.run, Call.effects]
    have hcollector : (s.step env cenv t).collector = { s.collector with
        agentRuns := s.collector.agentRuns.put key.runId { r' with
          status := "rolled_back"
          endedAt := some (cenv.storeDatetime (t.moment.now 0))
          metadataJson := (truthy reason).elim r'.metadataJson fun text =>
            withMember r'.metadataJson "rollback_reason" (.str text) } } := by
      cases htruthy : truthy reason <;>
        simp [Engines.step, hturn, RunCall.toCollector, Request.run, Request.perform, rollbackRun,
          hsame.authorizeRun hrun', htruthy, Except.map, Bind.bind, Except.bind, pure, Except.pure]
    exact h.step_put (hengine ▸ hleaves) hcollector
      (hsame.close (by decide) (t.running 0) _ htext _)

/-- The records behind a batch that is aligned. -/
theorem SameRecord.append {m : Moment} {now : Nat → Int} {r : ControlDB.AgentRun}
    {r' r₁ : AgentRun} {batch : List Submission} {db' : Database} {es : List ControlDB.AuditEvent}
    (hsame : SameRecord key r r') (hnow : ∀ i, now i ≠ 0) (hok : BatchAligned cenv s m r' batch)
    (hes : es.length = batch.length) (htexts : (appendedRun now (batch.map Submission.engine) es r).Utf8)
    (hstores : StoresAll s.collector db' key.principal r' r₁ (batch.map Submission.collector)) :
    SameRecord key (appendedRun now (batch.map Submission.engine) es r) r₁ := by
  have hrun := appendedRun_same now (batch.map Submission.engine) es r
  refine ⟨?_, ?_, ?_, htexts, hrun.orgId.trans hsame.orgId, hrun.projectId.trans hsame.projectId,
    hstores.own⟩
  · rw [appendedRun_status, engine_types, hsame.status, hstores.status, collector_types]
    exact (status_eq_iff _ _).2 hok.status
  · rw [appendedRun_ended _ _ _ hnow, hstores.ended, hsame.ended, engine_ends, Bool.or_eq_true,
      collector_ends]
    constructor
    · exact Or.imp_right Or.inr
    -- only a rollback among the events could end the run in the collector alone
    · rintro (hold | hrolled | hshared)
      · exact .inl hold
      · exact hok.ended hrolled
      · exact .inr hshared
  · rw [appendedRun_count, hstores.count, hsame.count, hes]
    simp

/-- The engine writes a batch in UTF-8, and accepts what it does not find under its key. -/
theorem Paired.engine_append (hlib : JsonLibrary env) (h : Paired key s) {t : Turn key}
    {batch : List Submission} (hturn : t.call = .append batch) {r : ControlDB.AgentRun}
    {r' : AgentRun} (hrun : storedRun s.engine.rocks (utf8 key.runId) = some r)
    (hsame : SameRecord key r r') (htexts : ∀ sub ∈ batch, sub.engine.SentUtf8) :
    ∃ es, Leaves s.engine (s.step env cenv t).engine (utf8 key.runId)
        (appendedRun t.now (batch.map Submission.engine) es r) es ∧
      (∀ e ∈ es, e.runId = utf8 key.runId) ∧
      es.length = batch.countP (fun sub => decide (¬ isDuplicate s.engine.rocks sub.engine)) ∧
      (appendedRun t.now (batch.map Submission.engine) es r).Utf8 := by
  have hleaves := @appendEvents_leaves env t.now s.engine _ _ _ r _ h.consistent hlib hsame.texts
    (List.forall_mem_map.2 htexts) (hsame.fetchRun hrun)
  have hengine : (s.step env cenv t).engine = s.engine.applyAll (ControlDB.appendEvents env t.now
      s.engine (utf8 key.runId) (utf8 key.principal.orgId) (utf8 key.principal.projectId)
      (batch.map Submission.engine)).effects := by
    simp [Engines.step, hturn, RunCall.toEngine, Action.run, Call.effects]
  refine ⟨_, hengine ▸ hleaves, ?_, ?_, ?_⟩
  · intro e he
    rcases acceptedEvents_stampOf he with ⟨ev, _, _, hstamp⟩
    exact hstamp.runId
  · rw [length_accepted_eq_countP, List.countP_map]
    rfl
  · exact appendedRun_utf8 _ _ hsame.texts
      (isUtf8_lastHash_accepted 0 _ _ hsame.texts.lastEventHash)

theorem collector_append {t : Turn key} {batch : List Submission} (hturn : t.call = .append batch)
    {db' : Database} {ids : List String} (hout : appendEvents cenv t.moment s.collector
      key.principal key.runId (batch.map Submission.collector) = .ok (db', ids)) :
    (s.step env cenv t).collector = db' := by
  simp [Engines.step, hturn, RunCall.toCollector, Request.run, Request.perform, hout, Except.map]

theorem Paired.append (hlib : JsonLibrary env) (h : Paired key s) {t : Turn key}
    {batch : List Submission} (hturn : t.call = .append batch) (hok : Agreeable env cenv s t) :
    Paired key (s.step env cenv t) := by
  have hcall : ∀ opening, t.call ≠ .start opening := by simp [hturn]
  rcases h.run_cases with ⟨hnone, hnone'⟩ | ⟨r, r', hrun, hrun', hsame⟩
  · exact h.step_unchanged (h.engine_missing hnone hcall) (collector_missing hnone' hcall)
  · unfold Agreeable at hok
    rw [hturn] at hok
    have haligned := hok r' hrun'
    rcases @Paired.engine_append env cenv key s hlib h t batch hturn r r' hrun hsame haligned.texts
      with ⟨es, hleaves, hown, haccepted, htexts⟩
    -- the engine accepts every event, and the collector stores every one
    have hlength : es.length = batch.length := by
      rw [haccepted]
      exact List.countP_eq_length.2 fun sub hsub => decide_eq_true (haligned.unseen sub hsub)
    rcases @appendEvents_storesAll cenv t.moment s.collector key.principal key.runId r'
      (batch.map Submission.collector) h.sound hrun' hsame.own
      (List.forall_mem_map.2 fun sub _ => sub.known) (List.forall_mem_map.2 haligned.storable)
      haligned.apart with ⟨db', ids, r₁, hout, hstores⟩
    rcases hstores.events with ⟨rows, hrows, hcount, hrowsOwn⟩
    have hid : r'.runId = key.runId := h.sound.runKey hrun'
    have hcollector := @collector_append env cenv key s t batch hturn db' ids hout
    refine h.step_leaves hleaves (hcollector ▸ hid ▸ hstores.stored) (hcollector ▸ hrows)
      hown (fun e he => (hrowsOwn e he).trans hid) ?_ ?_
    · rw [hlength, hcount, List.length_map]
    · exact hsame.append t.running haligned hlength htexts hstores

/-- Step lemma. -/
theorem Paired.step (hlib : JsonLibrary env) (h : Paired key s) {t : Turn key}
    (hok : Agreeable env cenv s t) : Paired key (s.step env cenv t) := by
  cases hturn : t.call with
  | start opening => exact h.start hlib hturn hok
  | append batch => exact h.append hlib hturn hok
  | commit => exact h.commit hlib hturn
  | rollback reason => exact h.rollback hlib hturn hok

/-! ### A batch that is not aligned -/

/-- If the collector answers a batch that both can write down, and the records agree behind it, the
batch was aligned. -/
theorem Paired.aligned_of_agree (hlib : JsonLibrary env) (h : Paired key s) {t : Turn key}
    {batch : List Submission} (hturn : t.call = .append batch) {r' : AgentRun}
    (hrun' : s.collector.agentRuns.get key.runId = some r')
    (htexts : ∀ sub ∈ batch, sub.engine.SentUtf8)
    (hstorable : ∀ sub ∈ batch, Storable cenv r' sub.collector) {db' : Database}
    {ids : List String} (hout : appendEvents cenv t.moment s.collector key.principal key.runId
      (batch.map Submission.collector) = .ok (db', ids))
    (hagree : (s.step env cenv t).Agree key) : BatchAligned cenv s t.moment r' batch := by
  rcases h.run_cases with ⟨_, hnone'⟩ | ⟨r, r₀, hrun, hrun₀, hsame⟩
  · rw [hrun'] at hnone'
    cases hnone'
  obtain rfl : r' = r₀ := Option.some.inj (hrun'.symm.trans hrun₀)
  rcases @Paired.engine_append env cenv key s hlib h t batch hturn r r' hrun hsame htexts
    with ⟨es, hleaves, hown, haccepted, _⟩
  rcases storesAll_of_length h.sound hrun' hsame.own hout with
    ⟨r₁, rows, hstored, hcount, hrows, hrowsOwn, hwhole⟩
  have hcollector := @collector_append env cenv key s t batch hturn db' ids hout
  -- the two records, and what their agreement says
  have hengineOwn : ∀ e ∈ storedEvents (s.step env cenv t).engine.rocks, e.runId = utf8 key.runId := by
    intro e he
    rw [hleaves.events] at he
    exact (List.mem_append.1 he).elim (h.engineOwn e) (hown e)
  have hcollectorOwn : ∀ e ∈ (s.step env cenv t).collector.auditEvents, e.runId = key.runId := by
    intro e he
    rw [hcollector, hrows] at he
    exact (List.mem_append.1 he).elim (h.collectorOwn e) (hrowsOwn e)
  unfold Engines.Agree at hagree
  rw [engineRecord_eq hengineOwn, collectorRecord_eq (h.step_sound t) hcollectorOwn, hleaves.run,
    hleaves.events, hcollector, hstored, hrows] at hagree
  simp only [Option.map_some, Option.some.injEq, RunRecord.mk.injEq, List.length_append, h.stored]
    at hagree
  rcases hagree with ⟨hstatus, hended, hcounts, hstoreds⟩
  rw [appendedRun_count, hcount, hsame.count, List.length_map] at hcounts
  have hlength : es.length = batch.length := by omega
  have hall : rows.length = (batch.map Submission.collector).length := by
    rw [List.length_map]
    omega
  rcases hwhole hall with ⟨hstores, hapart⟩
  refine ⟨htexts, hstorable, ?_, hapart, ?_, ?_⟩
  · intro sub hsub
    exact of_decide_eq_true (List.countP_eq_length.1 (haccepted.symm.trans hlength) sub hsub)
  · rw [appendedRun_status, engine_types, hsame.status, hstores.status, collector_types] at hstatus
    exact (status_eq_iff _ _).1 hstatus
  · intro hrolled
    have hends := (collector_ends batch).2 (.inl hrolled)
    -- the collector has ended the run, so the engine has
    have hset : (appendedRun t.now (batch.map Submission.engine) es r).endedAtMs ≠ 0 := by
      rw [hstores.ended, hends, Bool.or_true] at hended
      exact of_decide_eq_true hended
    rw [appendedRun_ended _ _ _ t.running, hsame.ended, engine_ends] at hset
    exact hset

end Paired

/-! ## Runs -/

section Runs

variable {env : ControlDB.Env} {cenv : Env}

/-- When every call is agreeable, the records agree in every state; and behind such calls, a batch
that both can write down and the collector answers leaves them apart unless it is aligned. -/
theorem engines_agree (hlib : JsonLibrary env) (key : RunKey) (turns : List (Turn key))
    (hturns : Meets (Engines.step env cenv) (Agreeable env cenv) {} turns) :
    Throughout (Engines.step env cenv) (Engines.Agree key) (fun _ _ => True) {} turns ∧
      ∀ (t : Turn key) (batch : List Submission) (run : AgentRun) (out : Database × List String),
        let s := turns.foldl (Engines.step env cenv) {}
        t.call = .append batch → s.collector.agentRuns.get key.runId = some run →
        (∀ sub ∈ batch, sub.engine.SentUtf8 ∧ Storable cenv run sub.collector) →
        appendEvents cenv t.moment s.collector key.principal key.runId
          (batch.map Submission.collector) = .ok out →
        ((s.step env cenv t).Agree key ↔ BatchAligned cenv s t.moment run batch) := by
  constructor
  · exact hturns.throughout (fun h => h.agree) (fun h hok => ⟨trivial, h.step hlib hok⟩)
      (paired_empty key)
  · intro t batch run out s hturn hrun hbatch hout
    have hpaired : Paired key s := hturns.final (fun h hok => h.step hlib hok) (paired_empty key)
    constructor
    · exact hpaired.aligned_of_agree hlib hturn hrun (fun sub hsub => (hbatch sub hsub).1)
        (fun sub hsub => (hbatch sub hsub).2) hout
    · intro haligned
      refine (hpaired.append hlib hturn ?_).agree
      unfold Agreeable
      rw [hturn]
      intro run' hrun'
      obtain rfl : run = run' := Option.some.inj (hrun.symm.trans hrun')
      exact haligned

end Runs

/-! ### Two runs -/

namespace EngineExample

def key : RunKey := ⟨"run_1", CollectorExample.owner, by decide⟩

/-- 2026-05-13T12:00:00Z. -/
def clock : Nat → Int := fun _ => 1778673600000

def opening : Opening key where
  engine :=
    { runId := bytes "run_1", orgId := bytes "org_default", projectId := bytes "proj_default",
      environment := bytes "dev", agentId := bytes "repeat-agent", status := bytes "running" }
  agentId := "repeat-agent"
  agentVersion := none
  environment := "dev"
  metadata := []
  runId := by decide
  orgId := by decide
  projectId := by decide
  status := .inr rfl
  endedAtMs := rfl
  eventCount := rfl

def submission : Submission where
  engine :=
    { eventId := bytes "evt_a", eventType := bytes "memory.write", actorType := bytes "agent",
      actorId := bytes "repeat-agent", idempotencyKey := bytes "idem_a" }
  collector := CollectorExample.event "evt_a" (some "idem_a")
  eventId := by decide
  eventType := by decide
  idempotencyKey := by decide
  known := by decide

/-- The event as the engine stores it. -/
def stamped : ControlDB.AuditEvent :=
  { submission.engine with
    sequence := 1, orgId := bytes "org_default", projectId := bytes "proj_default",
    runId := bytes "run_1", environment := bytes "dev", schemaVersion := bytes "2026-05-01",
    payloadMode := bytes "metadata_only", occurredAtMs := 1778673600000,
    ingestedAtMs := 1778673600000 }

def env : ControlDB.Env :=
  tableEnv [(canonicalJsonEvent stamped,
    #v[210, 141, 27, 136, 227, 96, 160, 48, 250, 155, 119, 99, 213, 235, 113, 33,
      188, 202, 222, 44, 37, 62, 243, 173, 30, 248, 64, 247, 117, 155, 185, 96])]

def turn (call : RunCall key) : Turn key :=
  ⟨clock, CollectorExample.moment, call, fun _ => show (1778673600000 : Int) ≠ 0 by decide⟩

def start : Turn key := turn (.start opening)

def append : Turn key := turn (.append [submission])

theorem library : JsonLibrary env where
  dumps := fun _ => ⟨[], rfl, isUtf8_nil⟩
  parses := fun h => nomatch h

theorem opening_utf8 : opening.engine.Utf8 := by
  constructor <;> exact isUtf8_of_ascii (by decide)

theorem submission_utf8 : submission.engine.SentUtf8 := by
  constructor <;> exact isUtf8_of_ascii (by decide)

end EngineExample

open EngineExample in
/-- The event is sent once, and the run committed. -/
theorem engines_agree_once :
    Throughout (Engines.step env CollectorExample.env) (Engines.Agree key) (fun _ _ => True) {}
      [start, append, turn .commit] := by
  have hmeets : Meets (Engines.step env CollectorExample.env) (Agreeable env CollectorExample.env) {}
      [start, append, turn .commit] := by
    refine ⟨?_, ?_, trivial, trivial⟩
    · exact fun _ => ⟨by decide, opening_utf8⟩
    · intro run hrun
      have hpending : ¬ isDuplicate (Engines.step env CollectorExample.env {} start).engine.rocks
          submission.engine := by decide +kernel
      have hrows : (Engines.step env CollectorExample.env {} start).collector.auditEvents = [] := by
        decide +kernel
      constructor
      case texts => exact List.forall_mem_singleton.2 submission_utf8
      case storable => exact List.forall_mem_singleton.2 ⟨rfl, rfl, rfl, rfl⟩
      case unseen => exact List.forall_mem_singleton.2 hpending
      case apart =>
        rw [hrows]
        exact List.pairwise_singleton _ _
      case status =>
        have hquiet : ((types [submission]).filter fun eventType =>
            (collectorStatus eventType).isSome).getLast? = none := by decide
        intro eventType h
        rw [hquiet] at h
        cases h
      case ended => exact fun h => absurd h (by decide)
  exact (engines_agree library key _ hmeets).1

open EngineExample in
/-- Sent again, the event is counted again by the collector alone. -/
theorem engines_disagree_on_resend :
    let s := [start, append, append].foldl (Engines.step env CollectorExample.env) {}
    ¬ s.Agree key ∧ (engineRecord s.engine "run_1").map RunRecord.eventCount = some 1 ∧
      (collectorRecord s.collector "run_1").map RunRecord.eventCount = some 2 := by
  unfold Engines.Agree
  decide +kernel

end Collector
end ControlDB
