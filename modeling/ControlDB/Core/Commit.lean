import ControlDB.Core.Records

/-!
# What one call can do

Every call has one of four effect lists, and at most one of its effects is a batch.  `Commit` says
what that batch stores; what a store goes through, whatever is interrupted, is a sequence of such
commits, so an invariant of the database is a statement about `Commit`.
-/

namespace ControlDB

open Library

/-! ## The event loop -/

section Loop

variable (env : Env) (now : Nat → Int) (db : Rocks) (run : AgentRun)
  (runId orgId projectId : Bytes)

/-- The events an `append_events` call accepts, as it would store them. -/
def acceptedEvents : Nat → List AuditEvent → Nat → HashStr → List AuditEvent
  | _, [], _, _ => []
  | i, ev :: rest, seq, prevHash =>
      if isDuplicate db ev then acceptedEvents (i + 1) rest seq prevHash
      else
        let e := stampEvent env (now i) run runId orgId projectId (seq + 1) prevHash ev
        e :: acceptedEvents (i + 1) rest (seq + 1) e.eventHash

/-- The replies to a batch, given the events accepted from it. -/
def replies : List AuditEvent → List AuditEvent → List InsertEventResult
  | [], _ => []
  | ev :: rest, es =>
      if isDuplicate db ev then duplicateResult db ev :: replies rest es
      else
        match es with
        | [] => []
        | e :: es => { eventId := e.eventId, eventHash := e.eventHash } :: replies rest es

/-- The effects of accepting events when the log ends at `walSeq`. -/
def eventEffects : Nat → List AuditEvent → List Effect
  | _, [] => []
  | walSeq, e :: es =>
      .nextSeq :: .walAppend ⟨walSeq + 1, .insertEvent, eventToJson e⟩ ::
        .markApplied (walSeq + 1) :: eventEffects (walSeq + 1) es

/-- The loop state after accepting `es` from `events`. -/
def AppendState.acceptAll (st : AppendState) (events es : List AuditEvent) : AppendState :=
  { effects := st.effects ++ eventEffects st.walSeq es
    batch := st.batch ++ es.flatMap eventPuts
    prevHash := lastHash st.prevHash es
    seq := st.seq + es.length
    walSeq := st.walSeq + es.length
    results := st.results ++ replies db events es }

variable {env now db run runId orgId projectId}

/-- Accepting one event and then the others. -/
theorem AppendState.acceptAll_accept {ev e : AuditEvent} (hdup : ¬ isDuplicate db ev)
    (st : AppendState) (rest es : List AuditEvent) :
    (st.accept e).acceptAll db rest es = st.acceptAll db (ev :: rest) (e :: es) := by
  have hseq : st.seq + 1 + es.length = st.seq + (es.length + 1) := by omega
  have hwal : st.walSeq + 1 + es.length = st.walSeq + (es.length + 1) := by omega
  simp [AppendState.acceptAll, AppendState.accept, replies, hdup, eventEffects, hseq, hwal]

theorem appendLoop_eq_ok {i : Nat} {events : List AuditEvent} {st st' : AppendState}
    (h : appendLoop env now db run runId orgId projectId i events st = .ok st') :
    st' = st.acceptAll db events
      (acceptedEvents env now db run runId orgId projectId i events st.seq st.prevHash) := by
  induction events generalizing i st with
  | nil =>
      cases h
      simp [AppendState.acceptAll, acceptedEvents, eventEffects, replies]
  | cons ev rest ih =>
      unfold appendLoop at h
      split_ifs at h with hdup
      · simpa [AppendState.acceptAll, acceptedEvents, replies, hdup] using ih h
      · cases hdump : env.dump (eventToJson
          (stampEvent env (now i) run runId orgId projectId (st.seq + 1) st.prevHash ev)) with
        | none => simp [hdump] at h
        | some text =>
            simp only [hdump] at h
            simp only [acceptedEvents, hdup, if_false]
            exact (ih h).trans (AppendState.acceptAll_accept hdup st rest _)

/-- A throw leaves the effects of the events before it, and the number it had taken. -/
theorem appendLoop_eq_error {i : Nat} {events : List AuditEvent} {st : AppendState}
    {effects : List Effect} {e : StoreError}
    (h : appendLoop env now db run runId orgId projectId i events st = .error (effects, e)) :
    ∃ es, effects = st.effects ++ eventEffects st.walSeq es ++ [.nextSeq] := by
  induction events generalizing i st with
  | nil => exact nomatch h
  | cons ev rest ih =>
      unfold appendLoop at h
      split_ifs at h with hdup
      · simpa using ih h
      · cases hdump : env.dump (eventToJson
          (stampEvent env (now i) run runId orgId projectId (st.seq + 1) st.prevHash ev)) with
        | none =>
            simp only [hdump, Except.error.injEq, Prod.mk.injEq] at h
            exact ⟨[], by simp [← h.1, eventEffects]⟩
        | some text =>
            simp only [hdump] at h
            rcases ih h with ⟨es, hes⟩
            refine ⟨stampEvent env (now i) run runId orgId projectId (st.seq + 1) st.prevHash ev ::
              es, ?_⟩
            simp [hes, AppendState.accept, eventEffects]

/-! ### The accepted events -/

/-- What of the submitted event and of the call is in the stored one. -/
structure StampOf (runId orgId projectId : Bytes) (ev e : AuditEvent) : Prop where
  runId : e.runId = runId
  orgId : e.orgId = orgId
  projectId : e.projectId = projectId
  eventId : e.eventId = ev.eventId
  eventType : e.eventType = ev.eventType
  idempotencyKey : e.idempotencyKey = ev.idempotencyKey

/-- Every accepted event is the stamped form of a submitted one that is no duplicate. -/
theorem acceptedEvents_stampOf {i : Nat} {events : List AuditEvent} {seq : Nat}
    {prevHash : HashStr} {e : AuditEvent}
    (he : e ∈ acceptedEvents env now db run runId orgId projectId i events seq prevHash) :
    ∃ ev ∈ events, ¬ isDuplicate db ev ∧ StampOf runId orgId projectId ev e := by
  induction events generalizing i seq prevHash with
  | nil => simp [acceptedEvents] at he
  | cons ev rest ih =>
      by_cases hdup : isDuplicate db ev
      · rcases ih (by simpa [acceptedEvents, hdup] using he) with ⟨ev', hmem, h⟩
        exact ⟨ev', List.mem_cons_of_mem _ hmem, h⟩
      · simp only [acceptedEvents, hdup, if_false] at he
        rcases List.mem_cons.1 he with rfl | htail
        · exact ⟨ev, List.mem_cons_self, hdup, ⟨rfl, rfl, rfl, rfl, rfl, rfl⟩⟩
        · rcases ih htail with ⟨ev', hmem, h⟩
          exact ⟨ev', List.mem_cons_of_mem _ hmem, h⟩

/-- Accepted events carry the numbers right after the counter. -/
theorem acceptedEvents_sequence (i : Nat) (events : List AuditEvent) (seq : Nat)
    (prevHash : HashStr) :
    let es := acceptedEvents env now db run runId orgId projectId i events seq prevHash
    es.map AuditEvent.sequence = List.range' (seq + 1) es.length := by
  induction events generalizing i seq prevHash with
  | nil => rfl
  | cons ev rest ih =>
      by_cases hdup : isDuplicate db ev
      · simpa [acceptedEvents, hdup] using ih (i + 1) seq prevHash
      · have hrest := ih (i + 1) (seq + 1)
          (stampEvent env (now i) run runId orgId projectId (seq + 1) prevHash ev).eventHash
        simpa [acceptedEvents, hdup, List.range'_succ, stampEvent] using hrest

theorem stampEvent_eventHash (n : Int) (seq : Nat) (prevHash : HashStr) (ev : AuditEvent) :
    computeEventHash env.sha256 (stampEvent env n run runId orgId projectId seq prevHash ev) =
      (stampEvent env n run runId orgId projectId seq prevHash ev).eventHash := rfl

theorem acceptedEvents_chain (i : Nat) (events : List AuditEvent) (seq : Nat)
    (prevHash : HashStr) :
    ChainFrom env.sha256 prevHash
      (acceptedEvents env now db run runId orgId projectId i events seq prevHash) := by
  induction events generalizing i seq prevHash with
  | nil => trivial
  | cons ev rest ih =>
      by_cases hdup : isDuplicate db ev
      · simpa [acceptedEvents, hdup] using ih (i + 1) seq prevHash
      · simp only [acceptedEvents, hdup, if_false, ChainFrom]
        exact ⟨rfl, stampEvent_eventHash _ _ _ _, ih _ _ _⟩

theorem countP_replies (events : List AuditEvent) (i : Nat) (seq : Nat) (prevHash : HashStr) :
    let es := acceptedEvents env now db run runId orgId projectId i events seq prevHash
    (replies db events es).countP (fun r => !r.wasDuplicate) = es.length := by
  induction events generalizing i seq prevHash with
  | nil => rfl
  | cons ev rest ih =>
      by_cases hdup : isDuplicate db ev
      · simpa [acceptedEvents, replies, hdup, duplicateResult] using ih (i + 1) seq prevHash
      · have hrest := ih (i + 1) (seq + 1)
          (stampEvent env (now i) run runId orgId projectId (seq + 1) prevHash ev).eventHash
        simpa [acceptedEvents, replies, hdup] using hrest

end Loop

/-! ## Commits -/

/-- The two records are of one run: its id, its tenant and its start. -/
structure SameRun (run r : AgentRun) : Prop where
  runId : r.runId = run.runId
  orgId : r.orgId = run.orgId
  projectId : r.projectId = run.projectId
  startedAtMs : r.startedAtMs = run.startedAtMs

/-- The record that `start_run` makes of its argument. -/
structure Opens (run r : AgentRun) : Prop where
  runId : r.runId = run.runId
  orgId : r.orgId = run.orgId
  projectId : r.projectId = run.projectId
  lastEventHash : r.lastEventHash = run.lastEventHash
  eventCount : r.eventCount = run.eventCount

/-- The two records are of one approval: its id and its tenant. -/
structure SameApproval (approval a : Approval) : Prop where
  approvalId : a.approvalId = approval.approvalId
  orgId : a.orgId = approval.orgId
  projectId : a.projectId = approval.projectId

/-- The events that a call on a fetched run accepts in a store. -/
def Store.accepted (env : Env) (now : Nat → Int) (s : Store) (run : AgentRun)
    (runId orgId projectId : Bytes) (events : List AuditEvent) : List AuditEvent :=
  acceptedEvents env now s.rocks run runId orgId projectId 0 events s.globalSeq run.lastEventHash

/-- What the batch of a call stores, and how many sequence numbers it uses. -/
inductive Commit (env : Env) (now : Nat → Int) (s : Store) : Call → List Put → Nat → Prop
  | startRun {run r : AgentRun} (hnew : s.rocks.runs.get run.runId = none) (hopens : Opens run r) :
      Commit env now s (.startRun run)
        [.runs r.runId (runToJson r), .runsByOrg (runsByOrgKey r) r.runId] 0
  | updateRun {c : Call} {runId orgId projectId : Bytes} {run r : AgentRun}
      (hfetch : fetchRun s.rocks runId orgId projectId = .ok run) (hsame : SameRun run r)
      (hhash : r.lastEventHash = run.lastEventHash) (hcount : r.eventCount = run.eventCount) :
      Commit env now s c [.runs runId (runToJson r)] 0
  | appendEvents {runId orgId projectId : Bytes} {events es : List AuditEvent} {run r : AgentRun}
      (hfetch : fetchRun s.rocks runId orgId projectId = .ok run) (hsame : SameRun run r)
      (hes : es = s.accepted env now run runId orgId projectId events)
      (hhash : r.lastEventHash = lastHash run.lastEventHash es)
      (hcount : r.eventCount = run.eventCount + es.length) :
      Commit env now s (.appendEvents runId orgId projectId events)
        (appendBatch es runId r (s.globalSeq + es.length)) es.length
  | insertApproval {approval a : Approval} (hnew : s.rocks.approvals.get a.approvalId = none)
      (hsame : SameApproval approval a) :
      Commit env now s (.upsertApproval approval) [.approvals a.approvalId (approvalToJson a)] 0
  | updateApproval {c : Call} {approvalId : Bytes} {doc : Json} {approval a : Approval}
      (hget : s.rocks.approvals.get approvalId = some doc)
      (hdoc : jsonToApproval doc = .ok approval) (hsame : SameApproval approval a) :
      Commit env now s c [.approvals approvalId (approvalToJson a)] 0
  | putExport {exp : EvidenceExport} :
      Commit env now s (.putExport exp)
        [.exports exp.exportId none, .exports exp.exportId (some (exportToJson exp))] 0

/-- A log record with this document, and the put of the batch that stores it. -/
inductive Logs : WalOpType → Json → Put → Prop
  | insertRun (runId : Bytes) (r : AgentRun) :
      Logs .insertRun (runToJson r) (.runs runId (runToJson r))
  | updateRun (runId : Bytes) (r : AgentRun) :
      Logs .updateRun (runToJson r) (.runs runId (runToJson r))
  | insertApproval (approvalId : Bytes) (a : Approval) :
      Logs .insertApproval (approvalToJson a) (.approvals approvalId (approvalToJson a))
  | updateApproval (approvalId : Bytes) (a : Approval) :
      Logs .updateApproval (approvalToJson a) (.approvals approvalId (approvalToJson a))
  | insertExport (exp : EvidenceExport) :
      Logs .insertExport (exportToJson exp) (.exports exp.exportId (some (exportToJson exp)))

/-- The kinds of effect list: none, that of a single-record operation, that of an `append_events`
call that threw, and that of one that did not. -/
inductive EffectShape (env : Env) (now : Nat → Int) (s : Store) (c : Call) : List Effect → Prop
  | nothing : EffectShape env now s c []
  | logged {opType : WalOpType} {doc : Json} {batch : List Put} {p : Put}
      (hcommit : Commit env now s c batch 0) (hp : p ∈ batch) (hlogs : Logs opType doc p) :
      EffectShape env now s c
        [.walAppend ⟨s.wal.lastSeq + 1, opType, doc⟩, .write batch, .markApplied (s.wal.lastSeq + 1)]
  | threw {es : List AuditEvent} {tail : List Effect} (htail : tail = [] ∨ tail = [.nextSeq]) :
      EffectShape env now s c (eventEffects s.wal.lastSeq es ++ tail)
  | appended {es : List AuditEvent} {batch : List Put}
      (hcommit : Commit env now s c batch es.length)
      (hes : ∀ e ∈ es, Put.events e.sequence (eventToJson e) ∈ batch) :
      EffectShape env now s c (eventEffects s.wal.lastSeq es ++ [.write batch])

/-- The end shared by the single-record operations has the shape of a logged batch. -/
theorem logThenWrite_shape {α : Type} {env : Env} {now : Nat → Int} {s : Store} {c : Call}
    {opType : WalOpType} {doc : Json} {batch : List Put} {r : α} {p : Put}
    (hcommit : Commit env now s c batch 0) (hp : p ∈ batch) (hlogs : Logs opType doc p) :
    EffectShape env now s c (logThenWrite env s opType doc batch r).effects := by
  unfold logThenWrite
  cases env.dump doc with
  | none => exact .nothing
  | some text => exact .logged hcommit hp hlogs

theorem updateStatus_same (now : Nat → Int) (i : Nat) (events : List AuditEvent)
    (run : AgentRun) :
    SameRun run (updateStatus now i events run) ∧
      (updateStatus now i events run).lastEventHash = run.lastEventHash ∧
      (updateStatus now i events run).eventCount = run.eventCount := by
  induction events generalizing i run with
  | nil => exact ⟨⟨rfl, rfl, rfl, rfl⟩, rfl, rfl⟩
  | cons ev rest ih =>
      unfold updateStatus
      split_ifs <;>
        exact ⟨⟨(ih _ _).1.runId, (ih _ _).1.orgId, (ih _ _).1.projectId, (ih _ _).1.startedAtMs⟩,
          (ih _ _).2⟩

/-- The loop of a call that does not throw accepts these events, and replies to each of them once. -/
theorem appendLoop_accepted {env : Env} {now : Nat → Int} {s : Store} {run : AgentRun}
    {runId orgId projectId : Bytes} {events : List AuditEvent} {st : AppendState}
    (h : appendLoop env now s.rocks run runId orgId projectId 0 events
      { prevHash := run.lastEventHash, seq := s.globalSeq, walSeq := s.wal.lastSeq } = .ok st) :
    st = AppendState.acceptAll s.rocks
        { prevHash := run.lastEventHash, seq := s.globalSeq, walSeq := s.wal.lastSeq } events
        (s.accepted env now run runId orgId projectId events) ∧
      (replies s.rocks events (s.accepted env now run runId orgId projectId events)).countP
          (fun r => !r.wasDuplicate) =
        (s.accepted env now run runId orgId projectId events).length :=
  ⟨appendLoop_eq_ok h, countP_replies events 0 s.globalSeq run.lastEventHash⟩

/-- What an `append_events` call did when it returned: `run` is the run it found, `r` the one it
left. -/
structure AppendReturned (env : Env) (now : Nat → Int) (s : Store)
    (runId orgId projectId : Bytes) (events : List AuditEvent) (run r : AgentRun) : Prop where
  fetch : fetchRun s.rocks runId orgId projectId = .ok run
  same : SameRun run r
  hash : r.lastEventHash =
    lastHash run.lastEventHash (s.accepted env now run runId orgId projectId events)
  count : r.eventCount =
    run.eventCount + (s.accepted env now run runId orgId projectId events).length
  effects : (appendEvents env now s runId orgId projectId events).effects =
    eventEffects s.wal.lastSeq (s.accepted env now run runId orgId projectId events) ++
      [.write (appendBatch (s.accepted env now run runId orgId projectId events) runId r
        (s.globalSeq + (s.accepted env now run runId orgId projectId events).length))]
  result : (appendEvents env now s runId orgId projectId events).result =
    .ok (replies s.rocks events (s.accepted env now run runId orgId projectId events))

/-- An `append_events` call returns, or throws without having written a batch. -/
theorem appendEvents_cases (env : Env) (now : Nat → Int) (s : Store)
    (runId orgId projectId : Bytes) (events : List AuditEvent) :
    (∃ run r, AppendReturned env now s runId orgId projectId events run r) ∨
      ((∃ e, (appendEvents env now s runId orgId projectId events).result = .error e) ∧
        ∃ es tail, (tail = [] ∨ tail = [Effect.nextSeq]) ∧
          (appendEvents env now s runId orgId projectId events).effects =
            eventEffects s.wal.lastSeq es ++ tail) := by
  cases hfetch : fetchRun s.rocks runId orgId projectId with
  | error e =>
      refine .inr ⟨⟨e, ?_⟩, [], [], .inl rfl, ?_⟩
      · simp [appendEvents, hfetch, Outcome.throw]
      · simp [appendEvents, hfetch, Outcome.throw, eventEffects]
  | ok run =>
      cases hloop : appendLoop env now s.rocks run runId orgId projectId 0 events
          { prevHash := run.lastEventHash, seq := s.globalSeq, walSeq := s.wal.lastSeq } with
      | error thrown =>
          rcases thrown with ⟨effects, e⟩
          rcases appendLoop_eq_error hloop with ⟨es, rfl⟩
          refine .inr ⟨⟨e, ?_⟩, es, [.nextSeq], .inr rfl, ?_⟩
          · simp [appendEvents, hfetch, hloop]
          · simp [appendEvents, hfetch, hloop]
      | ok st =>
          rcases appendLoop_accepted hloop with ⟨hstate, hcount⟩
          generalize hes : s.accepted env now run runId orgId projectId events = es at hstate hcount
          generalize hr : updateStatus (fun i => now (events.length + i)) 0 events
            { run with
              lastEventHash := st.prevHash
              eventCount := run.eventCount + st.results.countP fun res => !InsertEventResult.wasDuplicate res } = r
          have hsame := hr ▸ updateStatus_same (fun i => now (events.length + i)) 0 events
            { run with
              lastEventHash := st.prevHash
              eventCount := run.eventCount + st.results.countP fun res => !InsertEventResult.wasDuplicate res }
          cases hdump : env.dump (runToJson r) with
          | none =>
              refine .inr ⟨⟨.typeError, ?_⟩, es, [], .inl rfl, ?_⟩
              · simp [appendEvents, hfetch, hloop, hr, hdump]
              · simp only [appendEvents, hfetch, hloop, hr, hdump]
                simp [hstate, AppendState.acceptAll]
          | some text =>
              refine .inl ⟨run, r, hfetch, ⟨hsame.1.runId, hsame.1.orgId, hsame.1.projectId,
                hsame.1.startedAtMs⟩, ?_, ?_, ?_, ?_⟩
              · exact hsame.2.1.trans (by simp [hes, hstate, AppendState.acceptAll])
              · exact hsame.2.2.trans (by simp [hes, hstate, AppendState.acceptAll, hcount])
              · simp only [appendEvents, hfetch, hloop, hr, hdump]
                simp [hes, hstate, AppendState.acceptAll, appendBatch]
              · simp only [appendEvents, hfetch, hloop, hr, hdump]
                simp [hes, hstate, AppendState.acceptAll]

theorem appendEvents_shape {env : Env} {now : Nat → Int} {s : Store}
    {runId orgId projectId : Bytes} {events : List AuditEvent} :
    EffectShape env now s (.appendEvents runId orgId projectId events)
      (appendEvents env now s runId orgId projectId events).effects := by
  rcases appendEvents_cases env now s runId orgId projectId events with
    ⟨run, r, h⟩ | ⟨_, es, tail, htail, heffects⟩
  · rw [h.effects]
    refine .appended (.appendEvents h.fetch h.same rfl h.hash h.count) ?_
    intro e he
    have hput : Put.events e.sequence (eventToJson e) ∈ eventPuts e := by simp [eventPuts]
    exact List.mem_append_left _ (List.mem_flatMap_of_mem he hput)
  · rw [heffects]
    exact .threw htail

theorem upsertApproval_shape {env : Env} {now : Nat → Int} {s : Store} {approval : Approval} :
    EffectShape env now s (.upsertApproval approval) (upsertApproval env now s approval).effects := by
  unfold upsertApproval
  cases hget : s.rocks.approvals.get approval.approvalId with
  | some doc => exact .nothing
  | none => exact logThenWrite_shape (.insertApproval hget ⟨rfl, rfl, rfl⟩) (.head _) (.insertApproval _ _)

theorem updateApprovalStatus_shape {env : Env} {now : Nat → Int} {s : Store} {c : Call}
    {approvalId orgId projectId status reviewerId reason : Bytes} :
    EffectShape env now s c
      (updateApprovalStatus env now s approvalId orgId projectId status reviewerId reason).effects := by
  unfold updateApprovalStatus
  cases hget : s.rocks.approvals.get approvalId with
  | none => exact .nothing
  | some doc =>
      dsimp only
      cases hdoc : jsonToApproval doc with
      | error e => exact .nothing
      | ok approval =>
          dsimp only
          by_cases hforbidden : approval.orgId ≠ orgId ∨ approval.projectId ≠ projectId
          · rw [if_pos hforbidden]
            exact .nothing
          · rw [if_neg hforbidden]
            exact logThenWrite_shape (.updateApproval hget hdoc ⟨rfl, rfl, rfl⟩) (.head _)
              (.updateApproval _ _)

theorem startRun_shape {env : Env} {now : Nat → Int} {s : Store} {run : AgentRun} :
    EffectShape env now s (.startRun run) (startRun env now s run).effects := by
  unfold startRun
  cases hget : s.rocks.runs.get run.runId with
  | some doc => exact .nothing
  | none =>
      exact logThenWrite_shape (.startRun hget ⟨rfl, rfl, rfl, rfl, rfl⟩) (.head _) (.insertRun _ _)

theorem commitRun_shape {env : Env} {now : Nat → Int} {s : Store} {c : Call}
    {runId orgId projectId : Bytes} :
    EffectShape env now s c (commitRun env now s runId orgId projectId).effects := by
  unfold commitRun
  cases hfetch : fetchRun s.rocks runId orgId projectId with
  | error e => exact .nothing
  | ok run =>
      exact logThenWrite_shape (.updateRun hfetch ⟨rfl, rfl, rfl, rfl⟩ rfl rfl) (.head _) (.updateRun _ _)

theorem rollbackRun_shape {env : Env} {now : Nat → Int} {s : Store} {c : Call}
    {runId orgId projectId reason : Bytes} :
    EffectShape env now s c (rollbackRun env now s runId orgId projectId reason).effects := by
  unfold rollbackRun
  cases hfetch : fetchRun s.rocks runId orgId projectId with
  | error e => exact .nothing
  | ok run =>
      dsimp only
      cases (if reason = [] then .ok run.metadataJson
        else withRollbackReason env run.metadataJson reason : Except StoreError Bytes) with
      | error e => exact .nothing
      | ok metadataJson =>
          exact logThenWrite_shape (.updateRun hfetch ⟨rfl, rfl, rfl, rfl⟩ rfl rfl) (.head _)
            (.updateRun _ _)

/-- Every call does one of the four things. -/
theorem Call.effects_shape (env : Env) (now : Nat → Int) (s : Store) (c : Call) :
    EffectShape env now s c (c.effects env now s) := by
  cases c with
  | startRun run => exact startRun_shape
  | commitRun runId orgId projectId => exact commitRun_shape
  | rollbackRun runId orgId projectId reason => exact rollbackRun_shape
  | appendEvents runId orgId projectId events => exact appendEvents_shape
  | upsertApproval approval => exact upsertApproval_shape
  | updateApprovalStatus approvalId orgId projectId status reviewerId reason =>
      exact updateApprovalStatus_shape
  | putExport exp =>
      exact logThenWrite_shape .putExport (List.mem_cons_of_mem _ (.head _)) (.insertExport exp)

/-! ## What an action does to the database -/

/-- An effect that is not a batch. -/
def Effect.quiet : Effect → Bool
  | .write _ => false
  | _ => true

theorem Store.applyAll_append (s : Store) (l l' : List Effect) :
    s.applyAll (l ++ l') = (s.applyAll l).applyAll l' := List.foldl_append

theorem Store.applyAll_quiet {s : Store} {l : List Effect} (hl : l.all Effect.quiet = true) :
    (s.applyAll l).rocks = s.rocks ∧ s.globalSeq ≤ (s.applyAll l).globalSeq := by
  induction l generalizing s with
  | nil => exact ⟨rfl, le_rfl⟩
  | cons e l ih =>
      rcases Bool.and_eq_true_iff.1 (List.all_cons ▸ hl) with ⟨he, hl'⟩
      have hrest := ih (s := s.apply e) hl'
      cases e with
      | nextSeq => exact ⟨hrest.1, le_trans (Nat.le_succ _) hrest.2⟩
      | walAppend entry => exact hrest
      | markApplied walSeq => exact hrest
      | write batch => cases he

theorem eventEffects_quiet (walSeq : Nat) (es : List AuditEvent) :
    (eventEffects walSeq es).all Effect.quiet = true := by
  induction es generalizing walSeq with
  | nil => rfl
  | cons e es ih => simpa [eventEffects, Effect.quiet] using ih (walSeq + 1)

theorem globalSeq_eventEffects (s : Store) (walSeq : Nat) (es : List AuditEvent) :
    (s.applyAll (eventEffects walSeq es)).globalSeq = s.globalSeq + es.length := by
  induction es generalizing s walSeq with
  | nil => rfl
  | cons e es ih =>
      have hrest := ih (((s.apply .nextSeq).apply
        (.walAppend ⟨walSeq + 1, .insertEvent, eventToJson e⟩)).apply (.markApplied (walSeq + 1)))
        (walSeq + 1)
      simp only [eventEffects, Store.applyAll, List.foldl_cons, List.length_cons] at hrest ⊢
      rw [hrest]
      simp only [Store.apply]
      omega

/-- A returned call has written its batch. -/
theorem AppendReturned.rocks {env : Env} {now : Nat → Int} {s : Store}
    {runId orgId projectId : Bytes} {events : List AuditEvent} {run r : AgentRun}
    (h : AppendReturned env now s runId orgId projectId events run r) :
    (s.applyAll (appendEvents env now s runId orgId projectId events).effects).rocks =
      s.rocks.write (appendBatch (s.accepted env now run runId orgId projectId events) runId r
        (s.globalSeq + (s.accepted env now run runId orgId projectId events).length)) := by
  rw [h.effects, Store.applyAll_append]
  have hquiet := Store.applyAll_quiet (s := s)
    (eventEffects_quiet s.wal.lastSeq (s.accepted env now run runId orgId projectId events))
  simp [Store.applyAll, Store.apply, ← hquiet.1]

theorem appendReturned_of_ok {env : Env} {now : Nat → Int} {s : Store}
    {runId orgId projectId : Bytes} {events : List AuditEvent}
    {results : List InsertEventResult}
    (h : (appendEvents env now s runId orgId projectId events).result = .ok results) :
    ∃ run r, AppendReturned env now s runId orgId projectId events run r ∧
      results = replies s.rocks events (s.accepted env now run runId orgId projectId events) := by
  rcases appendEvents_cases env now s runId orgId projectId events with
    ⟨run, r, hreturned⟩ | ⟨⟨e, herror⟩, _⟩
  · exact ⟨run, r, hreturned, Except.ok.inj (h.symm.trans hreturned.result)⟩
  · rw [herror] at h
    cases h

/-- A torn marker is no change of the database. -/
theorem Store.applyUntil_eq (s : Store) (effects : List Effect) (stop : Stop) :
    (s.applyUntil effects stop).rocks = (s.applyAll (effects.take stop.done)).rocks ∧
      (s.applyUntil effects stop).globalSeq = (s.applyAll (effects.take stop.done)).globalSeq := by
  unfold applyUntil
  cases stop.tornMark effects with
  | none => exact ⟨rfl, rfl⟩
  | some torn =>
      dsimp only
      unfold tearMark
      split_ifs <;> exact ⟨rfl, rfl⟩

/-- What becomes of the database and of the counter: nothing is written, or the batch of a call. -/
inductive Durable (env : Env) (s s' : Store) : Option Call → Prop
  | quiet {c : Option Call} (hrocks : s'.rocks = s.rocks)
      (hseq : s.globalSeq ≤ s'.globalSeq ∨ s'.globalSeq = s.rocks.globalSeq.getD 0) :
      Durable env s s' c
  | committed {now : Nat → Int} {c : Call} {batch : List Put} {n : Nat}
      (hcommit : Commit env now s c batch n) (hrocks : s'.rocks = s.rocks.write batch)
      (hseq : s'.globalSeq = s.globalSeq + n) : Durable env s s' (some c)

theorem Durable.congr {env : Env} {s s' s'' : Store} {c : Option Call} (h : Durable env s s' c)
    (hrocks : s''.rocks = s'.rocks) (hseq : s''.globalSeq = s'.globalSeq) :
    Durable env s s'' c := by
  cases h with
  | quiet hr hs => exact .quiet (hrocks.trans hr) (hseq ▸ hs)
  | committed hcommit hr hs => exact .committed hcommit (hrocks.trans hr) (hseq.trans hs)

theorem durable_of_quiet {env : Env} {s : Store} {c : Option Call} {l : List Effect}
    (hl : l.all Effect.quiet = true) : Durable env s (s.applyAll l) c :=
  have h := Store.applyAll_quiet (s := s) hl
  .quiet h.1 (.inl h.2)

/-- Stopping a call anywhere leaves its batch written or not. -/
theorem EffectShape.durable_take {env : Env} {now : Nat → Int} {s : Store} {c : Call}
    {effects : List Effect} (h : EffectShape env now s c effects) (k : Nat) :
    Durable env s (s.applyAll (effects.take k)) (some c) := by
  have htaken : ∀ {l : List Effect}, l.all Effect.quiet = true →
      (l.take k).all Effect.quiet = true := by
    intro l hl
    exact List.all_eq_true.2 fun e he => List.all_eq_true.1 hl e (List.mem_of_mem_take he)
  cases h with
  | nothing => simpa using durable_of_quiet (s := s) (l := []) rfl
  | logged hcommit hp hlogs =>
      match k with
      | 0 => exact durable_of_quiet rfl
      | 1 => exact durable_of_quiet rfl
      | 2 => exact .committed hcommit rfl rfl
      | k + 3 =>
          rw [List.take_of_length_le (Nat.le_add_left 3 k)]
          exact .committed hcommit rfl rfl
  | threw htail =>
      refine durable_of_quiet (htaken ?_)
      rcases htail with rfl | rfl <;> simp [eventEffects_quiet, Effect.quiet]
  | @appended es batch hcommit hes =>
      rcases Nat.lt_or_ge (eventEffects s.wal.lastSeq es).length k with hlt | hge
      · rw [List.take_of_length_le (by simpa using Nat.succ_le_of_lt hlt), Store.applyAll_append]
        have hquiet := Store.applyAll_quiet (s := s) (eventEffects_quiet s.wal.lastSeq es)
        refine .committed hcommit ?_ (globalSeq_eventEffects s _ es)
        simp [Store.applyAll, Store.apply, ← hquiet.1]
      · rw [List.take_append_of_le_length hge]
        exact durable_of_quiet (htaken (eventEffects_quiet _ _))

/-- The call of an action. -/
def Action.call? : Action → Option Call
  | call _ c => some c
  | stopped _ c _ => some c
  | reopen => none

theorem Action.durable (env : Env) (s : Store) (a : Action) :
    Durable env s (a.run env s) a.call? := by
  cases a with
  | call now c =>
      have h := (c.effects_shape env now s).durable_take (c.effects env now s).length
      rw [List.take_length] at h
      exact h
  | stopped now c stop =>
      have h := (c.effects_shape env now s).durable_take stop.done
      have heq := Store.applyUntil_eq s (c.effects env now s) stop
      exact h.congr heq.1 heq.2
  | reopen => exact .quiet rfl (.inr rfl)

theorem fetchRun_eq_ok {db : Rocks} {runId orgId projectId : Bytes} {run : AgentRun}
    (h : fetchRun db runId orgId projectId = .ok run) :
    storedRun db runId = some run ∧ run.orgId = orgId ∧ run.projectId = projectId := by
  unfold fetchRun at h
  cases hget : db.runs.get runId with
  | none => simp [hget] at h
  | some doc =>
      cases hdoc : jsonToRun doc with
      | error e => simp [hget, hdoc, Bind.bind, Except.bind] at h
      | ok run' =>
          by_cases hforbidden : run'.orgId ≠ orgId ∨ run'.projectId ≠ projectId
          · simp [hget, hdoc, Bind.bind, Except.bind, hforbidden] at h
          · rcases not_or.1 hforbidden with ⟨horg, hproject⟩
            have hrun : run' = run := by
              simpa [hget, hdoc, Bind.bind, Except.bind, hforbidden, pure, Except.pure] using h
            subst hrun
            simp [storedRun, hget, hdoc, Except.toOption, not_not.1 horg, not_not.1 hproject]

end ControlDB
