import ControlDB.Library.LinkedChain
import ControlDB.Collector.Services

/-!
# What one batch can do

`_persist_event` answers an event in one of three ways, and `AppendRun` lists the answers to a
batch.  Every fact about `append_events` is read off it: what the session holds afterwards, what
the rows it flushed look like, and which ids are returned.  The last section does the same for the
other calls that write.
-/

namespace ControlDB
namespace Collector

open Library Python

/-! ## Looking up -/

/-- Both carry the same idempotency key, which is not empty. -/
def SameKey (key key' : Option String) : Prop :=
  (truthy key).isSome = true ∧ key = key'

instance (key key' : Option String) : Decidable (SameKey key key') :=
  inferInstanceAs (Decidable (_ ∧ _))

theorem findByKey_eq_some {rows : List AuditEvent} {key : Option String} {e : AuditEvent}
    (h : findByKey rows key = some e) : e ∈ rows ∧ SameKey key e.idempotencyKey := by
  unfold findByKey at h
  cases key with
  | none => cases h
  | some k =>
      by_cases hk : k = ""
      · simp [truthy, hk] at h
      · have htruthy : truthy (some k) = some k := by simp [truthy, hk]
        simp only [htruthy] at h
        have hkey : e.idempotencyKey = some k := by simpa using List.find?_some h
        exact ⟨List.mem_of_find?_eq_some h, by simp [htruthy], hkey.symm⟩

theorem findByKey_eq_none {rows : List AuditEvent} {key : Option String}
    (h : findByKey rows key = none) {e : AuditEvent} (he : e ∈ rows) :
    ¬ SameKey key e.idempotencyKey := by
  rintro ⟨hsome, rfl⟩
  rcases Option.isSome_iff_exists.1 hsome with ⟨k, hk⟩
  have hkey : e.idempotencyKey = some k := by
    cases he' : e.idempotencyKey with
    | none => simp [he', truthy] at hk
    | some k' =>
        by_cases hempty : k' = ""
        · simp [he', truthy, hempty] at hk
        · simpa [he', truthy, hempty] using hk
  simp only [findByKey, hk] at h
  simpa [hkey] using List.find?_eq_none.1 h e he

theorem findById_eq_some {rows : List AuditEvent} {eventId : String} {e : AuditEvent}
    (h : findById rows eventId = some e) : e ∈ rows ∧ e.eventId = eventId :=
  ⟨List.mem_of_find?_eq_some h, by simpa using List.find?_some h⟩

theorem findByKey_append (rows rows' : List AuditEvent) (key : Option String) :
    findByKey (rows ++ rows') key = (findByKey rows key).or (findByKey rows' key) := by
  unfold findByKey
  cases truthy key with
  | none => rfl
  | some k => simp [List.find?_append]

/-! ## One event -/

/-- What a new row takes from the event, the run and the session. -/
structure RowOf (m : Moment) (i sequence : Nat) (principal : Principal) (run : AgentRun)
    (event : EventInput) (previousHash : Option String) (row : AuditEvent) : Prop where
  sequence : row.sequence = sequence
  eventId : row.eventId = resolvedEventId m i event
  orgId : row.orgId = principal.orgId
  projectId : row.projectId = principal.projectId
  runId : row.runId = run.runId
  eventType : row.eventType = event.eventType
  previousEventHash : row.previousEventHash = previousHash
  idempotencyKey : row.idempotencyKey = event.idempotencyKey

theorem newRow_spec {env : Env} {m : Moment} {i sequence : Nat} {principal : Principal}
    {run : AgentRun} {event : EventInput} {previousHash : Option String} {row : AuditEvent}
    (h : newRow env m i sequence principal run event previousHash = .ok row) :
    RowOf m i sequence principal run event previousHash row := by
  unfold newRow at h
  cases hhash : payloadHashOf env event with
  | error e => simp [hhash] at h
  | ok payloadHash =>
      simp only [hhash] at h
      split at h
      · cases h
        exact ⟨rfl, rfl, rfl, rfl, rfl, rfl, rfl, rfl⟩
      · cases h

/-- The three answers of `_persist_event`. -/
inductive Persisted (env : Env) (m : Moment) (i : Nat) (committed : Database) (sequence : Nat)
    (principal : Principal) (s : AppendSession) (event : EventInput)
    (previousHash : Option String) : AppendSession → AuditEvent → Prop
  | replayed {existing : AuditEvent}
      (hfind : findByKey (s.visible committed) event.idempotencyKey = some existing) :
      Persisted env m i committed sequence principal s event previousHash s existing
  | recovered {row existing : AuditEvent} {run : AgentRun}
      (hnone : findByKey (s.visible committed) event.idempotencyKey = none)
      (hrow : newRow env m i sequence principal s.run event previousHash = .ok row)
      (hclash : Clashes (s.visible committed) row)
      (hfind : findById committed.auditEvents row.eventId = some existing)
      (hrun : committed.agentRuns.get s.run.runId = some run) :
      Persisted env m i committed sequence principal s event previousHash
        { loaded := run, run := run } existing
  | stored {row : AuditEvent}
      (hnone : findByKey (s.visible committed) event.idempotencyKey = none)
      (hrow : newRow env m i sequence principal s.run event previousHash = .ok row)
      (hfree : ¬ Clashes (s.visible committed) row) :
      Persisted env m i committed sequence principal s event previousHash
        { s with run := updateStatus s.run row, flushed := s.flushed ++ [row] } row

theorem persisted_of_ok {env : Env} {m : Moment} {i : Nat} {committed : Database} {sequence : Nat}
    {principal : Principal} {s s' : AppendSession} {event : EventInput}
    {previousHash : Option String} {storedId eventHash : String}
    (h : persistEvent env m i committed sequence principal s event previousHash =
      .ok (s', storedId, eventHash)) :
    ∃ answer, Persisted env m i committed sequence principal s event previousHash s' answer ∧
      storedId = answer.eventId ∧ eventHash = answer.eventHash := by
  unfold persistEvent at h
  split_ifs at h with htype
  -- the key is looked up first; only an unknown one leads to an insert
  cases hkey : findByKey (s.visible committed) event.idempotencyKey with
  | some existing =>
      simp only [hkey, Except.ok.injEq, Prod.mk.injEq] at h
      rcases h with ⟨rfl, rfl, rfl⟩
      exact ⟨existing, .replayed hkey, rfl, rfl⟩
  | none =>
      simp only [hkey] at h
      cases hrow : newRow env m i sequence principal s.run event previousHash with
      | error e => simp [hrow, Bind.bind, Except.bind] at h
      | ok row =>
          simp only [hrow, Bind.bind, Except.bind] at h
          split_ifs at h with hclash
          · -- the flush failed: the row of the same id answers, if it is committed
            cases hfind : findById committed.auditEvents row.eventId with
            | none => simp [hfind] at h
            | some existing =>
                cases hrun : committed.agentRuns.get s.run.runId with
                | none => simp [hfind, hrun] at h
                | some run =>
                    simp only [hfind, hrun, pure, Except.pure, Except.ok.injEq,
                      Prod.mk.injEq] at h
                    rcases h with ⟨rfl, rfl, rfl⟩
                    exact ⟨existing, .recovered hkey hrow hclash hfind hrun, rfl, rfl⟩
          · simp only [pure, Except.pure, Except.ok.injEq, Prod.mk.injEq] at h
            rcases h with ⟨rfl, rfl, rfl⟩
            exact ⟨row, .stored hkey hrow hclash, rfl, rfl⟩

/-! ## A batch -/

/-- The answers to the events numbered from `i` on, and the session before and after. -/
inductive AppendRun (env : Env) (m : Moment) (committed : Database) (principal : Principal) :
    Nat → List EventInput → AppendSession → Option String →
      AppendSession → Option String → List AuditEvent → Prop
  | nil {i : Nat} {s : AppendSession} {previousHash : Option String} :
      AppendRun env m committed principal i [] s previousHash s previousHash []
  | cons {i : Nat} {event : EventInput} {rest : List EventInput} {s s₁ s' : AppendSession}
      {previousHash lastHash : Option String} {answer : AuditEvent} {answers : List AuditEvent}
      (hfirst : Persisted env m i committed (nextSequence (m.skipped i) (s.visible committed))
        principal s event previousHash s₁ answer)
      (hrest : AppendRun env m committed principal (i + 1) rest s₁ (some answer.eventHash)
        s' lastHash answers) :
      AppendRun env m committed principal i (event :: rest) s previousHash s' lastHash
        (answer :: answers)

theorem appendRun_of_ok {env : Env} {m : Moment} {committed : Database} {principal : Principal}
    {i : Nat} {events : List EventInput} {s s' : AppendSession}
    {previousHash lastHash : Option String} {ids : List String}
    (h : appendLoop env m committed principal i events s previousHash = .ok (s', lastHash, ids)) :
    ∃ answers, AppendRun env m committed principal i events s previousHash s' lastHash answers ∧
      ids = answers.map AuditEvent.eventId := by
  induction events generalizing i s previousHash ids with
  | nil =>
      simp only [appendLoop, Except.ok.injEq, Prod.mk.injEq] at h
      rcases h with ⟨rfl, rfl, rfl⟩
      exact ⟨[], .nil, rfl⟩
  | cons event rest ih =>
      unfold appendLoop at h
      cases hfirst : persistEvent env m i committed
          (nextSequence (m.skipped i) (s.visible committed)) principal s event previousHash with
      | error e => simp [hfirst, Bind.bind, Except.bind] at h
      | ok out =>
          rcases out with ⟨s₁, storedId, hash⟩
          simp only [hfirst, Bind.bind, Except.bind] at h
          cases hrest : appendLoop env m committed principal (i + 1) rest s₁ (some hash) with
          | error e => simp [hrest] at h
          | ok out =>
              rcases out with ⟨s₂, last, restIds⟩
              simp only [hrest, pure, Except.pure, Except.ok.injEq, Prod.mk.injEq] at h
              rcases h with ⟨rfl, rfl, rfl⟩
              -- the answer is the row, of which the loop keeps id and hash
              rcases persisted_of_ok hfirst with ⟨answer, hanswer, rfl, rfl⟩
              rcases ih hrest with ⟨answers, hanswers, rfl⟩
              exact ⟨answer :: answers, .cons hanswer hanswers, rfl⟩

theorem authorizeRun_eq_ok {db : Database} {principal : Principal} {runId : String}
    {run : AgentRun} (h : authorizeRun db principal runId = .ok run) :
    db.agentRuns.get runId = some run ∧ run.orgId = principal.orgId ∧
      run.projectId = principal.projectId := by
  unfold authorizeRun at h
  cases hget : db.agentRuns.get runId with
  | none => simp [hget] at h
  | some run' =>
      simp only [hget] at h
      split_ifs at h with hforbidden
      rcases not_or.1 hforbidden with ⟨horg, hproject⟩
      cases h
      exact ⟨rfl, not_not.1 horg, not_not.1 hproject⟩

/-- A call that returns: nothing to do, or a batch was answered and committed. -/
inductive Appended (env : Env) (m : Moment) (db : Database) (principal : Principal)
    (runId : String) : List EventInput → Database → List String → Prop
  | empty : Appended env m db principal runId [] db []
  | batch {events : List EventInput} {run : AgentRun} {s : AppendSession}
      {lastHash : Option String} {answers : List AuditEvent}
      (hrun : db.agentRuns.get runId = some run) (horg : run.orgId = principal.orgId)
      (hproject : run.projectId = principal.projectId) (hne : events ≠ [])
      (hanswers : AppendRun env m db principal 0 events { loaded := run, run := run }
        run.lastEventHash s lastHash answers) :
      Appended env m db principal runId events ((s.finish lastHash answers.length).commit db)
        (answers.map AuditEvent.eventId)

theorem appended_of_ok {env : Env} {m : Moment} {db db' : Database} {principal : Principal}
    {runId : String} {events : List EventInput} {ids : List String}
    (h : appendEvents env m db principal runId events = .ok (db', ids)) :
    Appended env m db principal runId events db' ids := by
  unfold appendEvents at h
  split_ifs at h with hempty
  · simp only [Except.ok.injEq, Prod.mk.injEq] at h
    rcases h with ⟨rfl, rfl⟩
    rw [List.isEmpty_iff.1 hempty]
    exact .empty
  · cases hauth : authorizeRun db principal runId with
    | error e => simp [hauth, Bind.bind, Except.bind] at h
    | ok run =>
        simp only [hauth, Bind.bind, Except.bind] at h
        cases hloop : appendLoop env m db principal 0 events { loaded := run, run := run }
            run.lastEventHash with
        | error e => simp [hloop] at h
        | ok out =>
            rcases out with ⟨s, lastHash, ids'⟩
            simp only [hloop, pure, Except.pure, Except.ok.injEq, Prod.mk.injEq] at h
            rcases h with ⟨rfl, rfl⟩
            -- the run row was found under the tenant of the principal
            rcases authorizeRun_eq_ok hauth with ⟨hrun, horg, hproject⟩
            rcases appendRun_of_ok hloop with ⟨answers, hanswers, rfl⟩
            rw [List.length_map]
            exact .batch hrun horg hproject (by simpa using hempty) hanswers

theorem AppendRun.length {env : Env} {m : Moment} {committed : Database} {principal : Principal}
    {i : Nat} {events : List EventInput} {s s' : AppendSession}
    {previousHash lastHash : Option String} {answers : List AuditEvent}
    (h : AppendRun env m committed principal i events s previousHash s' lastHash answers) :
    answers.length = events.length := by
  induction h with
  | nil => rfl
  | cons _ _ ih => simp [ih]

/-! ## The other writes -/

section Writes

variable {env : Env} {m : Moment} {db db' : Database} {principal : Principal}

/-- What `start_run` does with an id when it returns: the run of that id is there, or it is new. -/
inductive RunStarted (db : Database) (principal : Principal) (runId : String) :
    Database → StartedRun → Prop
  | there {run : AgentRun} (hget : db.agentRuns.get runId = some run) :
      RunStarted db principal runId db
        { runId := run.runId, status := run.status, alreadyStarted := true }
  | opened {run : AgentRun} (hget : db.agentRuns.get runId = none) (hkey : run.runId = runId)
      (horg : run.orgId = principal.orgId) (hproject : run.projectId = principal.projectId)
      (hhash : run.lastEventHash = none) (hcount : run.eventCount = 0) :
      RunStarted db principal runId { db with agentRuns := db.agentRuns.put runId run }
        { runId, status := run.status }

theorem runStarted_of_ok {runId : Option String} {agentId environment : String}
    {agentVersion : Option String} {metadata : List (String × PyJson)} {out : StartedRun}
    (h : startRun env m db principal runId agentId agentVersion environment metadata =
      .ok (db', out)) :
    RunStarted db principal ((truthy runId).getD ("run_" ++ m.ulid 0)) db' out := by
  unfold startRun at h
  split_ifs at h with hagent
  dsimp only at h
  cases hget : db.agentRuns.get ((truthy runId).getD ("run_" ++ m.ulid 0)) with
  | some existing =>
      simp only [hget, Except.ok.injEq, Prod.mk.injEq] at h
      rcases h with ⟨rfl, rfl⟩
      exact .there hget
  | none =>
      simp only [hget, Except.ok.injEq, Prod.mk.injEq] at h
      rcases h with ⟨rfl, rfl⟩
      exact .opened hget rfl rfl rfl rfl rfl

/-- What a call that ends a run does when it returns: a run of the principal has another status, end
and metadata. -/
inductive RunEnded (db : Database) (principal : Principal) (runId : String) :
    Database → StartedRun → Prop
  | mk {run : AgentRun} (hrun : db.agentRuns.get runId = some run)
      (horg : run.orgId = principal.orgId) (hproject : run.projectId = principal.projectId)
      (status : String) (endedAt : Option DateTime) (metadataJson : List (String × PyJson)) :
      RunEnded db principal runId
        { db with
          agentRuns := db.agentRuns.put runId { run with status, endedAt, metadataJson } }
        { runId, status }

theorem runEnded_of_commitRun {runId : String} {out : StartedRun}
    (h : commitRun env m db principal runId = .ok (db', out)) :
    RunEnded db principal runId db' out := by
  unfold commitRun at h
  cases hauth : authorizeRun db principal runId with
  | error e => simp [hauth, Bind.bind, Except.bind] at h
  | ok run =>
      rcases authorizeRun_eq_ok hauth with ⟨hrun, horg, hproject⟩
      simp only [hauth, Bind.bind, Except.bind, pure, Except.pure, Except.ok.injEq,
        Prod.mk.injEq] at h
      rcases h with ⟨rfl, rfl⟩
      exact .mk hrun horg hproject _ _ run.metadataJson

theorem runEnded_of_rollbackRun {runId : String} {reason : Option String} {out : StartedRun}
    (h : rollbackRun env m db principal runId reason = .ok (db', out)) :
    RunEnded db principal runId db' out := by
  unfold rollbackRun at h
  cases hauth : authorizeRun db principal runId with
  | error e => simp [hauth, Bind.bind, Except.bind] at h
  | ok run =>
      rcases authorizeRun_eq_ok hauth with ⟨hrun, horg, hproject⟩
      simp only [hauth, Bind.bind, Except.bind, pure, Except.pure, Except.ok.injEq,
        Prod.mk.injEq] at h
      rcases h with ⟨rfl, rfl⟩
      exact .mk hrun horg hproject _ _ _

/-- What `request_approval` does with an id when it returns. -/
inductive ApprovalRequested (db : Database) (principal : Principal) (approvalId : String) :
    Database → ApprovalDict → Prop
  | there {row : Approval} (hget : db.approvals.get approvalId = some row) :
      ApprovalRequested db principal approvalId db (approvalToDict row)
  | opened {row : Approval} (hget : db.approvals.get approvalId = none)
      (hkey : row.approvalId = approvalId) (horg : row.orgId = principal.orgId)
      (hproject : row.projectId = principal.projectId) :
      ApprovalRequested db principal approvalId
        { db with approvals := db.approvals.put approvalId row }
        (approvalToDict { row with createdAt := none })

theorem approvalRequested_of_ok {body : ApprovalBody} {out : ApprovalDict}
    (h : requestApproval env m db principal body = .ok (db', out)) :
    ApprovalRequested db principal ((truthy body.approvalId).getD ("appr_" ++ m.ulid 0)) db'
      out := by
  unfold requestApproval at h
  dsimp only at h
  cases hget : db.approvals.get ((truthy body.approvalId).getD ("appr_" ++ m.ulid 0)) with
  | some existing =>
      simp only [hget, Except.ok.injEq, Prod.mk.injEq] at h
      rcases h with ⟨rfl, rfl⟩
      exact .there hget
  | none =>
      simp only [hget, Except.ok.injEq, Prod.mk.injEq] at h
      rcases h with ⟨rfl, rfl⟩
      exact .opened hget rfl rfl rfl

/-- What `decide_approval` does when it returns: the tenant was checked before the row is changed. -/
inductive ApprovalDecided (m : Moment) (db : Database) (principal : Principal)
    (approvalId : String) : Database → ApprovalDict → Prop
  | mk {row row' : Approval} (hget : db.approvals.get approvalId = some row)
      (horg : row.orgId = principal.orgId) (hproject : row.projectId = principal.projectId)
      (hsame : row'.approvalId = row.approvalId ∧ row'.orgId = row.orgId ∧
        row'.projectId = row.projectId) :
      ApprovalDecided m db principal approvalId
        { db with approvals := db.approvals.put approvalId row' }
        (approvalToDict { row' with decidedAt := some (m.now 0) })

theorem approvalDecided_of_ok {approvalId decision reviewerId : String} {reason : Option String}
    {out : ApprovalDict}
    (h : decideApproval env m db principal approvalId decision reviewerId reason =
      .ok (db', out)) : ApprovalDecided m db principal approvalId db' out := by
  unfold decideApproval at h
  split_ifs at h with hdecision
  cases hget : db.approvals.get approvalId with
  | none => simp [hget] at h
  | some row =>
      simp only [hget] at h
      split_ifs at h with hforbidden
      rcases not_or.1 hforbidden with ⟨horg, hproject⟩
      simp only [Except.ok.injEq, Prod.mk.injEq] at h
      rcases h with ⟨rfl, rfl⟩
      exact .mk hget (not_not.1 horg) (not_not.1 hproject) ⟨rfl, rfl, rfl⟩

end Writes

end Collector
end ControlDB
