import ControlDB.Collector.Append

/-!
# The collector's database invariant

`Change` lists the ways in which a request of a principal can change the database, and `Sound` is
what every one of them keeps: rows stand under their own key, each event belongs to a run of its
tenant, and the events have increasing sequence numbers and respect the two unique columns.
-/

namespace ControlDB
namespace Collector

open Library Python

/-! ## Rows and tenants -/

def AgentRun.BelongsTo (r : AgentRun) (principal : Principal) : Prop :=
  r.orgId = principal.orgId ∧ r.projectId = principal.projectId

def AuditEvent.BelongsTo (e : AuditEvent) (principal : Principal) : Prop :=
  e.orgId = principal.orgId ∧ e.projectId = principal.projectId

def Approval.BelongsTo (a : Approval) (principal : Principal) : Prop :=
  a.orgId = principal.orgId ∧ a.projectId = principal.projectId

instance (r : AgentRun) (principal : Principal) : Decidable (r.BelongsTo principal) :=
  inferInstanceAs (Decidable (_ ∧ _))

instance (e : AuditEvent) (principal : Principal) : Decidable (e.BelongsTo principal) :=
  inferInstanceAs (Decidable (_ ∧ _))

instance (a : Approval) (principal : Principal) : Decidable (a.BelongsTo principal) :=
  inferInstanceAs (Decidable (_ ∧ _))

/-- Two rows that both fit the unique columns. -/
def Apart (a b : AuditEvent) : Prop :=
  a.eventId ≠ b.eventId ∧ (b.idempotencyKey.isSome = true → a.idempotencyKey ≠ b.idempotencyKey)

theorem apart_of_not_clashes {rows : List AuditEvent} {row : AuditEvent} (h : ¬ Clashes rows row) :
    ∀ e ∈ rows, Apart e row := by
  intro e he
  refine ⟨fun hid => h ⟨e, he, .inl hid⟩, fun hsome hkey => h ⟨e, he, .inr ⟨hkey, hsome⟩⟩⟩

structure Sound (db : Database) : Prop where
  runKey : ∀ {k r}, db.agentRuns.get k = some r → r.runId = k
  approvalKey : ∀ {k a}, db.approvals.get k = some a → a.approvalId = k
  eventRun : ∀ e ∈ db.auditEvents, ∃ r, db.agentRuns.get e.runId = some r ∧
    r.orgId = e.orgId ∧ r.projectId = e.projectId
  sorted : db.auditEvents.Pairwise fun a b => a.sequence < b.sequence
  distinct : db.auditEvents.Pairwise Apart

theorem sound_empty : Sound {} where
  runKey := by simp
  approvalKey := by simp
  eventRun := by simp
  sorted := .nil
  distinct := .nil

theorem runEvents_eq_filter {db : Database} {runId : String}
    (hsorted : (db.auditEvents.filter fun e => decide (e.runId = runId)).Pairwise
      fun a b => a.sequence < b.sequence) :
    runEvents db runId = db.auditEvents.filter fun e => decide (e.runId = runId) :=
  (hsorted.imp fun h => h.le).insertionSort_eq

/-- The events of a run are already in order. -/
theorem Sound.runEvents_eq {db : Database} (hdb : Sound db) (runId : String) :
    runEvents db runId = db.auditEvents.filter fun e => decide (e.runId = runId) :=
  runEvents_eq_filter (hdb.sorted.filter _)

/-! ## The session of `append_events` -/

/-- What every answer keeps of the session that appends to `run`. -/
structure SessionInv (committed : Database) (principal : Principal) (run : AgentRun)
    (s : AppendSession) : Prop where
  loaded : s.loaded = run
  sameRun : s.run = { run with status := s.run.status, endedAt := s.run.endedAt }
  own : ∀ e ∈ s.flushed, e.runId = run.runId ∧ e.BelongsTo principal
  sorted : (s.visible committed).Pairwise fun a b => a.sequence < b.sequence
  distinct : (s.visible committed).Pairwise Apart

theorem sessionInv_load {db : Database} (hdb : Sound db) (principal : Principal) (run : AgentRun) :
    SessionInv db principal run { loaded := run, run := run } where
  loaded := rfl
  sameRun := rfl
  own := by simp
  sorted := by simpa [AppendSession.visible] using hdb.sorted
  distinct := by simpa [AppendSession.visible] using hdb.distinct

theorem lt_nextSequence {skipped : Nat} {rows : List AuditEvent} {e : AuditEvent} (he : e ∈ rows) :
    e.sequence < nextSequence skipped rows := by
  -- the running maximum is above its start and all that was passed
  have hfold : ∀ (l : List AuditEvent) (init : Nat),
      init ≤ l.foldl (fun n e => max n e.sequence) init ∧
        ∀ e ∈ l, e.sequence ≤ l.foldl (fun n e => max n e.sequence) init := by
    intro l
    induction l with
    | nil => simp
    | cons d l ih =>
        intro init
        rcases ih (max init d.sequence) with ⟨hinit, hmem⟩
        refine ⟨le_trans (le_max_left _ _) hinit, ?_⟩
        intro e he
        rcases List.mem_cons.1 he with rfl | htail
        · exact le_trans (le_max_right _ _) hinit
        · exact hmem e htail
  have hle := (hfold rows 0).2 e he
  unfold nextSequence
  omega

theorem updateStatus_same (run : AgentRun) (row : AuditEvent) :
    updateStatus run row = { run with
      status := (updateStatus run row).status
      endedAt := (updateStatus run row).endedAt } := by
  unfold updateStatus
  split_ifs <;> rfl

/-- Step lemma: an answer keeps the session's invariant. -/
theorem Persisted.sessionInv {env : Env} {m : Moment} {i skipped : Nat} {committed : Database}
    {principal : Principal} {run : AgentRun} {s s' : AppendSession} {event : EventInput}
    {previousHash : Option String} {answer : AuditEvent} (hdb : Sound committed)
    (hrun : committed.agentRuns.get run.runId = some run)
    (hs : SessionInv committed principal run s)
    (h : Persisted env m i committed (nextSequence skipped (s.visible committed)) principal s event
      previousHash s' answer) : SessionInv committed principal run s' := by
  have hid : s.run.runId = run.runId := by rw [hs.sameRun]
  cases h with
  | replayed hfind => exact hs
  | @recovered row existing run' hnone hrow hclash hfind hreload =>
      -- after the rollback the run is read again
      have hsame : run' = run := by
        rw [hid, hrun] at hreload
        exact (Option.some.inj hreload).symm
      rw [hsame]
      exact sessionInv_load hdb principal run
  | stored hnone hrow hfree =>
      have hspec := newRow_spec hrow
      -- the new row comes last in what the transaction sees
      have hvisible : AppendSession.visible
          { s with run := updateStatus s.run answer, flushed := s.flushed ++ [answer] } committed =
            s.visible committed ++ [answer] := by simp [AppendSession.visible]
      have hlast : ∀ {R : AuditEvent → AuditEvent → Prop}, (s.visible committed).Pairwise R →
          (∀ e ∈ s.visible committed, R e answer) → (s.visible committed ++ [answer]).Pairwise R := by
        intro R hpair hrow
        refine List.pairwise_append.2 ⟨hpair, List.pairwise_singleton R answer, ?_⟩
        intro e he f hf
        rw [List.mem_singleton.1 hf]
        exact hrow e he
      refine ⟨hs.loaded, ?_, ?_, ?_, ?_⟩
      · rw [updateStatus_same, hs.sameRun]
      · intro e he
        rcases List.mem_append.1 he with hold | hnew
        · exact hs.own e hold
        · rw [List.mem_singleton.1 hnew]
          exact ⟨hspec.runId.trans hid, hspec.orgId, hspec.projectId⟩
      · rw [hvisible]
        refine hlast hs.sorted fun e he => ?_
        rw [hspec.sequence]
        exact lt_nextSequence he
      · rw [hvisible]
        exact hlast hs.distinct (apart_of_not_clashes hfree)

theorem AppendRun.sessionInv {env : Env} {m : Moment} {committed : Database}
    {principal : Principal} {run : AgentRun} {i : Nat} {events : List EventInput}
    {s s' : AppendSession} {previousHash lastHash : Option String} {answers : List AuditEvent}
    (hdb : Sound committed) (hrun : committed.agentRuns.get run.runId = some run)
    (h : AppendRun env m committed principal i events s previousHash s' lastHash answers)
    (hs : SessionInv committed principal run s) : SessionInv committed principal run s' := by
  induction h with
  | nil => exact hs
  | cons hfirst _ ih => exact ih (hfirst.sessionInv hdb hrun hs)

/-- The run as a batch leaves it. -/
def AppendSession.finalRun (s : AppendSession) (run : AgentRun) (lastHash : Option String)
    (accepted : Nat) : AgentRun :=
  { run with
    status := s.run.status
    endedAt := s.run.endedAt
    lastEventHash := lastHash
    eventCount := run.eventCount + accepted }

/-- With nobody else writing, the commit stores the session's run and rows. -/
theorem SessionInv.commit_eq {db : Database} {principal : Principal} {run : AgentRun}
    {s : AppendSession} (hs : SessionInv db principal run s)
    (hrun : db.agentRuns.get run.runId = some run) (lastHash : Option String) (accepted : Nat) :
    (s.finish lastHash accepted).commit db =
      { db with
        agentRuns := db.agentRuns.put run.runId (s.finalRun run lastHash accepted)
        auditEvents := db.auditEvents ++ s.flushed } := by
  have hid : s.run.runId = run.runId := by rw [hs.sameRun]
  have hcount : s.run.eventCount = run.eventCount := by rw [hs.sameRun]
  -- a column is written where it has changed, which stores the session's value in any case
  have hkeep : ∀ {α : Type} [DecidableEq α] (x y : α), (if x = y then y else x) = x := by
    intro α _ x y
    split_ifs with h
    · exact h.symm
    · rfl
  simp only [AppendSession.commit, AppendSession.finish, hid, hrun, writeBack, hs.loaded, hcount,
    hkeep, AppendSession.finalRun]

/-! ## What a request can change -/

/-- A change by a principal that stores no event. -/
inductive Quiet (principal : Principal) (db : Database) : Database → Prop
  | openRun {k : String} {r : AgentRun} (hnew : db.agentRuns.get k = none) (hkey : r.runId = k)
      (hown : r.BelongsTo principal) (hhash : r.lastEventHash = none) (hcount : r.eventCount = 0) :
      Quiet principal db { db with agentRuns := db.agentRuns.put k r }
  | updateRun {k : String} {run r : AgentRun} (hrun : db.agentRuns.get k = some run)
      (hown : run.BelongsTo principal)
      (hsame : r = { run with
        status := r.status, endedAt := r.endedAt, metadataJson := r.metadataJson }) :
      Quiet principal db { db with agentRuns := db.agentRuns.put k r }
  | approval {k : String} {a : Approval} (hkey : a.approvalId = k) (hown : a.BelongsTo principal)
      (hold : ∀ old, db.approvals.get k = some old → old.BelongsTo principal) :
      Quiet principal db { db with approvals := db.approvals.put k a }
  | export {k : String} {row : EvidenceExport} :
      Quiet principal db { db with evidenceExports := db.evidenceExports.put k row }

/-- One change of the database by a principal. -/
inductive Change (env : Env) (principal : Principal) (db : Database) : Database → Prop
  | quiet {db' : Database} (h : Quiet principal db db') : Change env principal db db'
  | append {m : Moment} {events : List EventInput} {run : AgentRun} {s : AppendSession}
      {lastHash : Option String} {answers : List AuditEvent}
      (hrun : db.agentRuns.get run.runId = some run) (hown : run.BelongsTo principal)
      (hanswers : AppendRun env m db principal 0 events { loaded := run, run := run }
        run.lastEventHash s lastHash answers) (hs : SessionInv db principal run s) :
      Change env principal db
        { db with
          agentRuns := db.agentRuns.put run.runId (s.finalRun run lastHash answers.length)
          auditEvents := db.auditEvents ++ s.flushed }

section Changes

variable {env : Env} {principal : Principal} {db db' : Database}

/-- Rewriting a run under its own key keeps the run of every event. -/
theorem Sound.eventRun_put (hdb : Sound db) {k : String} {run r : AgentRun}
    (hrun : db.agentRuns.get k = some run) (horg : r.orgId = run.orgId)
    (hproject : r.projectId = run.projectId) {e : AuditEvent} (he : e ∈ db.auditEvents) :
    ∃ r', (db.agentRuns.put k r).get e.runId = some r' ∧
      r'.orgId = e.orgId ∧ r'.projectId = e.projectId := by
  rcases hdb.eventRun e he with ⟨old, hold, horg', hproject'⟩
  rw [SortedMap.get_put]
  split_ifs with hid
  · have hsame : old = run := by
      rw [hid, hrun] at hold
      exact (Option.some.inj hold).symm
    exact ⟨r, rfl, horg.trans (hsame ▸ horg'), hproject.trans (hsame ▸ hproject')⟩
  · exact ⟨old, hold, horg', hproject'⟩

theorem Sound.runKey_put (hdb : Sound db) {k k' : String} {r r' : AgentRun} (hkey : r.runId = k)
    (h : (db.agentRuns.put k r).get k' = some r') : r'.runId = k' := by
  rw [SortedMap.get_put] at h
  split_ifs at h with hk
  · cases h
    exact hkey.trans hk.symm
  · exact hdb.runKey h

theorem Quiet.sound (hdb : Sound db) (h : Quiet principal db db') : Sound db' := by
  cases h with
  | @openRun k r hnew hkey hown hhash hcount =>
      refine { hdb with runKey := hdb.runKey_put hkey, eventRun := ?_ }
      intro e he
      rcases hdb.eventRun e he with ⟨old, hold, hsame⟩
      -- the events of a run that is opened now would have no run
      have hne : e.runId ≠ k := by
        intro hid
        rw [hid, hnew] at hold
        cases hold
      exact ⟨old, by rw [SortedMap.get_put_of_ne _ _ hne, hold], hsame⟩
  | @updateRun k run r hrun hown hsame =>
      have hkey : r.runId = k := by
        have hrunKey := hdb.runKey hrun
        rw [hsame]
        exact hrunKey
      have horg : r.orgId = run.orgId := by rw [hsame]
      have hproject : r.projectId = run.projectId := by rw [hsame]
      exact { hdb with
        runKey := hdb.runKey_put hkey
        eventRun := fun e he => hdb.eventRun_put hrun horg hproject he }
  | @approval k a hkey hown hold =>
      refine { hdb with approvalKey := ?_ }
      intro k' a' ha'
      dsimp only at ha'
      rw [SortedMap.get_put] at ha'
      split_ifs at ha' with hk
      · cases ha'
        exact hkey.trans hk.symm
      · exact hdb.approvalKey ha'
  | «export» => exact { hdb with }

/-- Step lemma. -/
theorem Change.sound (hdb : Sound db) (h : Change env principal db db') : Sound db' := by
  cases h with
  | quiet h => exact h.sound hdb
  | @append m events run s lastHash answers hrun hown hanswers hs =>
      refine ⟨?_, hdb.approvalKey, ?_, hs.sorted, hs.distinct⟩
      · exact fun h => hdb.runKey_put (r := s.finalRun run lastHash answers.length) rfl h
      · intro e he
        rcases List.mem_append.1 he with hold | hnew
        · exact hdb.eventRun_put (r := s.finalRun run lastHash answers.length) hrun rfl rfl hold
        · rcases hs.own e hnew with ⟨hid, horg, hproject⟩
          refine ⟨s.finalRun run lastHash answers.length, ?_, hown.1.trans horg.symm,
            hown.2.trans hproject.symm⟩
          rw [hid, SortedMap.get_put_self]

/-! ### The services -/

theorem RunStarted.change {runId : String} {out : StartedRun}
    (h : RunStarted db principal runId db' out) : db' = db ∨ Quiet principal db db' := by
  cases h with
  | there hget => exact .inl rfl
  | opened hget hkey horg hproject hhash hcount =>
      exact .inr (.openRun hget hkey ⟨horg, hproject⟩ hhash hcount)

theorem RunEnded.change {runId : String} {out : StartedRun}
    (h : RunEnded db principal runId db' out) : Quiet principal db db' := by
  cases h with
  | mk hrun horg hproject status endedAt metadataJson =>
      exact .updateRun hrun ⟨horg, hproject⟩ rfl

theorem Appended.change {m : Moment} {runId : String} {events : List EventInput}
    {ids : List String} (hdb : Sound db) (h : Appended env m db principal runId events db' ids) :
    db' = db ∨ Change env principal db db' := by
  cases h with
  | empty => exact .inl rfl
  | @batch _ run s lastHash answers hrun horg hproject hne hanswers =>
      obtain rfl := hdb.runKey hrun
      have hs := hanswers.sessionInv hdb hrun (sessionInv_load hdb principal run)
      rw [hs.commit_eq hrun]
      exact .inr (.append hrun ⟨horg, hproject⟩ hanswers hs)

theorem ApprovalRequested.change {approvalId : String} {out : ApprovalDict}
    (h : ApprovalRequested db principal approvalId db' out) :
    db' = db ∨ Quiet principal db db' := by
  cases h with
  | there hget => exact .inl rfl
  | opened hget hkey horg hproject =>
      refine .inr (.approval hkey ⟨horg, hproject⟩ fun old hold => ?_)
      rw [hget] at hold
      cases hold

theorem ApprovalDecided.change {m : Moment} {approvalId : String} {out : ApprovalDict}
    (hdb : Sound db) (h : ApprovalDecided m db principal approvalId db' out) :
    Quiet principal db db' := by
  cases h with
  | @mk row row' hget horg hproject hsame =>
      rcases hsame with ⟨hid, horg', hproject'⟩
      refine .approval (hid.trans (hdb.approvalKey hget))
        ⟨horg'.trans horg, hproject'.trans hproject⟩ fun old hold => ?_
      rw [hget] at hold
      exact Option.some.inj hold ▸ ⟨horg, hproject⟩

theorem recordExport_change (env : Env) (m : Moment) (principal : Principal) (runId : String)
    (res : ExportResult) (hdb : Sound db) :
    recordExport env m db principal runId res = db ∨
      Change env principal db (recordExport env m db principal runId res) := by
  unfold recordExport
  cases happend : appendEvents env (m.later 2) db principal runId [exportEvent m res] with
  | error e => exact .inl rfl
  | ok out => exact (appended_of_ok happend).change hdb

/-- The parts of an export that returns. -/
theorem exportRun_eq_ok {m : Moment} {runId : String} {generatedBy : Option String}
    {res : ExportResult} {bundle : Bundle}
    (h : exportRun env m db principal runId generatedBy = .ok (db', res, bundle)) :
    ∃ run verification, db.agentRuns.get runId = some run ∧ run.BelongsTo principal ∧
      verify env db principal runId = .ok verification ∧
      bundle = makeBundle m ("exp_" ++ m.ulid 0) generatedBy run (runEvents db runId)
        (runApprovals db runId) verification ∧
      res = exportResult env m runId bundle ∧
      db' = recordExport env m { db with
          evidenceExports := db.evidenceExports.put res.exportId
            (exportRow env m principal runId generatedBy res) } principal runId res := by
  unfold exportRun at h
  cases hget : db.agentRuns.get runId with
  | none => simp [hget] at h
  | some run =>
      simp only [hget] at h
      -- `export_run` looks for the run itself, without `_authorize_run`
      split_ifs at h with hforbidden
      rcases not_or.1 hforbidden with ⟨horg, hproject⟩
      cases hverify : verify env db principal runId with
      | error e => simp [hverify] at h
      | ok verification =>
          simp only [hverify] at h
          split_ifs at h with htaken
          simp only [Except.ok.injEq, Prod.mk.injEq] at h
          rcases h with ⟨hdb', hres, hbundle⟩
          refine ⟨run, verification, rfl, ⟨not_not.1 horg, not_not.1 hproject⟩, rfl,
            hbundle.symm, ?_, ?_⟩
          · rw [← hres, ← hbundle]
          · rw [← hdb', ← hres]

theorem exportRun_changes {m : Moment} {runId : String} {generatedBy : Option String}
    {out : ExportResult × Bundle} (hdb : Sound db)
    (h : exportRun env m db principal runId generatedBy = .ok (db', out)) :
    Relation.ReflTransGen (Change env principal) db db' := by
  rcases out with ⟨res, bundle⟩
  rcases exportRun_eq_ok h with ⟨run, verification, hrun, hown, hverify, hbundle, hres, rfl⟩
  have hexport : Change env principal db { db with
      evidenceExports := db.evidenceExports.put res.exportId
        (exportRow env m principal runId generatedBy res) } := .quiet .export
  rcases recordExport_change env m principal runId res (hexport.sound hdb) with hsame | hchange
  · rw [hsame]
    exact .single hexport
  · exact .head hexport (.single hchange)

theorem changes_of_quiet (h : db' = db ∨ Quiet principal db db') :
    Relation.ReflTransGen (Change env principal) db db' := by
  rcases h with rfl | hquiet
  · exact .refl
  · exact .single (.quiet hquiet)

theorem changes_of_change (h : db' = db ∨ Change env principal db db') :
    Relation.ReflTransGen (Change env principal) db db' := by
  rcases h with rfl | hchange
  · exact .refl
  · exact .single hchange

/-- Every request is a sequence of changes by its principal. -/
theorem Request.perform_changes {r : Request} {answer : Answer} (hdb : Sound db)
    (h : r.perform env db = .ok (db', answer)) :
    Relation.ReflTransGen (Change env r.principal) db db' := by
  unfold Request.perform at h
  cases hcall : r.call with
  | startRun runId agentId agentVersion environment metadata =>
      rcases exists_of_map_eq_ok (by simpa only [hcall] using h) with ⟨⟨db₁, out⟩, hout, heq⟩
      cases heq
      exact changes_of_quiet (runStarted_of_ok hout).change
  | appendEvents runId events =>
      rcases exists_of_map_eq_ok (by simpa only [hcall] using h) with ⟨⟨db₁, out⟩, hout, heq⟩
      cases heq
      exact changes_of_change ((appended_of_ok hout).change hdb)
  | commitRun runId =>
      rcases exists_of_map_eq_ok (by simpa only [hcall] using h) with ⟨⟨db₁, out⟩, hout, heq⟩
      cases heq
      exact .single (.quiet (runEnded_of_commitRun hout).change)
  | rollbackRun runId reason =>
      rcases exists_of_map_eq_ok (by simpa only [hcall] using h) with ⟨⟨db₁, out⟩, hout, heq⟩
      cases heq
      exact .single (.quiet (runEnded_of_rollbackRun hout).change)
  | timeline runId limit cursor =>
      rcases exists_of_map_eq_ok (by simpa only [hcall] using h) with ⟨out, hout, heq⟩
      cases heq
      exact .refl
  | verify runId =>
      rcases exists_of_map_eq_ok (by simpa only [hcall] using h) with ⟨out, hout, heq⟩
      cases heq
      exact .refl
  | request body =>
      rcases exists_of_map_eq_ok (by simpa only [hcall] using h) with ⟨⟨db₁, out⟩, hout, heq⟩
      cases heq
      exact changes_of_quiet (approvalRequested_of_ok hout).change
  | decide approvalId decision reviewerId reason =>
      rcases exists_of_map_eq_ok (by simpa only [hcall] using h) with ⟨⟨db₁, out⟩, hout, heq⟩
      cases heq
      exact .single (.quiet ((approvalDecided_of_ok hout).change hdb))
  | pending =>
      simp only [hcall, Except.ok.injEq, Prod.mk.injEq] at h
      rw [h.1]
  | query body =>
      simp only [hcall, Except.ok.injEq, Prod.mk.injEq] at h
      rw [h.1]
  | exportRun runId generatedBy =>
      rcases exists_of_map_eq_ok (by simpa only [hcall] using h) with ⟨⟨db₁, out⟩, hout, heq⟩
      cases heq
      exact exportRun_changes hdb hout

theorem sound_of_changes (hdb : Sound db)
    (h : Relation.ReflTransGen (Change env principal) db db') : Sound db' := by
  induction h with
  | refl => exact hdb
  | tail _ hchange ih => exact hchange.sound ih

theorem Request.run_changes (hdb : Sound db) (r : Request) :
    Relation.ReflTransGen (Change env r.principal) db (r.run env db) := by
  unfold Request.run
  cases hperform : r.perform env db with
  | error e => exact .refl
  | ok out => exact r.perform_changes hdb hperform

end Changes

/-- Run lemma: every database that requests lead to is sound. -/
theorem sound_runRequests (env : Env) (requests : List Request) :
    Sound (runRequests env {} requests) :=
  List.foldlRecOn requests _ sound_empty fun _ hdb r _ => sound_of_changes hdb (r.run_changes hdb)

end Collector
end ControlDB
