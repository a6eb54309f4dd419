import ControlDB.Collector.Evidence
import ControlDB.Collector.RunRecord

/-!
# What a request changes

The change a request makes to the database, with the call that made it: which row was written, whose it
is, and which row of the caller had to be there.  Every request has such an effect (`Request.effect`), so
that what is shown of effects need not look at the services again.
-/

namespace ControlDB
namespace Collector

open Library Python

/-! ## Effects -/

/-- Rows are added to a run of the principal. -/
inductive Appends (db : Database) (principal : Principal) (runId : String)
    (events : List EventInput) : Database → Prop
  | mk {run r : AgentRun} {rows : List AuditEvent} (hrun : db.agentRuns.get runId = some run)
      (hown : run.BelongsTo principal) (hsame : r.BelongsTo principal)
      (hstatus : r.status = run.status ∨
        ∃ event ∈ events, collectorStatus event.eventType = some r.status)
      (hrows : ∀ e ∈ rows, e.runId = runId ∧ e.BelongsTo principal ∧
        ∃ event ∈ events, e.eventType = event.eventType ∧ e.idempotencyKey = event.idempotencyKey) :
      Appends db principal runId events
        { db with agentRuns := db.agentRuns.put runId r, auditEvents := db.auditEvents ++ rows }

/-- The database after a request, and the call that made the change. -/
inductive Effect (env : Env) (db : Database) (r : Request) : Database → Prop
  | nothing : Effect env db r db
  | started {runId : Option String} {agentId environment : String} {agentVersion : Option String}
      {metadata : List (String × PyJson)} {row : AgentRun}
      (hcall : r.call = .startRun runId agentId agentVersion environment metadata)
      (hnew : db.agentRuns.get ((truthy runId).getD ("run_" ++ r.moment.ulid 0)) = none)
      (hown : row.BelongsTo r.principal) (hstatus : row.status = "running") :
      Effect env db r { db with
        agentRuns := db.agentRuns.put ((truthy runId).getD ("run_" ++ r.moment.ulid 0)) row }
  | ended {runId : String} {run row : AgentRun} (hrun : db.agentRuns.get runId = some run)
      (hown : run.BelongsTo r.principal) (hsame : row.BelongsTo r.principal)
      (hcall : r.call = .commitRun runId ∧ row.status = "committed" ∨
        ∃ reason, r.call = .rollbackRun runId reason ∧ row.status = "rolled_back") :
      Effect env db r { db with agentRuns := db.agentRuns.put runId row }
  | appended {runId : String} {events : List EventInput} {db' : Database}
      (hcall : r.call = .appendEvents runId events)
      (happends : Appends db r.principal runId events db') : Effect env db r db'
  | requested {body : ApprovalBody} {row : Approval} (hcall : r.call = .request body)
      (hown : row.BelongsTo r.principal) (hstatus : row.status = "requested") :
      Effect env db r { db with
        approvals := db.approvals.put
          ((truthy body.approvalId).getD ("appr_" ++ r.moment.ulid 0)) row }
  | decided {approvalId decision reviewerId : String} {reason : Option String} {old row : Approval}
      (hcall : r.call = .decide approvalId decision reviewerId reason)
      (hold : db.approvals.get approvalId = some old) (hown : old.BelongsTo r.principal)
      (hsame : row.BelongsTo r.principal) (hstatus : row.status = decision)
      (hreviewer : row.reviewerId = some reviewerId) :
      Effect env db r { db with approvals := db.approvals.put approvalId row }
  | exported {runId : String} {generatedBy : Option String} {run : AgentRun}
      {row : EvidenceExport} {event : EventInput} {db' : Database}
      (hcall : r.call = .exportRun runId generatedBy) (hrun : db.agentRuns.get runId = some run)
      (hown : run.BelongsTo r.principal)
      (hrow : row.orgId = r.principal.orgId ∧ row.projectId = r.principal.projectId)
      (hnames : row.runId = runId ∧ row.generatedBy = generatedBy ∧
        row.bundleUri = bundlePath env runId)
      (htype : event.eventType = "evidence.export.completed")
      (hrest : db' = { db with evidenceExports := db.evidenceExports.put row.exportId row } ∨
        Appends { db with evidenceExports := db.evidenceExports.put row.exportId row }
          r.principal runId [event] db') :
      Effect env db r db'

section Effects

variable {env : Env} {m : Moment} {principal : Principal} {db db' : Database}

/-- A flushed row was flushed before, or is made of an event of the batch. -/
theorem AppendRun.flushed_of_event {i : Nat} {events : List EventInput} {s s' : AppendSession}
    {previousHash lastHash : Option String} {answers : List AuditEvent}
    (h : AppendRun env m db principal i events s previousHash s' lastHash answers)
    {e : AuditEvent} (he : e ∈ s'.flushed) :
    e ∈ s.flushed ∨
      ∃ event ∈ events, e.eventType = event.eventType ∧ e.idempotencyKey = event.idempotencyKey := by
  induction h with
  | nil => exact .inl he
  | @cons i event rest s s₁ s' previousHash lastHash answer answers hfirst hrest ih =>
      rcases ih he with hmiddle | ⟨later, hlater, hsame⟩
      · cases hfirst with
        | replayed hfind => exact .inl hmiddle
        | recovered => cases hmiddle
        | stored hnone hrow hfree =>
            rcases List.mem_append.1 hmiddle with hold | hnew
            · exact .inl hold
            · have hspec := newRow_spec hrow
              rw [List.mem_singleton.1 hnew]
              exact .inr ⟨event, List.mem_cons_self, hspec.eventType, hspec.idempotencyKey⟩
      · exact .inr ⟨later, List.mem_cons_of_mem _ hlater, hsame⟩

/-- The status is the one that was loaded, or that of an event of the batch. -/
theorem AppendRun.status_of_event {run : AgentRun} {i : Nat} {events : List EventInput}
    {s s' : AppendSession} {previousHash lastHash : Option String} {answers : List AuditEvent}
    {status : String} (hdb : Sound db) (hrun : db.agentRuns.get run.runId = some run)
    (h : AppendRun env m db principal i events s previousHash s' lastHash answers)
    (hs : SessionInv db principal run s) (hstatus : s'.run.status = status) :
    s.run.status = status ∨ run.status = status ∨
      ∃ event ∈ events, collectorStatus event.eventType = some status := by
  induction h with
  | nil => exact .inl hstatus
  | @cons i event rest s s₁ s' previousHash lastHash answer answers hfirst hrest ih =>
      rcases ih (hfirst.sessionInv hdb hrun hs) hstatus with hmiddle | hloaded | ⟨later, hlater, hset⟩
      · cases hfirst with
        | replayed hfind => exact .inl hmiddle
        | recovered hnone hrow hclash hfind hreload =>
            -- the run was read again
            have hid : s.run.runId = run.runId := by rw [hs.sameRun]
            rw [hid, hrun] at hreload
            exact .inr (.inl (Option.some.inj hreload ▸ hmiddle))
        | stored hnone hrow hfree =>
            rw [updateStatus_status, (newRow_spec hrow).eventType] at hmiddle
            cases hset : collectorStatus event.eventType with
            | none =>
                rw [hset] at hmiddle
                exact .inl hmiddle
            | some set =>
                rw [hset] at hmiddle
                exact .inr (.inr ⟨event, List.mem_cons_self, by rw [hset, ← hmiddle, Option.getD_some]⟩)
      · exact .inr (.inl hloaded)
      · exact .inr (.inr ⟨later, List.mem_cons_of_mem _ hlater, hset⟩)

theorem Appended.appends {runId : String} {events : List EventInput} {ids : List String}
    (hdb : Sound db) (h : Appended env m db principal runId events db' ids) :
    db' = db ∨ Appends db principal runId events db' := by
  cases h with
  | empty => exact .inl rfl
  | @batch _ run s lastHash answers hrun horg hproject hne hanswers =>
      obtain rfl := hdb.runKey hrun
      have hload := sessionInv_load hdb principal run
      have hs := hanswers.sessionInv hdb hrun hload
      rw [hs.commit_eq hrun]
      refine .inr (.mk hrun ⟨horg, hproject⟩ ⟨horg, hproject⟩ ?_ ?_)
      · rcases hanswers.status_of_event hdb hrun hload rfl with hsame | hsame | hset
        · exact .inl hsame.symm
        · exact .inl hsame.symm
        · exact .inr hset
      · intro e he
        rcases hs.own e he with ⟨hid, hown⟩
        rcases hanswers.flushed_of_event he with hnone | hevent
        · cases hnone
        · exact ⟨hid, hown, hevent⟩

theorem effect_startRun {r : Request} {runId : Option String} {agentId environment : String}
    {agentVersion : Option String} {metadata : List (String × PyJson)} {out : StartedRun}
    (hcall : r.call = .startRun runId agentId agentVersion environment metadata)
    (h : startRun env r.moment db r.principal runId agentId agentVersion environment metadata =
      .ok (db', out)) : Effect env db r db' := by
  unfold startRun at h
  split_ifs at h with hagent
  dsimp only at h
  cases hget : db.agentRuns.get ((truthy runId).getD ("run_" ++ r.moment.ulid 0)) with
  | some existing =>
      simp only [hget, Except.ok.injEq, Prod.mk.injEq] at h
      exact h.1 ▸ .nothing
  | none =>
      simp only [hget, Except.ok.injEq, Prod.mk.injEq] at h
      exact h.1 ▸ .started hcall hget ⟨rfl, rfl⟩ rfl

theorem effect_commitRun {r : Request} {runId : String} {out : StartedRun}
    (hcall : r.call = .commitRun runId)
    (h : commitRun env r.moment db r.principal runId = .ok (db', out)) : Effect env db r db' := by
  unfold commitRun at h
  cases hauth : authorizeRun db r.principal runId with
  | error e => simp [hauth, Bind.bind, Except.bind] at h
  | ok run =>
      rcases authorizeRun_eq_ok hauth with ⟨hrun, horg, hproject⟩
      simp only [hauth, Bind.bind, Except.bind, pure, Except.pure, Except.ok.injEq,
        Prod.mk.injEq] at h
      exact h.1 ▸ .ended hrun ⟨horg, hproject⟩ ⟨horg, hproject⟩ (.inl ⟨hcall, rfl⟩)

theorem effect_rollbackRun {r : Request} {runId : String} {reason : Option String}
    {out : StartedRun} (hcall : r.call = .rollbackRun runId reason)
    (h : rollbackRun env r.moment db r.principal runId reason = .ok (db', out)) :
    Effect env db r db' := by
  unfold rollbackRun at h
  cases hauth : authorizeRun db r.principal runId with
  | error e => simp [hauth, Bind.bind, Except.bind] at h
  | ok run =>
      rcases authorizeRun_eq_ok hauth with ⟨hrun, horg, hproject⟩
      simp only [hauth, Bind.bind, Except.bind, pure, Except.pure, Except.ok.injEq,
        Prod.mk.injEq] at h
      exact h.1 ▸ .ended hrun ⟨horg, hproject⟩ ⟨horg, hproject⟩ (.inr ⟨reason, hcall, rfl⟩)

theorem effect_requestApproval {r : Request} {body : ApprovalBody} {out : ApprovalDict}
    (hcall : r.call = .request body)
    (h : requestApproval env r.moment db r.principal body = .ok (db', out)) :
    Effect env db r db' := by
  unfold requestApproval at h
  dsimp only at h
  cases hget : db.approvals.get ((truthy body.approvalId).getD ("appr_" ++ r.moment.ulid 0)) with
  | some existing =>
      simp only [hget, Except.ok.injEq, Prod.mk.injEq] at h
      exact h.1 ▸ .nothing
  | none =>
      simp only [hget, Except.ok.injEq, Prod.mk.injEq] at h
      exact h.1 ▸ .requested hcall ⟨rfl, rfl⟩ rfl

theorem effect_decideApproval {r : Request} {approvalId decision reviewerId : String}
    {reason : Option String} {out : ApprovalDict}
    (hcall : r.call = .decide approvalId decision reviewerId reason)
    (h : decideApproval env r.moment db r.principal approvalId decision reviewerId reason =
      .ok (db', out)) : Effect env db r db' := by
  unfold decideApproval at h
  split_ifs at h with hdecision
  cases hget : db.approvals.get approvalId with
  | none => simp [hget] at h
  | some row =>
      simp only [hget] at h
      split_ifs at h with hforbidden
      rcases not_or.1 hforbidden with ⟨horg, hproject⟩
      simp only [Except.ok.injEq, Prod.mk.injEq] at h
      have hown : row.BelongsTo r.principal := ⟨not_not.1 horg, not_not.1 hproject⟩
      exact h.1 ▸ .decided hcall hget hown hown rfl rfl

theorem effect_exportRun {r : Request} {runId : String} {generatedBy : Option String}
    {out : ExportResult × Bundle} (hdb : Sound db) (hcall : r.call = .exportRun runId generatedBy)
    (h : exportRun env r.moment db r.principal runId generatedBy = .ok (db', out)) :
    Effect env db r db' := by
  rcases out with ⟨res, bundle⟩
  rcases exportRun_eq_ok h with ⟨run, verification, hrun, hown, _, _, hres, hdb'⟩
  have hexport : Change env r.principal db { db with
      evidenceExports := db.evidenceExports.put res.exportId
        (exportRow env r.moment r.principal runId generatedBy res) } := .quiet .export
  have huri : res.bundleUri = bundlePath env runId := by
    rw [hres]
    rfl
  refine @Effect.exported env db r runId generatedBy run
    (exportRow env r.moment r.principal runId generatedBy res) (exportEvent r.moment res) db' hcall
    hrun hown ⟨rfl, rfl⟩ ⟨rfl, rfl, huri⟩ rfl ?_
  rw [hdb']
  unfold recordExport
  cases happend : appendEvents env (r.moment.later 2) _ r.principal runId
      [exportEvent r.moment res] with
  | error e => exact .inl rfl
  | ok out => exact (appended_of_ok happend).appends (hexport.sound hdb)

/-- Every request has an effect of its own call. -/
theorem Request.effect (hdb : Sound db) (r : Request) : Effect env db r (r.run env db) := by
  unfold Request.run
  cases hperform : r.perform env db with
  | error e => exact .nothing
  | ok out =>
      rcases out with ⟨db', answer⟩
      unfold Request.perform at hperform
      dsimp only
      cases hcall : r.call with
      | startRun runId agentId agentVersion environment metadata =>
          rcases exists_of_map_eq_ok (by simpa only [hcall] using hperform) with ⟨⟨db₁, out⟩, hout, heq⟩
          cases heq
          exact effect_startRun hcall hout
      | appendEvents runId events =>
          rcases exists_of_map_eq_ok (by simpa only [hcall] using hperform) with ⟨⟨db₁, out⟩, hout, heq⟩
          cases heq
          rcases (appended_of_ok hout).appends hdb with rfl | happends
          · exact .nothing
          · exact .appended hcall happends
      | commitRun runId =>
          rcases exists_of_map_eq_ok (by simpa only [hcall] using hperform) with ⟨⟨db₁, out⟩, hout, heq⟩
          cases heq
          exact effect_commitRun hcall hout
      | rollbackRun runId reason =>
          rcases exists_of_map_eq_ok (by simpa only [hcall] using hperform) with ⟨⟨db₁, out⟩, hout, heq⟩
          cases heq
          exact effect_rollbackRun hcall hout
      | timeline runId limit cursor =>
          rcases exists_of_map_eq_ok (by simpa only [hcall] using hperform) with ⟨out, hout, heq⟩
          cases heq
          exact .nothing
      | verify runId =>
          rcases exists_of_map_eq_ok (by simpa only [hcall] using hperform) with ⟨out, hout, heq⟩
          cases heq
          exact .nothing
      | request body =>
          rcases exists_of_map_eq_ok (by simpa only [hcall] using hperform) with ⟨⟨db₁, out⟩, hout, heq⟩
          cases heq
          exact effect_requestApproval hcall hout
      | decide approvalId decision reviewerId reason =>
          rcases exists_of_map_eq_ok (by simpa only [hcall] using hperform) with ⟨⟨db₁, out⟩, hout, heq⟩
          cases heq
          exact effect_decideApproval hcall hout
      | pending =>
          simp only [hcall, Except.ok.injEq, Prod.mk.injEq] at hperform
          exact hperform.1 ▸ .nothing
      | query body =>
          simp only [hcall, Except.ok.injEq, Prod.mk.injEq] at hperform
          exact hperform.1 ▸ .nothing
      | exportRun runId generatedBy =>
          rcases exists_of_map_eq_ok (by simpa only [hcall] using hperform) with ⟨⟨db₁, out⟩, hout, heq⟩
          cases heq
          exact effect_exportRun hdb hcall hout

end Effects
end Collector
end ControlDB
