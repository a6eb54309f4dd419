import ControlDB.Library.Runs
import ControlDB.Collector.Services

/-!
# Decisions on approvals

`ApprovalsService.request` and `decide` as sessions: a row is read, and what becomes of it is written
at the commit.  Between the two other sessions commit.  An `UPDATE` sets the columns that differ from
the row that was read; neither call looks at the status of the row.
-/

namespace ControlDB
namespace Collector

open Library Python

/-! ## Sessions -/

/-- What a session writes at its commit: a new row, or the changes of the row that it loaded. -/
inductive ApprovalWrite
  | insert (row : Approval)
  | update (approvalId : String) (loaded row : Approval)

/-- The `UPDATE` of an approval: only columns whose value was changed are set. -/
def writeApproval (env : Env) (loaded row stored : Approval) : Approval :=
  { stored with
    status := if row.status = loaded.status then stored.status else row.status
    reviewerId := if row.reviewerId = loaded.reviewerId then stored.reviewerId else row.reviewerId
    decidedAt :=
      if row.decidedAt = loaded.decidedAt then stored.decidedAt
      else row.decidedAt.map env.storeDatetime
    reason := if row.reason = loaded.reason then stored.reason else row.reason }

/-- `request` up to its commit; an approval that exists is returned as it is. -/
def beginRequest (env : Env) (m : Moment) (db : Database) (principal : Principal)
    (body : ApprovalBody) : Option ApprovalWrite :=
  let approvalId := (truthy body.approvalId).getD ("appr_" ++ m.ulid 0)
  match db.approvals.get approvalId with
  | some _ => none
  | none => some (.insert
      { approvalId := approvalId
        runId := body.runId.getD ""
        orgId := principal.orgId
        projectId := principal.projectId
        policyId := body.policyId
        requestedBy := body.requestedBy
        reason := body.reason
        inputJson := body.input
        createdAt := some (env.storeDatetime (m.now 0)) })

/-- `decide` up to its commit. -/
def beginDecide (m : Moment) (db : Database) (principal : Principal)
    (approvalId decision reviewerId : String) (reason : Option String) :
    Except PyError ApprovalWrite :=
  if decision ∉ ["approved", "rejected", "expired", "overridden"] then
    .error (.value ("invalid decision: " ++ decision))
  else
    match db.approvals.get approvalId with
    | none => .error (.lookup "approval not found")
    | some row =>
        if row.orgId ≠ principal.orgId ∨ row.projectId ≠ principal.projectId then
          .error (.permission "forbidden")
        else .ok (.update approvalId row
          { row with
            status := decision
            reviewerId := some reviewerId
            decidedAt := some (m.now 0)
            reason := (truthy reason).orElse fun _ => row.reason })

/-- `session.commit()`. -/
def ApprovalWrite.commit (env : Env) (db : Database) : ApprovalWrite → Except PyError Database
  | .insert row =>
      if (db.approvals.get row.approvalId).isSome then .error .integrity
      else .ok { db with approvals := db.approvals.put row.approvalId row }
  | .update approvalId loaded row =>
      match db.approvals.get approvalId with
      | none => .error .other
      | some stored => .ok
          { db with approvals := db.approvals.put approvalId (writeApproval env loaded row stored) }

section Alone

variable {env : Env} {m : Moment} {db : Database} {principal : Principal}

/-- With nothing in between, the two halves are `request`. -/
theorem requestApproval_eq (body : ApprovalBody) :
    (requestApproval env m db principal body).map Prod.fst =
      match beginRequest env m db principal body with
      | none => .ok db
      | some write => write.commit env db := by
  unfold requestApproval beginRequest
  dsimp only
  cases hget : db.approvals.get ((truthy body.approvalId).getD ("appr_" ++ m.ulid 0)) with
  | none => simp [ApprovalWrite.commit, Except.map, hget]
  | some existing => rfl

/-- With nothing in between, the two halves are `decide`. -/
theorem decideApproval_eq {approvalId decision reviewerId : String} {reason : Option String}
    (hclock : ∀ row, db.approvals.get approvalId = some row → row.decidedAt ≠ some (m.now 0)) :
    (decideApproval env m db principal approvalId decision reviewerId reason).map Prod.fst =
      (beginDecide m db principal approvalId decision reviewerId reason).bind
        (ApprovalWrite.commit env db) := by
  unfold decideApproval beginDecide
  by_cases hdecision : decision ∉ ["approved", "rejected", "expired", "overridden"]
  · rw [if_pos hdecision, if_pos hdecision]
    rfl
  · rw [if_neg hdecision, if_neg hdecision]
    cases hget : db.approvals.get approvalId with
    | none => rfl
    | some row =>
        dsimp only
        by_cases hforbidden : row.orgId ≠ principal.orgId ∨ row.projectId ≠ principal.projectId
        · rw [if_pos hforbidden, if_pos hforbidden]
          rfl
        · rw [if_neg hforbidden, if_neg hforbidden]
          have hkeep : ∀ {α : Type} [DecidableEq α] (x y : α), (if x = y then y else x) = x := by
            intro α _ x y
            split_ifs with h
            · exact h.symm
            · rfl
          have hdecided : some (m.now 0) ≠ row.decidedAt := (hclock row hget).symm
          simp only [Except.map, Except.bind, ApprovalWrite.commit, hget, writeApproval, hkeep,
            if_neg hdecided, Option.map_some]

end Alone

/-! ## Interleaved sessions -/

structure Desk where
  db : Database := {}
  sessions : List ApprovalWrite := []

inductive DeskStep
  | request (m : Moment) (principal : Principal) (body : ApprovalBody)
  | decide (m : Moment) (principal : Principal) (approvalId decision reviewerId : String)
      (reason : Option String)
  | commit (k : Nat)
  | abort (k : Nat)

/-- A call that raises before its commit, or has nothing to write, leaves no session. -/
def DeskStep.run (env : Env) (desk : Desk) : DeskStep → Desk
  | request m principal body =>
      { desk with
        sessions := desk.sessions ++ (beginRequest env m desk.db principal body).toList }
  | decide m principal approvalId decision reviewerId reason =>
      match beginDecide m desk.db principal approvalId decision reviewerId reason with
      | .error _ => desk
      | .ok write => { desk with sessions := desk.sessions ++ [write] }
  | commit k =>
      match desk.sessions[k]? with
      | none => desk
      | some write =>
          { db :=
              match write.commit env desk.db with
              | .error _ => desk.db
              | .ok db => db
            sessions := desk.sessions.eraseIdx k }
  | abort k => { desk with sessions := desk.sessions.eraseIdx k }

/-! ## What becomes of a decision -/

/-- The four columns that record a decision. -/
def SameDecision (a b : Approval) : Prop :=
  a.status = b.status ∧ a.reviewerId = b.reviewerId ∧ a.decidedAt = b.decidedAt ∧
    a.reason = b.reason

/-- Approvals that were decided before are as they were. -/
def DecisionsKept (db db' : Database) : Prop :=
  ∀ approvalId row, db.approvals.get approvalId = some row → row.status ≠ "requested" →
    ∃ row', db'.approvals.get approvalId = some row' ∧ SameDecision row' row

/-- A session that loaded one row and changed it to another has nothing new to write over a third. -/
structure RepeatsDecision (env : Env) (loaded row stored : Approval) : Prop where
  status : row.status = loaded.status ∨ row.status = stored.status
  reviewerId : row.reviewerId = loaded.reviewerId ∨ row.reviewerId = stored.reviewerId
  decidedAt : row.decidedAt = loaded.decidedAt ∨
    row.decidedAt.map env.storeDatetime = stored.decidedAt
  reason : row.reason = loaded.reason ∨ row.reason = stored.reason

/-- A session that updates an approval commits while it is still requested, or repeats the decision
that is there. -/
def DecidesOnce (env : Env) (desk : Desk) : DeskStep → Prop
  | .commit k => ∀ approvalId loaded row stored,
      desk.sessions[k]? = some (.update approvalId loaded row) →
        desk.db.approvals.get approvalId = some stored →
          stored.status = "requested" ∨ RepeatsDecision env loaded row stored
  | _ => True

theorem sameDecision_writeApproval_iff (env : Env) (loaded row stored : Approval) :
    SameDecision (writeApproval env loaded row stored) stored ↔ RepeatsDecision env loaded row stored := by
  have hcolumn : ∀ {p : Prop} [Decidable p] {α : Type} (new old : α),
      (if p then old else new) = old ↔ p ∨ new = old := by
    intro p _ α new old
    split_ifs with hp
    · exact iff_of_true rfl (.inl hp)
    · exact (or_iff_right hp).symm
  unfold SameDecision writeApproval
  simp only [hcolumn]
  exact ⟨fun ⟨h₁, h₂, h₃, h₄⟩ => ⟨h₁, h₂, h₃, h₄⟩, fun h => ⟨h.1, h.2, h.3, h.4⟩⟩

theorem DecisionsKept.refl (db : Database) : DecisionsKept db db :=
  fun _ row hrow _ => ⟨row, hrow, rfl, rfl, rfl, rfl⟩

/-- A row of the table is replaced. -/
theorem decisionsKept_put_iff {db : Database} {approvalId : String} {stored row : Approval}
    (h : db.approvals.get approvalId = some stored) :
    DecisionsKept db { db with approvals := db.approvals.put approvalId row } ↔
      stored.status = "requested" ∨ SameDecision row stored := by
  constructor
  · intro hkept
    by_cases hstatus : stored.status = "requested"
    · exact .inl hstatus
    · rcases hkept approvalId stored h hstatus with ⟨row', hrow', hsame⟩
      dsimp only at hrow'
      rw [SortedMap.get_put_self] at hrow'
      rw [Option.some.inj hrow']
      exact .inr hsame
  · intro hdecision k a ha hstatus
    dsimp only
    by_cases hk : k = approvalId
    · rw [hk, h] at ha
      rw [← Option.some.inj ha] at hstatus ⊢
      refine ⟨row, by rw [hk, SortedMap.get_put_self], ?_⟩
      exact hdecision.resolve_left hstatus
    · rw [SortedMap.get_put_of_ne _ _ hk]
      exact DecisionsKept.refl db k a ha hstatus

/-- A row that is new replaces none. -/
theorem decisionsKept_put_new {db : Database} {approvalId : String} {row : Approval}
    (h : db.approvals.get approvalId = none) :
    DecisionsKept db { db with approvals := db.approvals.put approvalId row } := by
  intro k a ha hstatus
  have hk : k ≠ approvalId := by
    rintro rfl
    rw [h] at ha
    cases ha
  dsimp only
  rw [SortedMap.get_put_of_ne _ _ hk]
  exact DecisionsKept.refl db k a ha hstatus

/-- Step lemma. -/
theorem decisionsKept_run_iff (env : Env) (desk : Desk) (s : DeskStep) :
    DecisionsKept desk.db (s.run env desk).db ↔ DecidesOnce env desk s := by
  cases s with
  | request m principal body => exact iff_of_true (DecisionsKept.refl _) trivial
  | decide m principal approvalId decision reviewerId reason =>
      refine iff_of_true ?_ trivial
      unfold DeskStep.run
      dsimp only
      cases beginDecide m desk.db principal approvalId decision reviewerId reason with
      | error e => exact DecisionsKept.refl _
      | ok write => exact DecisionsKept.refl _
  | abort k => exact iff_of_true (DecisionsKept.refl _) trivial
  | commit k =>
      unfold DeskStep.run DecidesOnce
      dsimp only
      cases hsession : desk.sessions[k]? with
      | none => exact iff_of_true (DecisionsKept.refl _) fun _ _ _ _ h => by cases h
      | some write =>
          cases write with
          | insert row =>
              refine iff_of_true ?_ fun _ _ _ _ h => by cases h
              cases hget : desk.db.approvals.get row.approvalId with
              | none =>
                  simp only [ApprovalWrite.commit, hget]
                  exact decisionsKept_put_new hget
              | some existing =>
                  simp only [ApprovalWrite.commit, hget]
                  exact DecisionsKept.refl _
          | update approvalId loaded row =>
              cases hget : desk.db.approvals.get approvalId with
              | none =>
                  simp only [ApprovalWrite.commit, hget]
                  refine iff_of_true (DecisionsKept.refl _) ?_
                  intro approvalId' loaded' row' stored h hstored
                  cases h
                  rw [hget] at hstored
                  cases hstored
              | some stored =>
                  simp only [ApprovalWrite.commit, hget]
                  rw [decisionsKept_put_iff hget, sameDecision_writeApproval_iff]
                  constructor
                  · intro hdecision approvalId' loaded' row' stored' h hstored'
                    cases h
                    rw [hget] at hstored'
                    rw [← Option.some.inj hstored']
                    exact hdecision
                  · intro hdecision
                    exact hdecision approvalId loaded row stored rfl hget

/-- Decisions are final in an interleaving of sessions exactly when every decision is committed while
its approval is still requested, or writes what is there. -/
theorem decisions_final_iff (env : Env) (desk : Desk) (steps : List DeskStep) :
    Throughout (DeskStep.run env) (fun _ => True)
        (fun desk s => DecisionsKept desk.db (s.run env desk).db) desk steps ↔
      Meets (DeskStep.run env) (DecidesOnce env) desk steps := by
  have hstep : ∀ {desk s}, True → True →
      (DecisionsKept desk.db (DeskStep.run env desk s).db ∧ True ↔ DecidesOnce env desk s) := by
    intro desk s _ _
    rw [and_true]
    exact decisionsKept_run_iff env desk s
  exact @throughout_iff_meets _ _ (DeskStep.run env) (fun _ => True) _ _ (fun _ => True)
    (fun _ => trivial) hstep _ trivial trivial steps

/-! ## Two reviewers -/

namespace DecisionsExample

def request : DeskStep :=
  .request CollectorExample.moment CollectorExample.owner { approvalId := some "appr_1" }

def decide (decision reviewerId : String) : DeskStep :=
  .decide CollectorExample.moment CollectorExample.owner "appr_1" decision reviewerId none

/-- Both reviewers read the approval before either of them commits. -/
def steps : List DeskStep :=
  [request, .commit 0, decide "approved" "alice", decide "rejected" "bob", .commit 0, .commit 0]

end DecisionsExample

/-- The second reviewer replaces the decision of the first. -/
theorem second_decision_replaces :
    ¬ Throughout (DeskStep.run CollectorExample.env) (fun _ => True)
      (fun desk s => DecisionsKept desk.db (s.run CollectorExample.env desk).db) {}
      DecisionsExample.steps := by
  have hevaluated :
      let desk : Desk := (DecisionsExample.steps.take 5).foldl
        (DeskStep.run CollectorExample.env) {}
      let desk' := DeskStep.run CollectorExample.env desk (.commit 0)
      (desk.db.approvals.get "appr_1").map Approval.status = some "approved" ∧
        (desk'.db.approvals.get "appr_1").map Approval.status = some "rejected" := by
    decide +kernel
  rcases hevaluated with ⟨hbefore, hafter⟩
  rcases Option.map_eq_some_iff.1 hbefore with ⟨row, hrow, hstatus⟩
  rintro ⟨_, _, _, _, _, _, _, _, _, _, _, hkept, _⟩
  rcases hkept "appr_1" row hrow (by rw [hstatus]; decide) with ⟨row', hrow', hsame, _⟩
  rcases Option.map_eq_some_iff.1 hafter with ⟨row'', hrow'', hstatus'⟩
  obtain rfl : row' = row'' := Option.some.inj (hrow'.symm.trans hrow'')
  rw [hstatus, hstatus'] at hsame
  exact absurd hsame (by decide)

end Collector
end ControlDB
