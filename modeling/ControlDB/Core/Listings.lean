import ControlDB.Core.IndexIntegrity
import ControlDB.Library.KeyOrder

/-!
# Listings

`list_runs` walks an index backwards, and `pending_approvals` walks a column.  After any history of
calls, exceptions and crashes the one gives the newest runs of a tenant, and the other the approvals
that the calls which took effect have left undecided.
-/

namespace ControlDB

open Library

/-! ## Runs -/

/-- The start as the index has it, cast to `uint64_t`. -/
def AgentRun.startKey (r : AgentRun) : Nat :=
  (r.startedAtMs % 2 ^ 64).toNat

/-- Runs in the order of their starts, and of their ids where they start together. -/
def AgentRun.Before (a b : AgentRun) : Prop :=
  a.startKey < b.startKey ∨ a.startKey = b.startKey ∧ a.runId < b.runId

def tenantKey (orgId projectId : Bytes) : Bytes :=
  orgId ++ bytes ":" ++ projectId ++ bytes ":"

/-- The run that an index entry leads to, if its key has the prefix. -/
def listedRun (db : Rocks) (scanPrefix : Bytes) (entry : Bytes × Bytes) : Option AgentRun :=
  if scanPrefix <+: entry.1 then storedRun db entry.2 else none

/-- The runs that the walk of `list_runs` comes to. -/
def walkedRuns (db : Rocks) (orgId projectId : Bytes) : List AgentRun :=
  db.runsByOrg.entries.reverse.filterMap (listedRun db (tenantKey orgId projectId))

section Runs

variable {db : Rocks} {orgId projectId : Bytes}

/-- The loop collects what the entries lead to, up to the limit. -/
theorem listRunsLoop_eq (hdb : Represents db) (scanPrefix : Bytes) (limit : Int)
    (entries : List (Bytes × Bytes)) (result : List AgentRun) :
    listRunsLoop db scanPrefix limit entries result =
      .ok (result ++ (entries.filterMap (listedRun db scanPrefix)).take
        (limit.toNat - result.length)) := by
  induction entries generalizing result with
  | nil => simp [listRunsLoop]
  | cons entry rest ih =>
      rcases entry with ⟨k, runId⟩
      unfold listRunsLoop
      by_cases hlimit : ¬ (result.length : Int) < limit
      · -- a limit below zero is met at once
        have hfull : limit.toNat - result.length = 0 := by omega
        rw [if_pos hlimit, hfull, List.take_zero, List.append_nil]
      rw [if_neg hlimit]
      by_cases hstart : scanPrefix <+: k
      · have htake : ¬ k.take scanPrefix.length ≠ scanPrefix :=
          not_not.2 (List.prefix_iff_eq_take.1 hstart).symm
        rw [if_neg htake]
        cases hget : db.runs.get runId with
        | none =>
            -- an entry without its document is passed over
            have hskip : listedRun db scanPrefix (k, runId) = none := by
              rw [listedRun, if_pos hstart, Represents.storedRun_eq_none hget]
            rw [List.filterMap_cons_none hskip]
            exact ih result
        | some doc =>
            rcases hdb.get_runs hget with ⟨r, hdecode, hstored, _⟩
            have hfound : listedRun db scanPrefix (k, runId) = some r := by
              rw [listedRun, if_pos hstart, hstored]
            have hroom : limit.toNat - result.length =
                limit.toNat - (result ++ [r]).length + 1 := by
              rw [List.length_append, List.length_singleton]
              omega
            rw [List.filterMap_cons_some hfound, hroom, List.take_succ_cons, List.append_cons]
            simp only [hdecode, Bind.bind, Except.bind]
            exact ih (result ++ [r])
      · have htake : k.take scanPrefix.length ≠ scanPrefix :=
          fun heq => hstart (List.prefix_iff_eq_take.2 heq.symm)
        have hskip : listedRun db scanPrefix (k, runId) = none := if_neg hstart
        rw [if_pos htake, List.filterMap_cons_none hskip]
        exact ih result

theorem listRuns_eq {s : Store} (hdb : Represents s.rocks) (orgId projectId : Bytes) (limit : Int) :
    listRuns s orgId projectId limit =
      .ok ((walkedRuns s.rocks orgId projectId).take limit.toNat) := by
  have h := listRunsLoop_eq hdb (tenantKey orgId projectId) limit s.rocks.runsByOrg.entries.reverse []
  rw [List.nil_append, List.length_nil, Nat.sub_zero] at h
  exact h

theorem runsByOrgKey_eq (r : AgentRun) : runsByOrgKey r =
    tenantKey r.orgId r.projectId ++ (seqToKey r.startKey ++ (bytes ":" ++ r.runId)) := by
  simp [runsByOrgKey, tenantKey, AgentRun.startKey, List.append_assoc]

theorem AgentRun.startKey_lt (r : AgentRun) : r.startKey < 256 ^ 8 := by
  unfold AgentRun.startKey
  omega

/-- Without a `:` in the tenants, the keys under the prefix of a tenant are those of its runs. -/
theorem tenantKey_prefix_iff (horg : (0x3a : UInt8) ∉ orgId) (hproject : (0x3a : UInt8) ∉ projectId)
    {r : AgentRun} (hr : (0x3a : UInt8) ∉ r.orgId ∧ (0x3a : UInt8) ∉ r.projectId) :
    tenantKey orgId projectId <+: runsByOrgKey r ↔ r.BelongsTo orgId projectId := by
  constructor
  · rintro ⟨rest, hkey⟩
    rw [runsByOrgKey_eq] at hkey
    simp only [tenantKey, List.append_assoc] at hkey
    have houter : orgId ++ bytes ":" ++ (projectId ++ (bytes ":" ++ rest)) =
        r.orgId ++ bytes ":" ++ (r.projectId ++ (bytes ":" ++
          (seqToKey r.startKey ++ (bytes ":" ++ r.runId)))) := by
      simpa only [List.append_assoc] using hkey
    -- the first `:` ends the organisation, and the second one the project
    rcases colonFree_append_inj horg hr.1 houter with ⟨hsame, hinner⟩
    rw [← List.append_assoc, ← List.append_assoc r.projectId] at hinner
    exact ⟨hsame.symm, (colonFree_append_inj hproject hr.2 hinner).1.symm⟩
  · rintro ⟨rfl, rfl⟩
    exact ⟨_, (runsByOrgKey_eq r).symm⟩

/-- Within a tenant the keys are in the order of the runs. -/
theorem before_of_runsByOrgKey_lt {a b : AgentRun} (horg : a.orgId = b.orgId)
    (hproject : a.projectId = b.projectId) (h : runsByOrgKey a < runsByOrgKey b) : a.Before b := by
  have hlength : (seqToKey a.startKey).length = (seqToKey b.startKey).length := by
    rw [length_seqToKey, length_seqToKey]
  rw [runsByOrgKey_eq, runsByOrgKey_eq b, horg, hproject, append_lt_append_iff,
    append_lt_append_of_length hlength, append_lt_append_iff] at h
  rcases h with hlt | ⟨hsame, hlt⟩
  · exact .inl ((toBigEndian_lt_iff a.startKey_lt b.startKey_lt).1 hlt)
  · exact .inr ⟨toBigEndian_inj a.startKey_lt b.startKey_lt hsame, hlt⟩

/-- An entry of the index leads to the stored run of its key. -/
theorem listedRun_eq_some {scanPrefix : Bytes} (hdb : Represents db) {entry : Bytes × Bytes}
    (hentry : entry ∈ db.runsByOrg.entries) {r : AgentRun}
    (h : listedRun db scanPrefix entry = some r) :
    scanPrefix <+: entry.1 ∧ entry.1 = runsByOrgKey r ∧ storedRun db r.runId = some r := by
  rcases Option.ite_none_right_eq_some.1 h with ⟨hstart, hstored⟩
  rcases hdb.runIndex (SortedMap.get_eq_some_iff.2 hentry) with ⟨r', hr', hkey⟩
  rw [hstored] at hr'
  cases hr'
  exact ⟨hstart, hkey, hdb.storedRun_runId hstored ▸ hstored⟩

theorem mem_walkedRuns (hdb : Represents db) (hindexed : RunsIndexed db) (hfree : ColonFree db)
    (horg : (0x3a : UInt8) ∉ orgId) (hproject : (0x3a : UInt8) ∉ projectId) {r : AgentRun} :
    r ∈ walkedRuns db orgId projectId ↔
      storedRun db r.runId = some r ∧ r.BelongsTo orgId projectId := by
  constructor
  · intro hr
    rcases List.mem_filterMap.1 hr with ⟨entry, hentry, hlisted⟩
    rcases listedRun_eq_some hdb (List.mem_reverse.1 hentry) hlisted with ⟨hstart, hkey, hstored⟩
    rw [hkey] at hstart
    exact ⟨hstored, (tenantKey_prefix_iff horg hproject (hfree r.runId r hstored)).1 hstart⟩
  · rintro ⟨hstored, hbelongs⟩
    have hentry := hindexed hfree r.runId r hstored
    refine List.mem_filterMap.2 ⟨(runsByOrgKey r, r.runId),
      List.mem_reverse.2 (SortedMap.get_eq_some_iff.1 hentry), ?_⟩
    rw [listedRun, if_pos ((tenantKey_prefix_iff horg hproject (hfree r.runId r hstored)).2 hbelongs)]
    exact hstored

/-- The walk goes from the newest run to the oldest. -/
theorem walkedRuns_sorted (hdb : Represents db) (hfree : ColonFree db)
    (horg : (0x3a : UInt8) ∉ orgId) (hproject : (0x3a : UInt8) ∉ projectId) :
    (walkedRuns db orgId projectId).Pairwise fun a b => b.Before a := by
  -- the walk is backwards: what comes first has the greater key
  refine List.pairwise_filterMap.2 (List.pairwise_reverse.2
    ((List.Pairwise.and_mem.1 db.runsByOrg.sorted).imp ?_))
  rintro entry entry' ⟨hentry, hentry', hlt⟩ b hb a ha
  rcases listedRun_eq_some hdb hentry' hb with ⟨hstart', hkey', hstored'⟩
  rcases listedRun_eq_some hdb hentry ha with ⟨hstart, hkey, hstored⟩
  rw [hkey', hkey] at hlt
  rw [hkey] at hstart
  rw [hkey'] at hstart'
  have hown := (tenantKey_prefix_iff horg hproject (hfree a.runId a hstored)).1 hstart
  have hown' := (tenantKey_prefix_iff horg hproject (hfree b.runId b hstored')).1 hstart'
  exact before_of_runsByOrgKey_lt (hown.1.trans hown'.1.symm) (hown.2.trans hown'.2.symm) hlt

end Runs

theorem colonFree_of_entries {db : Rocks}
    (h : ∀ entry ∈ db.runs.entries, ∀ r ∈ (jsonToRun entry.2).toOption,
      (0x3a : UInt8) ∉ r.orgId ∧ (0x3a : UInt8) ∉ r.projectId) : ColonFree db := by
  intro runId r hr
  rcases Option.bind_eq_some_iff.1 hr with ⟨doc, hget, hdecode⟩
  exact h _ (SortedMap.get_eq_some_iff.1 hget) r hdecode

namespace ListingExample

open IdempotencyExample (clock)

/-- A second run of the tenant, and the run of another one. -/
def actions : List Action :=
  [.call clock (.startRun IdempotencyExample.run),
    .call clock (.startRun { IdempotencyExample.run with
      runId := bytes "run_002", startedAtMs := 1714521600001 }),
    .call clock (.startRun { IdempotencyExample.run with
      runId := bytes "run_003", orgId := bytes "org_other" })]

theorem colonFree : ColonFree (runActions IdempotencyExample.env {} actions).rocks :=
  colonFree_of_entries (by decide +kernel)

end ListingExample

/-- The scan of `pending_approvals`; the argument is what is left to walk. -/
def pendingLoop (orgId projectId : Bytes) :
    List (Bytes × Json) → List Approval → Except StoreError (List Approval)
  | [], result => .ok result
  | (_, doc) :: rest, result => do
      let a ← jsonToApproval doc
      if a.orgId = orgId ∧ a.projectId = projectId ∧ a.status = bytes "requested" then
        pendingLoop orgId projectId rest (result ++ [a])
      else pendingLoop orgId projectId rest result

/-- `std::sort` by the time of the request; what it does with equal times is not specified. -/
def sortByCreated (approvals : List Approval) : List Approval :=
  approvals.insertionSort fun a b => a.createdAtMs ≤ b.createdAtMs

def pendingApprovals (s : Store) (orgId projectId : Bytes) : Except StoreError (List Approval) := do
  let result ← pendingLoop orgId projectId s.rocks.approvals.entries []
  return sortByCreated result

def Approval.IsPending (a : Approval) (orgId projectId : Bytes) : Prop :=
  a.BelongsTo orgId projectId ∧ a.status = bytes "requested"

instance (a : Approval) (orgId projectId : Bytes) : Decidable (a.IsPending orgId projectId) :=
  inferInstanceAs (Decidable ((_ ∧ _) ∧ _))

def storedApprovals (db : Rocks) : List Approval :=
  db.approvals.entries.filterMap fun entry => (jsonToApproval entry.2).toOption

section Pending

variable {db : Rocks} {orgId projectId : Bytes}

theorem approval_of_entry (hdb : Represents db) {entry : Bytes × Json}
    (hentry : entry ∈ db.approvals.entries) :
    ∃ a, jsonToApproval entry.2 = .ok a ∧ a.approvalId = entry.1 := by
  rcases hdb.approvalDoc (SortedMap.get_eq_some_iff.2 hentry) with ⟨a, hdoc, hid⟩
  exact ⟨a, hdoc ▸ jsonToApproval_approvalToJson a, hid⟩

theorem pendingLoop_eq (hdb : Represents db) {entries : List (Bytes × Json)}
    (hentries : entries ⊆ db.approvals.entries) (result : List Approval) :
    pendingLoop orgId projectId entries result =
      .ok (result ++ (entries.filterMap fun entry => (jsonToApproval entry.2).toOption).filter
        fun a => decide (a.IsPending orgId projectId)) := by
  induction entries generalizing result with
  | nil => simp [pendingLoop]
  | cons entry rest ih =>
      rcases List.cons_subset.1 hentries with ⟨hentry, hrest⟩
      rcases approval_of_entry hdb hentry with ⟨a, hdecode, _⟩
      have hfound : (jsonToApproval entry.2).toOption = some a := by rw [hdecode]; rfl
      rw [List.filterMap_cons_some (f := fun entry : Bytes × Json => (jsonToApproval entry.2).toOption)
        hfound]
      simp only [pendingLoop, hdecode, Bind.bind, Except.bind]
      by_cases hpending : a.IsPending orgId projectId
      · have hcond : a.orgId = orgId ∧ a.projectId = projectId ∧ a.status = bytes "requested" :=
          and_assoc.1 hpending
        have hkept : decide (a.IsPending orgId projectId) = true := decide_eq_true hpending
        have hnext := ih hrest (result ++ [a])
        rw [List.append_assoc, List.singleton_append] at hnext
        rw [if_pos hcond, List.filter_cons, if_pos hkept]
        exact hnext
      · have hcond : ¬ (a.orgId = orgId ∧ a.projectId = projectId ∧ a.status = bytes "requested") :=
          fun h => hpending (and_assoc.2 h)
        have hdropped : ¬ decide (a.IsPending orgId projectId) = true := by simpa using hpending
        rw [if_neg hcond, List.filter_cons, if_neg hdropped]
        exact ih hrest result

theorem pendingApprovals_eq {s : Store} (hdb : Represents s.rocks) :
    pendingApprovals s orgId projectId = .ok (sortByCreated
      ((storedApprovals s.rocks).filter fun a => decide (a.IsPending orgId projectId))) := by
  rw [pendingApprovals, pendingLoop_eq hdb (List.Subset.refl _) []]
  rfl

theorem mem_storedApprovals (hdb : Represents db) {a : Approval} :
    a ∈ storedApprovals db ↔ storedApproval db a.approvalId = some a := by
  constructor
  · intro ha
    rcases List.mem_filterMap.1 ha with ⟨entry, hentry, hdecode⟩
    rcases approval_of_entry hdb hentry with ⟨a', ha', hid⟩
    have hsame : a' = a := by
      rw [ha'] at hdecode
      exact Option.some.inj hdecode
    rw [storedApproval, ← hsame, hid, SortedMap.get_eq_some_iff.2 hentry, Option.bind_some, ha']
    rfl
  · intro hstored
    rcases Option.bind_eq_some_iff.1 hstored with ⟨doc, hget, hdecode⟩
    exact List.mem_filterMap.2 ⟨_, SortedMap.get_eq_some_iff.1 hget, hdecode⟩

theorem storedApprovals_sorted (hdb : Represents db) :
    (storedApprovals db).Pairwise fun a b => a.approvalId < b.approvalId := by
  refine List.pairwise_filterMap.2 ((List.Pairwise.and_mem.1 db.approvals.sorted).imp ?_)
  rintro entry entry' ⟨hentry, hentry', hlt⟩ a ha b hb
  rcases approval_of_entry hdb hentry with ⟨a', ha', hid⟩
  rcases approval_of_entry hdb hentry' with ⟨b', hb', hid'⟩
  rw [ha'] at ha
  rw [hb'] at hb
  cases ha
  cases hb
  rwa [hid, hid']

end Pending

/-! ## The register of approvals -/

/-- What `upsert_approval` stores of a new approval. -/
def Approval.opened (now : Nat → Int) (approval : Approval) : Approval :=
  { approval with
    createdAtMs := if approval.createdAtMs = 0 then now 0 else approval.createdAtMs
    status := if approval.status = [] then bytes "requested" else approval.status }

/-- What `update_approval_status` makes of an approval. -/
def Approval.decided (now : Nat → Int) (a : Approval) (status reviewerId reason : Bytes) : Approval :=
  { a with
    status := status
    reviewerId := reviewerId
    decidedAtMs := now 0
    reason := if reason = [] then a.reason else reason }

abbrev Register := Bytes → Option Approval

/-- A request opens an approval under an id that is free, and a decision of its tenant is entered. -/
def Call.onRegister (now : Nat → Int) : Call → Register → Register
  | upsertApproval approval, reg =>
      match reg approval.approvalId with
      | some _ => reg
      | none => Function.update reg approval.approvalId (some (approval.opened now))
  | updateApprovalStatus approvalId orgId projectId status reviewerId reason, reg =>
      match reg approvalId with
      | none => reg
      | some a =>
          if a.orgId = orgId ∧ a.projectId = projectId then
            Function.update reg approvalId (some (a.decided now status reviewerId reason))
          else reg
  | startRun .., reg | commitRun .., reg | rollbackRun .., reg | appendEvents .., reg
  | putExport .., reg => reg

/-- The call of an action with its clock, if its batch has been written. -/
def Action.took (env : Env) (s : Store) : Action → Option ((Nat → Int) × Call)
  | call now c => if (c.effects env now s).all Effect.quiet then none else some (now, c)
  | stopped now c stop =>
      if ((c.effects env now s).take stop.done).all Effect.quiet then none else some (now, c)
  | reopen => none

/-- The calls that took effect, in their order. -/
def tookAll (env : Env) : Store → List Action → List ((Nat → Int) × Call)
  | _, [] => []
  | s, a :: rest => (a.took env s).toList ++ tookAll env (a.run env s) rest

/-- The register after calls. -/
def registerOf (reg : Register) (calls : List ((Nat → Int) × Call)) : Register :=
  calls.foldl (fun reg t => t.2.onRegister t.1 reg) reg

section Register

variable {env : Env} {now : Nat → Int} {s : Store} {batch : List Put}

theorem write_mem_logThenWrite {α : Type} {opType : WalOpType} {doc : Json} {written : List Put}
    {r : α} (h : Effect.write batch ∈ (logThenWrite env s opType doc written r).effects) :
    batch = written := by
  unfold logThenWrite at h
  cases hdump : env.dump doc with
  | none =>
      rw [hdump] at h
      cases h
  | some text =>
      rw [hdump] at h
      simpa using h

theorem storedApproval_put {db db' : Rocks} {a : Approval}
    (h : db'.approvals = db.approvals.put a.approvalId (approvalToJson a)) :
    storedApproval db' = Function.update (storedApproval db) a.approvalId (some a) := by
  funext id
  unfold storedApproval
  rw [h, SortedMap.get_put, Function.update_apply]
  split_ifs
  · rfl
  · rfl

theorem write_notMem_of_quiet {l : List Effect} (hl : l.all Effect.quiet = true) :
    Effect.write batch ∉ l := fun h => Bool.noConfusion (List.all_eq_true.1 hl _ h)

/-- The batch of an `append_events` call is about no approval. -/
theorem storedApproval_appendEvents {runId orgId projectId : Bytes} {events : List AuditEvent}
    (h : Effect.write batch ∈ (appendEvents env now s runId orgId projectId events).effects) :
    storedApproval (s.rocks.write batch) = storedApproval s.rocks := by
  rcases appendEvents_cases env now s runId orgId projectId events with
    ⟨run, r, hreturned⟩ | ⟨_, es, tail, htail, heffects⟩
  · rw [hreturned.effects] at h
    rcases List.mem_append.1 h with hquiet | hlast
    · exact absurd hquiet (write_notMem_of_quiet (eventEffects_quiet _ _))
    · cases List.mem_singleton.1 hlast
      rw [write_appendBatch]
      rfl
  · rw [heffects] at h
    rcases List.mem_append.1 h with hquiet | hlast
    · exact absurd hquiet (write_notMem_of_quiet (eventEffects_quiet _ _))
    · rcases htail with rfl | rfl
      · cases hlast
      · cases List.mem_singleton.1 hlast

theorem storedApproval_upsert {approval : Approval}
    (h : Effect.write batch ∈ (upsertApproval env now s approval).effects) :
    storedApproval (s.rocks.write batch) =
      (Call.upsertApproval approval).onRegister now (storedApproval s.rocks) := by
  unfold upsertApproval at h
  cases hget : s.rocks.approvals.get approval.approvalId with
  | some doc =>
      rw [hget] at h
      cases h
  | none =>
      rw [hget] at h
      have hbatch := write_mem_logThenWrite h
      have hfree : storedApproval s.rocks approval.approvalId = none := by
        rw [storedApproval, hget]
        rfl
      rw [Call.onRegister, hfree, hbatch]
      exact storedApproval_put (a := approval.opened now) rfl

theorem storedApproval_decide {approvalId orgId projectId status reviewerId reason : Bytes}
    (hs : Consistent s)
    (h : Effect.write batch ∈
      (updateApprovalStatus env now s approvalId orgId projectId status reviewerId reason).effects) :
    storedApproval (s.rocks.write batch) =
      (Call.updateApprovalStatus approvalId orgId projectId status reviewerId reason).onRegister now
        (storedApproval s.rocks) := by
  unfold updateApprovalStatus at h
  cases hget : s.rocks.approvals.get approvalId with
  | none =>
      rw [hget] at h
      cases h
  | some doc =>
      rcases hs.represents.get_approvals hget with ⟨a, hdecode, hstored, hid⟩
      simp only [hget, hdecode] at h
      by_cases hforbidden : a.orgId ≠ orgId ∨ a.projectId ≠ projectId
      · rw [if_pos hforbidden] at h
        cases h
      · rw [if_neg hforbidden] at h
        have hbatch := write_mem_logThenWrite h
        have hown : a.orgId = orgId ∧ a.projectId = projectId := by
          rcases not_or.1 hforbidden with ⟨horg, hproject⟩
          exact ⟨not_not.1 horg, not_not.1 hproject⟩
        rw [hbatch]
        simp only [Call.onRegister, hstored, if_pos hown]
        rw [← hid]
        exact storedApproval_put (a := a.decided now status reviewerId reason) rfl

/-- The batch of a call does to the approvals what the call does to the register. -/
theorem Call.storedApproval_write (hs : Consistent s) {c : Call}
    (h : Effect.write batch ∈ c.effects env now s) :
    storedApproval (s.rocks.write batch) = c.onRegister now (storedApproval s.rocks) := by
  cases c with
  | startRun run =>
      have hmem : Effect.write batch ∈ (ControlDB.startRun env now s run).effects := h
      unfold ControlDB.startRun at hmem
      cases hget : s.rocks.runs.get run.runId with
      | some doc =>
          rw [hget] at hmem
          cases hmem
      | none =>
          rw [hget] at hmem
          rw [write_mem_logThenWrite hmem]
          rfl
  | commitRun runId orgId projectId =>
      have hmem : Effect.write batch ∈
          (ControlDB.commitRun env now s runId orgId projectId).effects := h
      unfold ControlDB.commitRun at hmem
      cases hfetch : fetchRun s.rocks runId orgId projectId with
      | error e =>
          rw [hfetch] at hmem
          cases hmem
      | ok run =>
          rw [hfetch] at hmem
          rw [write_mem_logThenWrite hmem]
          rfl
  | rollbackRun runId orgId projectId reason =>
      have hmem : Effect.write batch ∈
          (ControlDB.rollbackRun env now s runId orgId projectId reason).effects := h
      unfold ControlDB.rollbackRun at hmem
      cases hfetch : fetchRun s.rocks runId orgId projectId with
      | error e =>
          rw [hfetch] at hmem
          cases hmem
      | ok run =>
          simp only [hfetch] at hmem
          cases hmetadata : (if reason = [] then .ok run.metadataJson
            else withRollbackReason env run.metadataJson reason : Except StoreError Bytes) with
          | error e =>
              rw [hmetadata] at hmem
              cases hmem
          | ok metadataJson =>
              rw [hmetadata] at hmem
              rw [write_mem_logThenWrite hmem]
              rfl
  | appendEvents runId orgId projectId events => exact storedApproval_appendEvents h
  | upsertApproval approval => exact storedApproval_upsert h
  | updateApprovalStatus approvalId orgId projectId status reviewerId reason =>
      exact storedApproval_decide hs h
  | putExport exp =>
      rw [write_mem_logThenWrite h]
      rfl

/-- Wherever a call is stopped, its batch is written as a whole or nothing is. -/
theorem EffectShape.rocks_take {c : Call} {effects : List Effect}
    (h : EffectShape env now s c effects) (k : Nat) :
    ((effects.take k).all Effect.quiet = true ∧ (s.applyAll (effects.take k)).rocks = s.rocks) ∨
      ((effects.take k).all Effect.quiet = false ∧
        ∃ batch, Effect.write batch ∈ effects ∧
          (s.applyAll (effects.take k)).rocks = s.rocks.write batch) := by
  have hquiet : ∀ {l : List Effect}, l.all Effect.quiet = true →
      (l.take k).all Effect.quiet = true ∧ (s.applyAll (l.take k)).rocks = s.rocks := by
    intro l hl
    have htaken : (l.take k).all Effect.quiet = true :=
      List.all_eq_true.2 fun e he => List.all_eq_true.1 hl e (List.mem_of_mem_take he)
    exact ⟨htaken, (Store.applyAll_quiet htaken).1⟩
  cases h with
  | nothing => exact .inl (hquiet rfl)
  | @logged opType doc batch p hcommit hp hlogs =>
      -- the log is written first, the batch second, and the mark of the log last
      match k with
      | 0 => exact .inl ⟨rfl, rfl⟩
      | 1 => exact .inl ⟨rfl, rfl⟩
      | 2 => exact .inr ⟨rfl, batch, by simp, rfl⟩
      | k + 3 =>
          rw [List.take_of_length_le (Nat.le_add_left 3 k)]
          exact .inr ⟨rfl, batch, by simp, rfl⟩
  | threw htail =>
      refine .inl (hquiet ?_)
      rcases htail with rfl | rfl <;> simp [eventEffects_quiet, Effect.quiet]
  | @appended es batch hcommit hes =>
      rcases Nat.lt_or_ge (eventEffects s.wal.lastSeq es).length k with hlt | hge
      · rw [List.take_of_length_le (by simpa using Nat.succ_le_of_lt hlt), Store.applyAll_append]
        have hbefore := Store.applyAll_quiet (s := s) (eventEffects_quiet s.wal.lastSeq es)
        refine .inr ⟨?_, batch, by simp, ?_⟩
        · rw [List.all_append, eventEffects_quiet]
          rfl
        · simp [Store.applyAll, Store.apply, ← hbefore.1]
      · rw [List.take_append_of_le_length hge]
        exact .inl (hquiet (eventEffects_quiet _ _))

/-- Step lemma: the approvals change with the calls that take effect, and with nothing else. -/
theorem storedApproval_run (hs : Consistent s) (a : Action) :
    storedApproval (a.run env s).rocks =
      registerOf (storedApproval s.rocks) (a.took env s).toList := by
  -- `rocks` is what the first `k` effects of the call leave
  have htaken : ∀ (now : Nat → Int) (c : Call) (k : Nat) (db : Rocks),
      db = (s.applyAll ((c.effects env now s).take k)).rocks →
      storedApproval db = registerOf (storedApproval s.rocks)
        (if ((c.effects env now s).take k).all Effect.quiet then none else some (now, c)).toList := by
    intro now c k db hdb
    rcases (c.effects_shape env now s).rocks_take k with ⟨hall, hrocks⟩ | ⟨hall, batch, hwrite, hrocks⟩
    · rw [hdb, hrocks, if_pos hall]
      rfl
    · rw [hdb, hrocks, hall, c.storedApproval_write hs hwrite]
      rfl
  cases a with
  | call now c =>
      have h := htaken now c (c.effects env now s).length (s.applyAll (c.effects env now s)).rocks
        (by rw [List.take_length])
      rwa [List.take_length] at h
  | stopped now c stop =>
      exact htaken now c stop.done _ (Store.applyUntil_eq s (c.effects env now s) stop).1
  | reopen => rfl

/-- Run lemma: the approvals column is the register that the calls which took effect lead to. -/
theorem storedApproval_runActions (hs : Consistent s) (actions : List Action) :
    storedApproval (runActions env s actions).rocks =
      registerOf (storedApproval s.rocks) (tookAll env s actions) := by
  induction actions generalizing s with
  | nil => rfl
  | cons a rest ih =>
      have hnext : Consistent (a.run env s) := (a.durable env s).consistent hs
      calc storedApproval (runActions env (a.run env s) rest).rocks
          = registerOf (storedApproval (a.run env s).rocks) (tookAll env (a.run env s) rest) :=
            ih hnext
        _ = registerOf (registerOf (storedApproval s.rocks) (a.took env s).toList)
              (tookAll env (a.run env s) rest) := by rw [storedApproval_run hs a]
        _ = registerOf (storedApproval s.rocks) (tookAll env s (a :: rest)) := by
            rw [tookAll, registerOf, registerOf, registerOf, List.foldl_append]

end Register

/-- In every store that calls lead to, whatever they throw and wherever they stop,
`pending_approvals` lists the approvals of the tenant that the calls which took effect have left
undecided, each once, from the oldest to the newest. -/
theorem pendingApprovals_register (env : Env) (actions : List Action) (orgId projectId : Bytes) :
    ∃ listed, pendingApprovals (runActions env {} actions) orgId projectId = .ok listed ∧
      listed.Pairwise (fun a b => a.createdAtMs ≤ b.createdAtMs) ∧
      (listed.map Approval.approvalId).Nodup ∧
      ∀ a, a ∈ listed ↔
        registerOf (fun _ => none) (tookAll env {} actions) a.approvalId = some a ∧
          a.IsPending orgId projectId := by
  have hdb := (consistent_runActions env actions).represents
  have hregister : storedApproval (runActions env {} actions).rocks =
      registerOf (fun _ => none) (tookAll env {} actions) :=
    storedApproval_runActions consistent_empty actions
  have hperm := List.perm_insertionSort (fun a b : Approval => a.createdAtMs ≤ b.createdAtMs)
    ((storedApprovals (runActions env {} actions).rocks).filter
      fun a => decide (a.IsPending orgId projectId))
  refine ⟨_, pendingApprovals_eq hdb, List.pairwise_insertionSort _ _, ?_, fun a => ?_⟩
  · refine (hperm.map Approval.approvalId).nodup_iff.2 (List.pairwise_map.2 ?_)
    exact ((storedApprovals_sorted hdb).filter _).imp fun hlt => hlt.ne
  · rw [sortByCreated, hperm.mem_iff, List.mem_filter, mem_storedApprovals hdb, hregister,
      decide_eq_true_iff]

end ControlDB
