import ControlDB.Collector.AllOrNothing

/-!
# Tenant isolation of the collector

What a principal's call answers, and the bundle an export writes, is shown to come from rows of the
principal's tenant.  Runs, approvals and events are looked up by ids and keys that callers choose,
so each such lookup stays inside the tenant as long as no row of somebody else has that id or key.
-/

namespace ControlDB
namespace Collector

open Library Python

/-! ## Rows that a principal may see -/

section Shown

variable (db : Database) (principal : Principal)

def ShownRun (d : RunDict) : Prop :=
  ∃ r, db.agentRuns.get d.runId = some r ∧ r.BelongsTo principal ∧ d = runToDict r

def ShownEvent (d : EventDict) : Prop :=
  ∃ e ∈ db.auditEvents, e.BelongsTo principal ∧ d = eventToDict e

def ShownApproval (d : ApprovalDict) : Prop :=
  ∃ a, db.approvals.get d.approvalId = some a ∧ a.BelongsTo principal ∧ d = approvalToDict a

/-- Nothing is named but events of the tenant, and only these are counted. -/
structure ShownVerification (v : Verification) : Prop where
  run : ∃ r, db.agentRuns.get v.runId = some r ∧ r.BelongsTo principal
  eventCount : v.eventCount =
    (db.auditEvents.filter fun e => decide (e.runId = v.runId ∧ e.BelongsTo principal)).length
  brokenAt : ∀ id ∈ v.brokenAtEventId, ∃ e ∈ db.auditEvents, e.BelongsTo principal ∧ e.eventId = id

structure ShownBundle (b : Bundle) : Prop where
  run : ShownRun db principal b.run
  manifestRun : b.manifest.runId = b.run.runId
  manifestCount : b.manifest.eventCount = b.events.length
  brokenAt : ∀ id ∈ b.manifest.brokenAtEventId,
    ∃ e ∈ db.auditEvents, e.BelongsTo principal ∧ e.eventId = id
  events : ∀ d ∈ b.events, ShownEvent db principal d
  stateDiffs : ∀ d ∈ b.stateDiffs, ∃ e ∈ db.auditEvents, e.BelongsTo principal ∧
    d.eventId = e.eventId ∧ d.stepId = e.stepId ∧ d.payload = e.payload
  policyChecks : ∀ d ∈ b.policyChecks, ShownEvent db principal d
  approvals : ∀ d ∈ b.approvals, ShownApproval db principal d

/-- A cursor is the number of an event that is shown beside it. -/
def ShownCursor (events : List EventDict) (cursor : Option Nat) : Prop :=
  ∀ n ∈ cursor, ∃ d ∈ events, d.sequence = n

end Shown

/-- Everything in an answer comes from rows of the principal, as they are before (`db`) or after
(`db'`) the call.  The answers of `request` and `decide` are made before the times of the call are
stored. -/
def Answer.Shown (m : Moment) (db db' : Database) (principal : Principal) : Answer → Prop
  | .run started => ∃ r, db'.agentRuns.get started.runId = some r ∧ r.BelongsTo principal ∧
      started.status = r.status
  | .eventIds ids => ∀ e ∈ db'.auditEvents, e.eventId ∈ ids → e.BelongsTo principal
  | .timeline tl => ShownRun db principal tl.run ∧ (∀ d ∈ tl.events, ShownEvent db principal d) ∧
      ShownCursor tl.events tl.nextCursor
  | .verification v => ShownVerification db principal v
  | .approval d => ∃ a, db'.approvals.get d.approvalId = some a ∧ a.BelongsTo principal ∧
      (d = approvalToDict a ∨ d = approvalToDict { a with createdAt := none } ∨
        d = approvalToDict { a with decidedAt := some (m.now 0) })
  | .approvals ds => ∀ d ∈ ds, ShownApproval db principal d
  | .query q => (∀ d ∈ q.events, ShownEvent db principal d) ∧ ShownCursor q.events q.nextCursor
  | .export res bundle => ShownBundle db principal bundle ∧
      res.eventCount = bundle.events.length ∧ res.hashChainValid = bundle.manifest.hashChainValid

/-- The rows of other tenants are the same. -/
structure Untouched (db db' : Database) (principal : Principal) : Prop where
  runs : ∀ k r, ¬ AgentRun.BelongsTo r principal →
    (db'.agentRuns.get k = some r ↔ db.agentRuns.get k = some r)
  events : ∀ e, ¬ AuditEvent.BelongsTo e principal → (e ∈ db'.auditEvents ↔ e ∈ db.auditEvents)
  approvals : ∀ k a, ¬ Approval.BelongsTo a principal →
    (db'.approvals.get k = some a ↔ db.approvals.get k = some a)

def Confined (env : Env) (db : Database) (r : Request) : Prop :=
  ∀ db' answer, r.perform env db = .ok (db', answer) →
    answer.Shown r.moment db db' r.principal ∧ Untouched db db' r.principal

/-! ## When nobody else's row gets in the way -/

/-- No row of another tenant has the key of an event of the batch, or the id of one that
collides. -/
def ClearFrom (m : Moment) (rows : List AuditEvent) (principal : Principal) :
    List EventInput → Nat → List EventInput → Prop
  | _, _, [] => True
  | fresh, i, event :: rest =>
      (∀ e ∈ rows, ¬ e.BelongsTo principal → ¬ SameKey event.idempotencyKey e.idempotencyKey ∧
        (Collides m rows fresh i event → e.eventId ≠ resolvedEventId m i event)) ∧
        ClearFrom m rows principal (nextFresh m rows fresh i event) (i + 1) rest

instance decidableClearFrom (m : Moment) (rows : List AuditEvent) (principal : Principal) :
    (fresh : List EventInput) → (i : Nat) → (events : List EventInput) →
      Decidable (ClearFrom m rows principal fresh i events)
  | _, _, [] => .isTrue trivial
  | fresh, i, event :: rest =>
      have := decidableClearFrom m rows principal (nextFresh m rows fresh i event) (i + 1) rest
      inferInstanceAs (Decidable (_ ∧ _))

/-- No row of another tenant has the id that the call looks up. -/
def Request.Clear (db : Database) (r : Request) : Prop :=
  match r.call with
  | .startRun runId _ _ _ _ =>
      ∀ run ∈ db.agentRuns.get ((truthy runId).getD ("run_" ++ r.moment.ulid 0)),
        run.BelongsTo r.principal
  | .appendEvents _ events => ClearFrom r.moment db.auditEvents r.principal [] 0 events
  | .request body =>
      ∀ a ∈ db.approvals.get ((truthy body.approvalId).getD ("appr_" ++ r.moment.ulid 0)),
        a.BelongsTo r.principal
  | .exportRun runId _ => ∀ a ∈ runApprovals db runId, a.BelongsTo r.principal
  | _ => True

/-! ## Rows of other tenants -/

section Untouched

variable {env : Env} {principal : Principal} {db db' : Database}

theorem untouched_refl (db : Database) (principal : Principal) : Untouched db db principal where
  runs := fun _ _ _ => Iff.rfl
  events := fun _ _ => Iff.rfl
  approvals := fun _ _ _ => Iff.rfl

/-- Putting an own row over an own one, or where there was none, touches no other. -/
theorem get_put_foreign {V : Type} (own : V → Prop) {rows : SortedMap String V} {k k' : String}
    {v w : V} (hnew : own v) (hold : ∀ u ∈ rows.get k, own u) (hw : ¬ own w) :
    (rows.put k v).get k' = some w ↔ rows.get k' = some w := by
  rw [SortedMap.get_put]
  split_ifs with hk
  · constructor
    · intro h
      exact (hw (Option.some.inj h ▸ hnew)).elim
    · intro h
      rw [hk] at h
      exact (hw (hold w h)).elim
  · exact Iff.rfl

theorem Quiet.untouched (h : Quiet principal db db') : Untouched db db' principal := by
  cases h with
  | @openRun k r hnew hkey hown hhash hcount =>
      -- only a row of the principal is put, in place of none or of another of theirs
      refine { untouched_refl db principal with runs := fun k' r' hr' => ?_ }
      refine get_put_foreign (fun r => AgentRun.BelongsTo r principal) hown ?_ hr'
      rw [hnew]
      simp
  | @updateRun k run r hrun hown hsame =>
      refine { untouched_refl db principal with runs := fun k' r' hr' => ?_ }
      have hr : r.BelongsTo principal := by
        rw [hsame]
        exact hown
      refine get_put_foreign (fun r => AgentRun.BelongsTo r principal) hr ?_ hr'
      rw [hrun]
      simpa using hown
  | @approval k a hkey hown hold =>
      refine { untouched_refl db principal with approvals := fun k' a' ha' => ?_ }
      exact get_put_foreign (fun a => Approval.BelongsTo a principal) hown hold ha'
  | «export» => exact { untouched_refl db principal with }

theorem Change.untouched (h : Change env principal db db') : Untouched db db' principal := by
  cases h with
  | quiet h => exact h.untouched
  | @append m events run s lastHash answers hrun hown hanswers hs =>
      refine { untouched_refl db principal with
        runs := fun k' r' hr' => ?_, events := fun e he => ?_ }
      · refine get_put_foreign (fun r => AgentRun.BelongsTo r principal) hown ?_ hr'
        rw [hrun]
        simpa using hown
      · constructor
        · intro hmem
          rcases List.mem_append.1 hmem with hold | hnew
          · exact hold
          · exact (he (hs.own e hnew).2).elim
        · exact List.mem_append_left _

theorem untouched_of_changes (h : Relation.ReflTransGen (Change env principal) db db') :
    Untouched db db' principal := by
  induction h with
  | refl => exact untouched_refl db principal
  | tail _ hchange ih =>
      have hstep := hchange.untouched
      exact {
        runs := fun k r hr => (hstep.runs k r hr).trans (ih.runs k r hr)
        events := fun e he => (hstep.events e he).trans (ih.events e he)
        approvals := fun k a ha => (hstep.approvals k a ha).trans (ih.approvals k a ha) }

end Untouched

/-! ## Answers to a batch -/

section Batch

variable {env : Env} {m : Moment} {committed : Database} {principal : Principal} {i : Nat}
  {sequence : Nat} {event : EventInput} {events : List EventInput} {s s' : AppendSession}
  {run : AgentRun} {previousHash lastHash : Option String} {answer : AuditEvent}
  {answers : List AuditEvent} {fresh : List EventInput}

theorem Apart.symm {a b : AuditEvent} (h : Apart a b) : Apart b a := by
  refine ⟨h.1.symm, fun hsome hkey => ?_⟩
  exact h.2 (hkey ▸ hsome) hkey.symm

instance : Std.Symm Apart := ⟨fun _ _ => Apart.symm⟩

/-- Two rows that share an id or a key are one. -/
theorem eq_of_not_apart {rows : List AuditEvent} (hrows : rows.Pairwise Apart) {a b : AuditEvent}
    (ha : a ∈ rows) (hb : b ∈ rows) (h : ¬ Apart a b) : a = b := by
  by_contra hne
  exact h (hrows.forall ha hb hne)

theorem not_apart_of_sameKey {key : Option String} {a b : AuditEvent}
    (ha : SameKey key a.idempotencyKey) (hb : SameKey key b.idempotencyKey) : ¬ Apart a b := by
  intro h
  have hsome : b.idempotencyKey.isSome = true := by
    rw [← hb.2]
    cases key with
    | none => cases ha.1
    | some k => rfl
  exact h.2 hsome (ha.2.symm.trans hb.2)

/-- An answer belongs to the principal exactly if its event is clear. -/
theorem Persisted.own_iff (htracks : Tracks fresh s.flushed)
    (hs : SessionInv committed principal run s)
    (h : Persisted env m i committed sequence principal s event previousHash s' answer) :
    answer.BelongsTo principal ↔
      ∀ e ∈ committed.auditEvents, ¬ e.BelongsTo principal →
        ¬ SameKey event.idempotencyKey e.idempotencyKey ∧
          (Collides m committed.auditEvents fresh i event →
            e.eventId ≠ resolvedEventId m i event) := by
  have hvisible : ∀ {e}, e ∈ committed.auditEvents → e ∈ s.visible committed :=
    fun he => List.mem_append_left _ he
  cases h with
  | replayed hfind =>
      rcases findByKey_eq_some hfind with ⟨hmem, hkey⟩
      constructor
      -- a foreign row under the key would be the answer itself
      · intro hown e he hforeign
        refine ⟨fun hsame => ?_, fun hcollides => ?_⟩
        · have heq : answer = e := eq_of_not_apart hs.distinct hmem (hvisible he)
            (not_apart_of_sameKey hkey hsame)
          exact hforeign (heq ▸ hown)
        · exact (htracks.not_collides_of_found hfind hcollides).elim
      · intro hclear
        rcases List.mem_append.1 hmem with hold | hflushed
        · by_contra hforeign
          exact (hclear answer hold hforeign).1 hkey
        · exact (hs.own answer hflushed).2
  | recovered hnone hrow hclash hfind hrun =>
      rcases findById_eq_some hfind with ⟨hmem, hid⟩
      -- the answer is the committed row with the id of the event
      have hid' := hid.trans (newRow_spec hrow).eventId
      constructor
      · intro hown e he hforeign
        refine ⟨findByKey_eq_none hnone (hvisible he), fun _ hsame => ?_⟩
        have heq : answer = e := eq_of_not_apart hs.distinct (hvisible hmem) (hvisible he)
          fun hapart => hapart.1 (hid'.trans hsame.symm)
        exact hforeign (heq ▸ hown)
      · intro hclear
        by_contra hforeign
        exact (hclear answer hmem hforeign).2 (htracks.collides_of_recovered hnone hrow hfind) hid'
  | stored hnone hrow hfree =>
      have hspec := newRow_spec hrow
      constructor
      · intro _ e he _
        refine ⟨findByKey_eq_none hnone (hvisible he), fun hcollides => ?_⟩
        exact (not_collides_of_stored hrow hfree hcollides).elim
      · intro _
        exact ⟨hspec.orgId, hspec.projectId⟩

/-- All answers to a batch belong to the principal exactly if the batch is clear. -/
theorem AppendRun.own_iff (hdb : Sound committed)
    (hrun : committed.agentRuns.get run.runId = some run)
    (h : AppendRun env m committed principal i events s previousHash s' lastHash answers)
    (hs : SessionInv committed principal run s) (htracks : Tracks fresh s.flushed) :
    (∀ a ∈ answers, a.BelongsTo principal) ↔
      ClearFrom m committed.auditEvents principal fresh i events := by
  induction h generalizing fresh with
  | nil => simp [ClearFrom]
  | cons hfirst hrest ih =>
      rw [List.forall_mem_cons, hfirst.own_iff htracks hs,
        ih (hfirst.sessionInv hdb hrun hs) (hfirst.tracks htracks)]
      rfl

/-- An answer is a committed row, or no committed row has its id. -/
theorem AppendRun.answer_cases (hdb : Sound committed)
    (hrun : committed.agentRuns.get run.runId = some run)
    (h : AppendRun env m committed principal i events s previousHash s' lastHash answers)
    (hs : SessionInv committed principal run s) {a : AuditEvent} (ha : a ∈ answers) :
    a ∈ committed.auditEvents ∨ ∀ e ∈ committed.auditEvents, e.eventId ≠ a.eventId := by
  induction h with
  | nil => cases ha
  | @cons i event rest s s₁ s' previousHash lastHash answer answers hfirst hrest ih =>
      rcases List.mem_cons.1 ha with rfl | htail
      -- a flushed row has an id of its own
      · have hflushed : ∀ {f}, f ∈ s.flushed → ∀ e ∈ committed.auditEvents,
            e.eventId ≠ f.eventId := by
          intro f hf e he
          have hpair := List.pairwise_append.1 hs.distinct
          exact (hpair.2.2 e he f hf).1
        cases hfirst with
        | replayed hfind =>
            rcases List.mem_append.1 (findByKey_eq_some hfind).1 with hold | hnew
            · exact .inl hold
            · exact .inr (hflushed hnew)
        | recovered hnone hrow hclash hfind hrun => exact .inl (findById_eq_some hfind).1
        | stored hnone hrow hfree =>
            refine .inr fun e he heq => ?_
            exact hfree ⟨e, List.mem_append_left _ he, .inl heq⟩
      · exact ih (hfirst.sessionInv hdb hrun hs) htail

/-- An answer whose id is not committed was made for the principal. -/
theorem AppendRun.own_of_new (hdb : Sound committed)
    (hrun : committed.agentRuns.get run.runId = some run)
    (h : AppendRun env m committed principal i events s previousHash s' lastHash answers)
    (hs : SessionInv committed principal run s) {a : AuditEvent} (ha : a ∈ answers)
    (hnew : ∀ e ∈ committed.auditEvents, e.eventId ≠ a.eventId) : a.BelongsTo principal := by
  induction h with
  | nil => cases ha
  | @cons i event rest s s₁ s' previousHash lastHash answer answers hfirst hrest ih =>
      rcases List.mem_cons.1 ha with rfl | htail
      · cases hfirst with
        | replayed hfind =>
            rcases List.mem_append.1 (findByKey_eq_some hfind).1 with hold | hflushed
            · exact (hnew a hold rfl).elim
            · exact (hs.own a hflushed).2
        | recovered hnone hrow hclash hfind hrun =>
            exact (hnew a (findById_eq_some hfind).1 rfl).elim
        | stored hnone hrow hfree => exact ⟨(newRow_spec hrow).orgId, (newRow_spec hrow).projectId⟩
      · exact ih (hfirst.sessionInv hdb hrun hs) htail

end Batch

/-! ## Answers to reads -/

section Reads

variable {env : Env} {principal : Principal} {db db' : Database} {runId : String} {run : AgentRun}

theorem mem_bySequence {rows : List AuditEvent} {e : AuditEvent} :
    e ∈ bySequence rows ↔ e ∈ rows :=
  List.mem_insertionSort _

/-- The events of a run have the tenant of the run. -/
theorem Sound.mem_runEvents (hdb : Sound db) (hrun : db.agentRuns.get runId = some run)
    (hown : run.BelongsTo principal) {e : AuditEvent} (he : e ∈ runEvents db runId) :
    e ∈ db.auditEvents ∧ e.BelongsTo principal := by
  rcases List.mem_filter.1 (mem_bySequence.1 he) with ⟨hmem, hid⟩
  rcases hdb.eventRun e hmem with ⟨r, hr, horg, hproject⟩
  rw [of_decide_eq_true hid, hrun] at hr
  cases hr
  exact ⟨hmem, horg.symm.trans hown.1, hproject.symm.trans hown.2⟩

theorem mem_of_mem_page {limit : Int} {cursor : Option Int} {rows : List AuditEvent}
    {e : AuditEvent} (he : e ∈ limitTo limit (afterCursor cursor rows)) : e ∈ rows := by
  have hafter : e ∈ afterCursor cursor rows := by
    unfold limitTo at he
    split_ifs at he
    · exact he
    · exact List.mem_of_mem_take he
  unfold afterCursor at hafter
  cases cursor with
  | none => exact hafter
  | some c =>
      dsimp only at hafter
      split_ifs at hafter
      · exact hafter
      · exact List.mem_of_mem_filter hafter

theorem shownCursor_nextCursor (limit : Int) (rows : List AuditEvent) :
    ShownCursor (rows.map eventToDict) (nextCursor limit rows) := by
  intro n hn
  unfold nextCursor at hn
  split_ifs at hn
  · rcases Option.mem_map.1 hn with ⟨e, he, heq⟩
    exact ⟨eventToDict e, List.mem_map_of_mem (List.mem_of_getLast? he), heq⟩
  · cases hn

theorem shown_runToDict (hdb : Sound db) (hrun : db.agentRuns.get runId = some run)
    (hown : run.BelongsTo principal) : ShownRun db principal (runToDict run) := by
  obtain rfl := hdb.runKey hrun
  exact ⟨run, hrun, hown, rfl⟩

theorem timeline_shown (hdb : Sound db) {limit : Int} {cursor : Option Int} {tl : Timeline}
    (hout : timeline db principal runId limit cursor = .ok tl) :
    ShownRun db principal tl.run ∧ (∀ d ∈ tl.events, ShownEvent db principal d) ∧
      ShownCursor tl.events tl.nextCursor := by
  unfold timeline at hout
  cases hauth : authorizeRun db principal runId with
  | error e => simp [hauth, Bind.bind, Except.bind] at hout
  | ok run =>
      simp only [hauth, Bind.bind, Except.bind, pure, Except.pure, Except.ok.injEq] at hout
      rcases authorizeRun_eq_ok hauth with ⟨hrun, hown⟩
      rw [← hout]
      refine ⟨shown_runToDict hdb hrun hown, ?_, shownCursor_nextCursor _ _⟩
      intro d hd
      rcases List.mem_map.1 hd with ⟨e, he, rfl⟩
      -- the events of a run have its tenant
      rcases hdb.mem_runEvents hrun hown (mem_of_mem_page he) with ⟨hmem, hownEvent⟩
      exact ⟨e, hmem, hownEvent, rfl⟩

theorem query_shown {body : QueryBody} :
    (∀ d ∈ (query db principal body).events, ShownEvent db principal d) ∧
      ShownCursor (query db principal body).events (query db principal body).nextCursor := by
  refine ⟨?_, shownCursor_nextCursor _ _⟩
  intro d hd
  rcases List.mem_map.1 hd with ⟨e, he, rfl⟩
  rcases List.mem_filter.1 (mem_of_mem_page he) with ⟨hmem, hselected⟩
  simp only [Bool.and_eq_true, decide_eq_true_eq] at hselected
  exact ⟨e, mem_bySequence.1 hmem, hselected.1.1, rfl⟩

theorem pending_shown (hdb : Sound db) :
    ∀ d ∈ pending db principal, ShownApproval db principal d := by
  intro d hd
  rcases List.mem_map.1 hd with ⟨a, ha, rfl⟩
  rcases List.mem_filter.1 ((List.mem_insertionSort _).1 ha) with ⟨hmem, hselected⟩
  simp only [decide_eq_true_eq] at hselected
  rcases List.mem_map.1 hmem with ⟨⟨k, a'⟩, hentry, rfl⟩
  have hget := SortedMap.get_eq_some_iff.2 hentry
  have hkey := hdb.approvalKey hget
  exact ⟨a', by rw [← hget, ← hkey]; rfl, ⟨hselected.1, hselected.2.1⟩, rfl⟩

/-- The row that breaks the chain is one of those checked. -/
theorem verifyLoop_mem {previous : Option String} {rows : List AuditEvent} {id : String}
    (h : verifyLoop env run previous rows = .ok (some id)) : ∃ e ∈ rows, e.eventId = id := by
  induction rows generalizing previous with
  | nil => cases h
  | cons row rest ih =>
      unfold verifyLoop at h
      -- the loop stops at a row whose link is wrong, or whose hash
      split_ifs at h with hlink
      · exact ⟨row, List.mem_cons_self, Option.some.inj (Except.ok.inj h)⟩
      · cases hhash : Python.computeEventHash env.sha256 (rowEnvelope run row).members with
        | none => simp [hhash] at h
        | some expected =>
            simp only [hhash] at h
            split_ifs at h with hexpected
            · exact ⟨row, List.mem_cons_self, Option.some.inj (Except.ok.inj h)⟩
            · rcases ih h with ⟨e, he, hid⟩
              exact ⟨e, List.mem_cons_of_mem _ he, hid⟩

theorem verify_shown (hdb : Sound db) {v : Verification}
    (hout : verify env db principal runId = .ok v) : ShownVerification db principal v := by
  unfold verify at hout
  cases hauth : authorizeRun db principal runId with
  | error e => simp [hauth, Bind.bind, Except.bind] at hout
  | ok run =>
      simp only [hauth, Bind.bind, Except.bind] at hout
      cases hloop : verifyLoop env run none (runEvents db runId) with
      | error e => simp [hloop] at hout
      | ok brokenAt =>
          simp only [hloop, pure, Except.pure, Except.ok.injEq] at hout
          rcases authorizeRun_eq_ok hauth with ⟨hrun, hown⟩
          rw [← hout]
          refine ⟨⟨run, hrun, hown⟩, ?_, ?_⟩
          · -- an event of the run is one of the tenant
            have hfilter : (db.auditEvents.filter fun e => decide (e.runId = runId)) =
                db.auditEvents.filter fun e =>
                  decide (e.runId = runId ∧ e.BelongsTo principal) := by
              refine List.filter_congr fun e he => ?_
              by_cases hid : e.runId = runId
              · have hmem : e ∈ runEvents db runId :=
                  mem_bySequence.2 (List.mem_filter.2 ⟨he, decide_eq_true hid⟩)
                simp [hid, (hdb.mem_runEvents hrun hown hmem).2]
              · simp [hid]
            calc
              (runEvents db runId).length =
                  (db.auditEvents.filter fun e => decide (e.runId = runId)).length :=
                List.length_insertionSort _ _
              _ = _ := by rw [hfilter]
          · intro id hid
            have hbroken : brokenAt = some id := hid
            rw [hbroken] at hloop
            rcases verifyLoop_mem hloop with ⟨e, he, heq⟩
            rcases hdb.mem_runEvents hrun hown he with ⟨hmem, hownEvent⟩
            exact ⟨e, hmem, hownEvent, heq⟩

/-- A bundle shows only own rows exactly if the approvals for the run are own. -/
theorem makeBundle_shown_iff (hdb : Sound db) (hrun : db.agentRuns.get runId = some run)
    (hown : run.BelongsTo principal) {m : Moment} {exportId : String} {generatedBy : Option String}
    {v : Verification} (hv : ShownVerification db principal v) :
    ShownBundle db principal (makeBundle m exportId generatedBy run (runEvents db runId)
        (runApprovals db runId) v) ↔ ∀ a ∈ runApprovals db runId, a.BelongsTo principal := by
  -- approvals stand under their own id
  have hget : ∀ a ∈ runApprovals db runId, db.approvals.get a.approvalId = some a := by
    intro a ha
    rcases List.mem_map.1 (List.mem_of_mem_filter ha) with ⟨⟨k, a'⟩, hentry, rfl⟩
    have hk := SortedMap.get_eq_some_iff.2 hentry
    have hkey := hdb.approvalKey hk
    rw [← hk, ← hkey]
  constructor
  · intro hshown a ha
    rcases hshown.approvals (approvalToDict a) (List.mem_map_of_mem ha) with
      ⟨a', ha', hownApproval, _⟩
    have hsame := hget a ha
    rw [show (approvalToDict a).approvalId = a.approvalId from rfl, hsame] at ha'
    exact Option.some.inj ha' ▸ hownApproval
  · intro happrovals
    have hevents : ∀ d ∈ (runEvents db runId).map eventToDict, ShownEvent db principal d := by
      intro d hd
      rcases List.mem_map.1 hd with ⟨e, he, rfl⟩
      rcases hdb.mem_runEvents hrun hown he with ⟨hmem, hownEvent⟩
      exact ⟨e, hmem, hownEvent, rfl⟩
    refine {
      run := shown_runToDict hdb hrun hown
      manifestRun := rfl
      manifestCount := rfl
      brokenAt := hv.brokenAt
      events := hevents
      stateDiffs := ?_
      policyChecks := fun d hd => hevents d (List.mem_of_mem_filter hd)
      approvals := ?_ }
    · intro d hd
      rcases List.mem_map.1 hd with ⟨d', hd', rfl⟩
      rcases hevents d' (List.mem_of_mem_filter hd') with ⟨e, he, hownEvent, rfl⟩
      exact ⟨e, he, hownEvent, rfl, rfl, rfl⟩
    · intro d hd
      rcases List.mem_map.1 hd with ⟨a, ha, rfl⟩
      exact ⟨a, hget a ha, happrovals a ha, rfl⟩

end Reads

/-! ## Answers to writes -/

section Writes

variable {env : Env} {m : Moment} {principal : Principal} {db db' : Database}

/-- `start_run` answers with an own run exactly if nobody else has its id. -/
theorem startRun_shown_iff (hdb : Sound db) {runId : Option String} {agentId environment : String}
    {agentVersion : Option String} {metadata : List (String × PyJson)} {out : StartedRun}
    (hout : startRun env m db principal runId agentId agentVersion environment metadata =
      .ok (db', out)) :
    (Answer.run out).Shown m db db' principal ↔
      ∀ run ∈ db.agentRuns.get ((truthy runId).getD ("run_" ++ m.ulid 0)),
        run.BelongsTo principal := by
  cases runStarted_of_ok hout with
  | @there existing hget =>
      have hkey := hdb.runKey hget
      simp only [hget, Option.mem_def, Option.some.injEq, forall_eq']
      -- an existing run is returned whoever it belongs to
      constructor
      · rintro ⟨r, hr, hown, _⟩
        rw [hkey, hget] at hr
        exact Option.some.inj hr ▸ hown
      · intro hown
        exact ⟨existing, by rw [hkey, hget], hown, rfl⟩
  | opened hget hkey horg hproject hhash hcount =>
      simp only [hget, Option.not_mem_none, false_implies, implies_true, iff_true]
      exact ⟨_, SortedMap.get_put_self _ _ _, ⟨horg, hproject⟩, rfl⟩

theorem RunEnded.shown {runId : String} {out : StartedRun}
    (h : RunEnded db principal runId db' out) : (Answer.run out).Shown m db db' principal := by
  cases h with
  | mk hrun horg hproject status endedAt metadataJson =>
      exact ⟨_, SortedMap.get_put_self _ _ _, ⟨horg, hproject⟩, rfl⟩

/-- The ids that `append_events` returns are those of own events exactly if the batch is clear. -/
theorem appendEvents_shown_iff (hdb : Sound db) {runId : String} {events : List EventInput}
    {ids : List String} (hout : appendEvents env m db principal runId events = .ok (db', ids)) :
    (Answer.eventIds ids).Shown m db db' principal ↔
      ClearFrom m db.auditEvents principal [] 0 events := by
  cases appended_of_ok hout with
  | empty =>
      simp only [ClearFrom, iff_true]
      intro e _ hid
      cases hid
  | @batch _ run s lastHash answers hrun horg hproject hne hanswers =>
      obtain rfl := hdb.runKey hrun
      have hload := sessionInv_load hdb principal run
      have hs := hanswers.sessionInv hdb hrun hload
      rw [← hanswers.own_iff hdb hrun hload tracks_nil, hs.commit_eq hrun]
      constructor
      · intro hshown a ha
        -- an answer is a committed row, or its row was made for the principal
        rcases hanswers.answer_cases hdb hrun hload ha with hold | hnew
        · exact hshown a (List.mem_append_left _ hold) (List.mem_map_of_mem ha)
        · exact hanswers.own_of_new hdb hrun hload ha hnew
      · intro hown e he hid
        rcases List.mem_map.1 hid with ⟨a, ha, heq⟩
        rcases List.mem_append.1 he with hold | hflushed
        · rcases hanswers.answer_cases hdb hrun hload ha with hcommitted | hnew
          · have hsame : a = e := eq_of_not_apart hdb.distinct hcommitted hold
              fun hapart => hapart.1 heq
            exact hsame ▸ hown a ha
          · exact (hnew e hold heq.symm).elim
        · exact (hs.own e hflushed).2

theorem requestApproval_shown_iff (hdb : Sound db) {body : ApprovalBody} {out : ApprovalDict}
    (hout : requestApproval env m db principal body = .ok (db', out)) :
    (Answer.approval out).Shown m db db' principal ↔
      ∀ a ∈ db.approvals.get ((truthy body.approvalId).getD ("appr_" ++ m.ulid 0)),
        a.BelongsTo principal := by
  cases approvalRequested_of_ok hout with
  | @there existing hget =>
      have hkey := hdb.approvalKey hget
      have hgetExisting : db.approvals.get (approvalToDict existing).approvalId = some existing := by
        rw [show (approvalToDict existing).approvalId = existing.approvalId from rfl, hkey, hget]
      simp only [hget, Option.mem_def, Option.some.injEq, forall_eq']
      -- an existing approval is returned whoever it belongs to
      constructor
      · rintro ⟨a, ha, hown, _⟩
        rw [hgetExisting] at ha
        exact Option.some.inj ha ▸ hown
      · intro hown
        exact ⟨existing, hgetExisting, hown, .inl rfl⟩
  | @opened row hget hkey horg hproject =>
      simp only [hget, Option.not_mem_none, false_implies, implies_true, iff_true]
      have hstored : (db.approvals.put ((truthy body.approvalId).getD ("appr_" ++ m.ulid 0))
          row).get (approvalToDict { row with createdAt := none }).approvalId = some row := by
        rw [show (approvalToDict { row with createdAt := none }).approvalId = row.approvalId from rfl,
          hkey, SortedMap.get_put_self]
      exact ⟨row, hstored, ⟨horg, hproject⟩, .inr (.inl rfl)⟩

theorem ApprovalDecided.shown (hdb : Sound db) {approvalId : String} {out : ApprovalDict}
    (h : ApprovalDecided m db principal approvalId db' out) :
    (Answer.approval out).Shown m db db' principal := by
  -- unlike the request, the decision looks at the tenant
  cases h with
  | @mk row row' hget horg hproject hsame =>
      rcases hsame with ⟨hid, horg', hproject'⟩
      have hstored : (db.approvals.put approvalId row').get row'.approvalId = some row' := by
        rw [hid, hdb.approvalKey hget, SortedMap.get_put_self]
      exact ⟨row', hstored, ⟨horg'.trans horg, hproject'.trans hproject⟩, .inr (.inr rfl)⟩

theorem exportRun_shown_iff (hdb : Sound db) {runId : String} {generatedBy : Option String}
    {res : ExportResult} {bundle : Bundle}
    (hout : exportRun env m db principal runId generatedBy = .ok (db', res, bundle)) :
    (Answer.export res bundle).Shown m db db' principal ↔
      ∀ a ∈ runApprovals db runId, a.BelongsTo principal := by
  rcases exportRun_eq_ok hout with ⟨run, v, hrun, hown, hverify, hbundle, hres, _⟩
  rw [← makeBundle_shown_iff hdb hrun hown (verify_shown hdb hverify), ← hbundle]
  constructor
  · intro hshown
    exact hshown.1
  · intro hshown
    refine ⟨hshown, ?_⟩
    rw [hres]
    exact ⟨rfl, rfl⟩

end Writes

/-! ## Requests -/

/-- A request that returns shows only rows of its principal exactly if it is clear. -/
theorem Request.shown_iff {env : Env} {db db' : Database} {r : Request} {answer : Answer}
    (hdb : Sound db) (hout : r.perform env db = .ok (db', answer)) :
    answer.Shown r.moment db db' r.principal ↔ r.Clear db := by
  rcases r with ⟨m, principal, call⟩
  cases call with
  | startRun runId agentId agentVersion environment metadata =>
      rcases exists_of_map_eq_ok hout with ⟨⟨db₁, out⟩, hcall, heq⟩
      cases heq
      exact startRun_shown_iff hdb hcall
  | appendEvents runId events =>
      rcases exists_of_map_eq_ok hout with ⟨⟨db₁, out⟩, hcall, heq⟩
      cases heq
      exact appendEvents_shown_iff hdb hcall
  | commitRun runId =>
      rcases exists_of_map_eq_ok hout with ⟨⟨db₁, out⟩, hcall, heq⟩
      cases heq
      exact iff_of_true (runEnded_of_commitRun hcall).shown trivial
  | rollbackRun runId reason =>
      rcases exists_of_map_eq_ok hout with ⟨⟨db₁, out⟩, hcall, heq⟩
      cases heq
      exact iff_of_true (runEnded_of_rollbackRun hcall).shown trivial
  | timeline runId limit cursor =>
      rcases exists_of_map_eq_ok hout with ⟨tl, hcall, heq⟩
      cases heq
      exact iff_of_true (timeline_shown hdb hcall) trivial
  | verify runId =>
      rcases exists_of_map_eq_ok hout with ⟨v, hcall, heq⟩
      cases heq
      exact iff_of_true (verify_shown hdb hcall) trivial
  | request body =>
      rcases exists_of_map_eq_ok hout with ⟨⟨db₁, out⟩, hcall, heq⟩
      cases heq
      exact requestApproval_shown_iff hdb hcall
  | decide approvalId decision reviewerId reason =>
      rcases exists_of_map_eq_ok hout with ⟨⟨db₁, out⟩, hcall, heq⟩
      cases heq
      exact iff_of_true ((approvalDecided_of_ok hcall).shown hdb) trivial
  | pending =>
      cases hout
      exact iff_of_true (pending_shown hdb) trivial
  | query body =>
      cases hout
      exact iff_of_true query_shown trivial
  | exportRun runId generatedBy =>
      rcases exists_of_map_eq_ok hout with ⟨⟨db₁, res, bundle⟩, hcall, heq⟩
      cases heq
      exact exportRun_shown_iff hdb hcall

/-- In every database that requests lead to, a request is confined to the tenant of its principal if
it is clear; one that returns without being clear is not. -/
theorem confined_of_clear (env : Env) (requests : List Request) (r : Request) :
    (r.Clear (runRequests env {} requests) → Confined env (runRequests env {} requests) r) ∧
      ∀ out, r.perform env (runRequests env {} requests) = .ok out →
        ¬ r.Clear (runRequests env {} requests) →
        ¬ Confined env (runRequests env {} requests) r := by
  have hdb := sound_runRequests env requests
  constructor
  · intro hclear db' answer hout
    exact ⟨(Request.shown_iff hdb hout).2 hclear,
      untouched_of_changes (r.perform_changes hdb hout)⟩
  · intro out hout hforeign hconfined
    rcases out with ⟨db', answer⟩
    exact hforeign ((Request.shown_iff hdb hout).1 (hconfined db' answer hout).1)

namespace IsolationExample

open CollectorExample

def stranger : Principal := ⟨"org_other", "proj_other"⟩

/-- The history of a run with one event. -/
def history : List Request := [start, append [event "evt_a" (some "idem_a")]]

end IsolationExample

open CollectorExample IsolationExample in
/-- The owner's export, with no approval for the run. -/
theorem confined_of_clear_export :
    Confined env (runRequests env {} history) (request (.exportRun "run_1" none)) := by
  refine (confined_of_clear env history _).1 ?_
  have hnone : runApprovals (runRequests env {} history) "run_1" = [] := by
    refine List.isEmpty_iff.1 ?_
    decide +kernel
  intro a ha
  rw [hnone] at ha
  cases ha

open CollectorExample IsolationExample in
/-- Another tenant that starts a run under the id is shown the owner's run. -/
theorem confined_fails_for_stranger :
    ¬ Confined env (runRequests env {} history)
      ⟨moment, stranger, .startRun (some "run_1") "other-agent" none "dev" []⟩ := by
  have hout : ∃ started, startRun env moment (runRequests env {} history) stranger (some "run_1")
      "other-agent" none "dev" [] = .ok (runRequests env {} history, started) ∧
      started.runId = "run_1" := ⟨⟨"run_1", "running", true⟩, rfl, rfl⟩
  have howner : ((runRequests env {} history).agentRuns.get "run_1").map AgentRun.orgId =
      some "org_default" := by decide +kernel
  rcases hout with ⟨started, hstarted, hid⟩
  intro hconfined
  have hshown := (hconfined _ (.run started) (by
    simp only [Request.perform, hstarted]
    rfl)).1
  rcases hshown with ⟨r, hr, hown, _⟩
  rw [hid] at hr
  rw [hr, Option.map_some, Option.some.injEq, hown.1] at howner
  exact absurd howner (by decide)

end Collector
end ControlDB
