import ControlDB.Core.ChainInvariant
import ControlDB.Core.Idempotency
import ControlDB.Core.WalLaw

/-!
# The events column is append-only

A sequence number lives in the counter in memory, in its persisted copy and in the keys of the
events.  A call that throws or stops takes numbers without persisting them, so the counter may run
ahead; it never falls behind the copy, and the copy never behind the keys.
-/

namespace ControlDB

open Library

/-! ## How far the counter can get -/

/-- The number of events a call submits. -/
def Call.submitted : Call → Nat
  | appendEvents _ _ _ events => events.length
  | _ => 0

/-- The number of events submitted in a run. -/
def submitted (actions : List Action) : Nat :=
  (actions.map fun a => (a.call?.map Call.submitted).getD 0).sum

def Effect.takesSeq : Effect → Bool
  | .nextSeq => true
  | _ => false

/-- The sequence numbers that a list of effects takes. -/
def taken (effects : List Effect) : Nat :=
  effects.countP Effect.takesSeq

@[simp] theorem taken_nil : taken [] = 0 := rfl

theorem taken_append (l l' : List Effect) : taken (l ++ l') = taken l + taken l' :=
  List.countP_append

theorem globalSeq_applyAll (s : Store) (l : List Effect) :
    (s.applyAll l).globalSeq = s.globalSeq + taken l := by
  induction l generalizing s with
  | nil => rfl
  | cons e l ih =>
      have hrest : (s.applyAll (e :: l)).globalSeq = (s.apply e).globalSeq + taken l := ih (s.apply e)
      rw [hrest]
      cases e <;> simp [Store.apply, taken, Effect.takesSeq, List.countP_cons]
      omega

theorem taken_accept (st : AppendState) (e : AuditEvent) :
    taken (st.accept e).effects = taken st.effects + 1 := by
  have hone : taken [.nextSeq, .walAppend ⟨st.walSeq + 1, .insertEvent, eventToJson e⟩,
      .markApplied (st.walSeq + 1)] = 1 := rfl
  simp only [AppendState.accept, taken_append, hone]

/-- The loop takes at most one number for each event, also when it throws. -/
theorem appendLoop_taken (env : Env) (now : Nat → Int) (db : Rocks) (run : AgentRun)
    (runId orgId projectId : Bytes) (i : Nat) (events : List AuditEvent) (st : AppendState) :
    (∀ st', appendLoop env now db run runId orgId projectId i events st = .ok st' →
      taken st'.effects ≤ taken st.effects + events.length) ∧
    (∀ effects e, appendLoop env now db run runId orgId projectId i events st =
        .error (effects, e) →
      taken effects ≤ taken st.effects + events.length) := by
  induction events generalizing i st with
  | nil =>
      refine ⟨fun st' h => ?_, fun effects e h => (by cases h)⟩
      cases h
      exact le_rfl
  -- a duplicate takes no number, a new event takes one, before its document is dumped
  | cons ev rest ih =>
      unfold appendLoop
      split_ifs with hdup
      · rcases ih (i + 1) { st with results := st.results ++ [duplicateResult db ev] } with
          ⟨hok, herror⟩
        refine ⟨fun st' h => ?_, fun effects e h => ?_⟩
        · exact (hok st' h).trans (Nat.add_le_add_left (Nat.le_succ _) _)
        · exact (herror effects e h).trans (Nat.add_le_add_left (Nat.le_succ _) _)
      · generalize stampEvent env (now i) run runId orgId projectId (st.seq + 1) st.prevHash ev = e
        dsimp only
        rcases ih (i + 1) (st.accept e) with ⟨hok, herror⟩
        rw [taken_accept] at hok herror
        cases hdump : env.dump (eventToJson e) with
        | none =>
            refine ⟨fun st' h => (by cases h), fun effects thrown h => ?_⟩
            -- `dump` throws after the number was taken: it stays taken
            have heffects : st.effects ++ [.nextSeq] = effects := by
              simp only [Except.error.injEq, Prod.mk.injEq] at h
              exact h.1
            have hone : taken [.nextSeq] = 1 := rfl
            rw [← heffects, taken_append, hone]
            simp only [List.length_cons]
            omega
        | some text =>
            refine ⟨fun st' h => ?_, fun effects thrown h => ?_⟩
            · have hle := hok st' h
              simp only [List.length_cons]
              omega
            · have hle := herror effects thrown h
              simp only [List.length_cons]
              omega

theorem logThenWrite_taken {α : Type} (env : Env) (s : Store) (opType : WalOpType) (doc : Json)
    (batch : List Put) (r : α) : taken (logThenWrite env s opType doc batch r).effects = 0 := by
  unfold logThenWrite
  cases env.dump doc <;> rfl

theorem appendEvents_taken (env : Env) (now : Nat → Int) (s : Store)
    (runId orgId projectId : Bytes) (events : List AuditEvent) :
    taken (appendEvents env now s runId orgId projectId events).effects ≤ events.length := by
  unfold appendEvents
  cases fetchRun s.rocks runId orgId projectId with
  | error e => exact Nat.zero_le _
  | ok run =>
      have hloop := appendLoop_taken env now s.rocks run runId orgId projectId 0 events
        { prevHash := run.lastEventHash, seq := s.globalSeq, walSeq := s.wal.lastSeq }
      -- the write of the run and of the batch takes no numbers
      dsimp only
      cases hresult : appendLoop env now s.rocks run runId orgId projectId 0 events
          { prevHash := run.lastEventHash, seq := s.globalSeq, walSeq := s.wal.lastSeq } with
      | error thrown => simpa using hloop.2 thrown.1 thrown.2 hresult
      | ok st =>
          have hst := hloop.1 st hresult
          dsimp only
          split
          · simpa using hst
          · simpa [taken_append, taken, Effect.takesSeq] using hst

/-- Only `append_events` takes sequence numbers. -/
theorem Call.taken_le (env : Env) (now : Nat → Int) (s : Store) (c : Call) :
    taken (c.effects env now s) ≤ c.submitted := by
  cases c with
  | appendEvents runId orgId projectId events =>
      exact appendEvents_taken env now s runId orgId projectId events
  | startRun run =>
      simp only [Call.effects, ControlDB.startRun]
      split <;> simp [logThenWrite_taken]
  | commitRun runId orgId projectId =>
      simp only [Call.effects, ControlDB.commitRun]
      split <;> simp [logThenWrite_taken, Outcome.throw]
  | rollbackRun runId orgId projectId reason =>
      simp only [Call.effects, ControlDB.rollbackRun]
      split
      · simp [Outcome.throw]
      · split <;> simp [logThenWrite_taken, Outcome.throw]
  | upsertApproval approval =>
      simp only [Call.effects, ControlDB.upsertApproval]
      split <;> simp [logThenWrite_taken]
  | updateApprovalStatus approvalId orgId projectId status reviewerId reason =>
      simp only [Call.effects, ControlDB.updateApprovalStatus]
      split
      · simp [Outcome.throw]
      · split
        · simp [Outcome.throw]
        · split <;> simp [logThenWrite_taken, Outcome.throw]
  | putExport exp => simp [Call.effects, ControlDB.putExport, logThenWrite_taken]

/-- The counter in memory never exceeds the number of events submitted so far. -/
theorem globalSeq_le_submitted (env : Env) (actions : List Action) :
    (runActions env {} actions).globalSeq ≤ submitted actions := by
  induction actions using List.reverseRecOn with
  | nil => exact le_rfl
  | append_singleton actions a ih =>
      have hs := consistent_runActions env actions
      -- a call that is stopped has taken no more numbers than the whole call
      have htaken : ∀ (now : Nat → Int) (c : Call) (k : Nat),
          taken ((c.effects env now (runActions env {} actions)).take k) ≤ c.submitted := by
        intro now c k
        exact ((List.take_sublist _ _).countP_le).trans (c.taken_le env now _)
      rw [runActions_concat]
      cases a with
      | call now c =>
          have hc := c.taken_le env now (runActions env {} actions)
          simp only [Action.run, globalSeq_applyAll, submitted, Action.call?, List.map_append,
            List.sum_append, List.map_cons, List.map_nil, List.sum_cons, List.sum_nil,
            Option.map_some, Option.getD_some] at ih ⊢
          omega
      | stopped now c stop =>
          have hc := htaken now c stop.done
          simp only [Action.run, (Store.applyUntil_eq _ _ _).2, globalSeq_applyAll, submitted,
            Action.call?, List.map_append, List.sum_append, List.map_cons, List.map_nil,
            List.sum_cons, List.sum_nil, Option.map_some, Option.getD_some] at ih ⊢
          omega
      | reopen =>
          -- the counter falls back to its persisted copy
          have hcopy := hs.counter
          simp only [Action.run, Store.reopen, submitted, Action.call?, List.map_append,
            List.sum_append, List.map_cons, List.map_nil, List.sum_cons, List.sum_nil,
            Option.map_none, Option.getD_none] at ih ⊢
          omega

/-! ## What one action does to the column -/

/-- The keys of the events column. -/
def storedKeys (db : Rocks) : List Bytes :=
  db.events.entries.map fun entry => seqToKey entry.1

/-- The keys of the events column that a batch writes. -/
def eventKeys (batch : List Put) : List Bytes :=
  batch.filterMap fun
    | .events seq _ => some (seqToKey seq)
    | _ => none

/-- The column is the list of the stored events under their numbers. -/
theorem Represents.entries_eq {db : Rocks} (hdb : Represents db) :
    db.events.entries = (storedEvents db).map fun e => (e.sequence, eventToJson e) := by
  -- decoding a list of documents is undone by encoding
  have hread : ∀ l : List (Nat × Json),
      (∀ entry ∈ l, ∃ e, entry = (e.sequence, eventToJson e)) →
        l = (l.filterMap fun entry => (jsonToEvent entry.2).toOption).map fun e =>
          (e.sequence, eventToJson e) := by
    intro l hl
    induction l with
    | nil => rfl
    | cons entry l ih =>
        rcases hl entry List.mem_cons_self with ⟨e, rfl⟩
        have hrest := ih fun entry' hmem => hl entry' (List.mem_cons_of_mem _ hmem)
        simpa [Except.toOption] using hrest
  refine hread _ fun entry hentry => ?_
  rcases hdb.eventDoc (SortedMap.get_eq_some_iff.2 hentry) with ⟨e, hdoc, hseq⟩
  exact ⟨e, Prod.ext hseq.symm hdoc⟩

/-- No written key is there already or written twice, the new events are numbered above all that
were stored, and a process that opens the files counts on from the last of them at least. -/
structure AppendOnly (env : Env) (s : Store) (a : Action) : Prop where
  freshKeys : ∀ batch, Effect.write batch ∈ a.performed env s →
    (storedKeys s.rocks ++ eventKeys batch).Nodup
  grows : ∃ new, storedEvents (a.run env s).rocks = storedEvents s.rocks ++ new ∧
    (storedEvents s.rocks ++ new).Pairwise fun e e' => e.sequence < e'.sequence
  reopened : a = .reopen → ∀ e ∈ storedEvents s.rocks, e.sequence ≤ (a.run env s).globalSeq

theorem EffectShape.commit_of_write {env : Env} {now : Nat → Int} {s : Store} {c : Call}
    {effects : List Effect} (h : EffectShape env now s c effects) {batch : List Put}
    (hwrite : Effect.write batch ∈ effects) : ∃ n, Commit env now s c batch n := by
  -- what stands before the batch writes nothing
  have hquiet : ∀ {l : List Effect}, l.all Effect.quiet = true → Effect.write batch ∉ l := by
    intro l hl hmem
    exact absurd (List.all_eq_true.1 hl _ hmem) (by simp [Effect.quiet])
  cases h with
  | nothing => exact absurd hwrite List.not_mem_nil
  | @logged opType doc batch' p hcommit hp hlogs =>
      have hsame : batch = batch' := by simpa using hwrite
      exact ⟨0, hsame ▸ hcommit⟩
  | threw htail =>
      refine absurd hwrite (hquiet ?_)
      rcases htail with rfl | rfl <;> simp [eventEffects_quiet, Effect.quiet]
  | @appended es batch' hcommit hes =>
      rcases List.mem_append.1 hwrite with hevent | hlast
      · exact absurd hevent (hquiet (eventEffects_quiet _ _))
      · have hsame : batch = batch' := by simpa using hlast
        exact ⟨es.length, hsame ▸ hcommit⟩

theorem eventKeys_appendBatch (es : List AuditEvent) (runId : Bytes) (run : AgentRun) (seq : Nat) :
    eventKeys (appendBatch es runId run seq) = es.map fun e => seqToKey e.sequence := by
  -- each event has one put in the events column
  have hone : ∀ e : AuditEvent, eventKeys (eventPuts e) = [seqToKey e.sequence] := by
    intro e
    by_cases hkey : e.idempotencyKey = []
    · simp [eventKeys, eventPuts, idempotencyPuts, hkey]
    · simp [eventKeys, eventPuts, idempotencyPuts, hkey]
  have hall : eventKeys (es.flatMap eventPuts) = es.map fun e => seqToKey e.sequence := by
    induction es with
    | nil => rfl
    | cons e es ih =>
        have hsplit : eventKeys (eventPuts e ++ es.flatMap eventPuts) =
            eventKeys (eventPuts e) ++ eventKeys (es.flatMap eventPuts) := List.filterMap_append
        simp [hsplit, hone, ih]
  have hsplit : eventKeys (appendBatch es runId run seq) = eventKeys (es.flatMap eventPuts) ++ [] :=
    List.filterMap_append
  rw [hsplit, hall, List.append_nil]

/-- Numbers in increasing order that fit eight bytes have distinct keys. -/
theorem nodup_seqToKey {l : List Nat} (hl : l.Pairwise (· < ·)) (hfit : ∀ n ∈ l, n < 2 ^ 64) :
    (l.map seqToKey).Nodup := by
  refine List.Nodup.map_on ?_ (hl.imp fun h => h.ne)
  intro a ha b hb h
  calc a = keyToSeq (seqToKey a) := (keyToSeq_seqToKey (hfit a ha)).symm
    _ = keyToSeq (seqToKey b) := by rw [h]
    _ = b := keyToSeq_seqToKey (hfit b hb)

/-- The events a batch stores come after those that are stored. -/
theorem Commit.grows {env : Env} {now : Nat → Int} {s : Store} {c : Call} {batch : List Put}
    {n : Nat} (hs : Consistent s) (hcommit : Commit env now s c batch n) :
    ∃ new, storedEvents (s.rocks.write batch) = storedEvents s.rocks ++ new ∧
      (storedEvents s.rocks ++ new).Pairwise (fun e e' => e.sequence < e'.sequence) ∧
      eventKeys batch = (new.map fun e => seqToKey e.sequence) ∧
      (∀ e ∈ new, e.sequence ≤ s.globalSeq + n) := by
  -- the list of stored events stays sorted, so the new ones come last
  have hdb' := hcommit.represents hs
  cases hcommit with
  | @appendEvents runId orgId projectId events es run r hfetch hsame hes hhash hcount =>
      have hstored := hs.storedEvents_append env now events hfetch hsame
      have happend := hs.appendable env now events hfetch hsame
      rw [← hes] at hstored happend
      refine ⟨es, hstored, ?_, eventKeys_appendBatch _ _ _ _, fun e he => ?_⟩
      · rw [← hstored]
        exact hdb'.storedEvents_sorted
      · exact (happend.numbered.bounds he).2
  | _ =>
      refine ⟨[], ?_, ?_, rfl, by simp⟩
      · rw [List.append_nil]
        rfl
      · rw [List.append_nil]
        exact hs.represents.storedEvents_sorted

theorem Commit.length_le {env : Env} {now : Nat → Int} {s : Store} {c : Call} {batch : List Put}
    {n : Nat} (hcommit : Commit env now s c batch n) : n ≤ c.submitted := by
  cases hcommit with
  | @appendEvents runId orgId projectId events es run r hfetch hsame hes hhash hcount =>
      have hkeys : (s.accepted env now run runId orgId projectId events).map keyAndId =
          (events.filter fun ev => decide (¬ isDuplicate s.rocks ev)).map keyAndId :=
        acceptedEvents_keys 0 events s.globalSeq run.lastEventHash
      rw [← hes] at hkeys
      calc es.length
          = (events.filter fun ev => decide (¬ isDuplicate s.rocks ev)).length := by
            simpa using congrArg List.length hkeys
        _ ≤ events.length := List.length_filter_le _ _
  | _ => exact Nat.zero_le _

theorem Action.commit_of_performed {env : Env} {s : Store} {a : Action} {batch : List Put}
    (hwrite : Effect.write batch ∈ a.performed env s) :
    ∃ now c n, a.call? = some c ∧ Commit env now s c batch n := by
  cases a with
  | call now c =>
      rcases (c.effects_shape env now s).commit_of_write hwrite with ⟨n, hcommit⟩
      exact ⟨now, c, n, rfl, hcommit⟩
  | stopped now c stop =>
      rcases performed_eq_take env s now c stop with ⟨k, hk⟩
      have heffects : Effect.write batch ∈ c.effects env now s :=
        List.mem_of_mem_take (hk ▸ hwrite)
      rcases (c.effects_shape env now s).commit_of_write heffects with ⟨n, hcommit⟩
      exact ⟨now, c, n, rfl, hcommit⟩
  | reopen => exact absurd hwrite List.not_mem_nil

/-- Step lemma: as long as the numbers fit their eight bytes, every action is append-only. -/
theorem Action.appendOnly {env : Env} {s : Store} {a : Action} (hs : Consistent s)
    (hfit : ∀ c, a.call? = some c → s.globalSeq + c.submitted < 2 ^ 64)
    (hnow : s.globalSeq < 2 ^ 64) : AppendOnly env s a := by
  refine ⟨?_, ?_, ?_⟩
  · intro batch hwrite
    rcases a.commit_of_performed hwrite with ⟨now, c, n, hc, hcommit⟩
    rcases hcommit.grows hs with ⟨new, _, hsorted, hkeys, hbound⟩
    -- the keys stored and written are those of the events before and after
    have hlist : storedKeys s.rocks ++ eventKeys batch =
        ((storedEvents s.rocks ++ new).map AuditEvent.sequence).map seqToKey := by
      simp [storedKeys, hs.represents.entries_eq, hkeys, Function.comp_def]
    rw [hlist]
    refine nodup_seqToKey (List.pairwise_map.2 hsorted) fun m hm => ?_
    rcases List.mem_map.1 hm with ⟨e, he, rfl⟩
    -- numbers below `2 ^ 64` have different keys
    rcases List.mem_append.1 he with hold | hnew
    · have hle := hs.represents.seqBound e hold
      have hcopy := hs.counter
      omega
    · have hle := hbound e hnew
      have hn := hcommit.length_le
      have hroom := hfit c hc
      omega
  · generalize hc : a.call? = c
    have hdurable := hc ▸ a.durable env s
    cases hdurable with
    | quiet hrocks hseq =>
        refine ⟨[], by rw [hrocks, List.append_nil], ?_⟩
        rw [List.append_nil]
        exact hs.represents.storedEvents_sorted
    | committed hcommit hrocks hseq =>
        rcases hcommit.grows hs with ⟨new, hnew, hsorted, _⟩
        exact ⟨new, hrocks ▸ hnew, hsorted⟩
  · rintro rfl e he
    exact hs.represents.seqBound e he

/-- With fewer than `2 ^ 63` events submitted in all, every action of every run is append-only,
whatever the calls before it threw and wherever they stopped. -/
theorem appendOnly_runActions (env : Env) {actions before after : List Action} {a : Action}
    (hfew : submitted actions < 2 ^ 63) (hsplit : actions = before ++ a :: after) :
    AppendOnly env (runActions env {} before) a := by
  have hcounter := globalSeq_le_submitted env before
  have htotal : submitted before + (a.call?.map Call.submitted).getD 0 ≤ submitted actions := by
    simp only [hsplit, submitted, List.map_append, List.sum_append, List.map_cons, List.sum_cons]
    omega
  refine Action.appendOnly (consistent_runActions env before) (fun c hc => ?_) (by omega)
  simp only [hc, Option.map_some, Option.getD_some] at htotal
  omega

open ChainExample in
/-- The last batch of the example, after a stopped call and a reopening. -/
theorem appendOnly_runActions_example :
    AppendOnly env (runActions env {} (actions.take 4))
      (.call clock (append [event "evt_001" "idem_001", event "evt_002" ""])) := by
  have hsplit : actions = actions.take 4 ++
      .call clock (append [event "evt_001" "idem_001", event "evt_002" ""]) :: [] := rfl
  exact appendOnly_runActions env (by decide) hsplit

end ControlDB
