import ControlDB.Library.Runs
import ControlDB.Collector.RunInvariant

/-!
# Concurrent appends

Several collectors share one database, which runs their transactions at READ COMMITTED: a statement
sees what is committed when it starts and what its own transaction wrote.  A call of `append_events`
reads the run row without a lock, then looks up and inserts its events one by one, and at its commit
writes the columns of the run row it changed.  Between any two of these steps other calls make
theirs.

The `sequence` column counts the inserts of all transactions, also of those that fail.  An insert
whose unique columns clash with a row of an open transaction waits.
-/

namespace ControlDB
namespace Collector

open Library Python

/-! ## Calls that have begun -/

/-- A call of `append_events`: the events it has not answered, numbered from `next` on, its unit of
work, and whether the next event's key was looked up and not found. -/
structure AppendCall where
  moment : Moment
  principal : Principal
  rest : List EventInput
  next : Nat := 0
  session : AppendSession
  previousHash : Option String
  accepted : Nat := 0
  looked : Bool := false
  isOpen : Bool := true

/-- The call returned, raised, or its process stopped. -/
def AppendCall.close (c : AppendCall) : AppendCall :=
  { c with isOpen := false }

/-- The next event is answered by a row with this hash. -/
def AppendCall.answer (c : AppendCall) (s : AppendSession) (hash : String) : AppendCall :=
  { c with
    rest := c.rest.tail
    next := c.next + 1
    session := s
    previousHash := some hash
    accepted := c.accepted + 1
    looked := false }

structure Shared where
  db : Database := {}
  sequence : Nat := 1
  calls : List AppendCall := []

def Shared.openCall (st : Shared) (k : Nat) : Option AppendCall :=
  st.calls[k]?.filter AppendCall.isOpen

/-- An open call and its next event. -/
def Shared.nextEvent (st : Shared) (k : Nat) : Option (AppendCall × EventInput) :=
  (st.openCall k).bind fun c => c.rest.head?.map fun event => (c, event)

def Shared.setCall (st : Shared) (k : Nat) (c : AppendCall) : Shared :=
  { st with calls := st.calls.set k c }

/-! ## Steps -/

/-- The end of `_persist_event`, when no row has the event's key. -/
def insertEvent (env : Env) (m : Moment) (i : Nat) (committed : Database) (sequence : Nat)
    (principal : Principal) (s : AppendSession) (event : EventInput)
    (previousHash : Option String) : Except PyError (AppendSession × String × String) := do
  let row ← newRow env m i sequence principal s.run event previousHash
  if Clashes (s.visible committed) row then
    match findById committed.auditEvents row.eventId, committed.agentRuns.get s.run.runId with
    | some existing, some run =>
        return ({ loaded := run, run := run }, existing.eventId, existing.eventHash)
    | _, _ => .error PyError.integrity
  else
    return ({ s with run := updateStatus s.run row, flushed := s.flushed ++ [row] },
      row.eventId, row.eventHash)

/-- With nothing in between, a lookup and an insert are `_persist_event`. -/
theorem persistEvent_eq (env : Env) (m : Moment) (i : Nat) (committed : Database) (sequence : Nat)
    (principal : Principal) (s : AppendSession) (event : EventInput)
    (previousHash : Option String) :
    persistEvent env m i committed sequence principal s event previousHash =
      if event.eventType ∉ eventTypes then
        .error (.ingest ("unknown event_type: " ++ event.eventType) 422)
      else
        match findByKey (s.visible committed) event.idempotencyKey with
        | some existing => .ok (s, existing.eventId, existing.eventHash)
        | none => insertEvent env m i committed sequence principal s event previousHash := rfl

/-- A step of one of the processes: a call of the run lifecycle that stores no event, or a step of
an append. -/
inductive Step
  | lifecycle (r : Request)
  | begin (m : Moment) (principal : Principal) (runId : String) (events : List EventInput)
  | lookup (k : Nat)
  | insert (k : Nat)
  | commit (k : Nat)
  | abort (k : Nat)

/-- The calls of the run lifecycle that store no event. -/
def Request.IsStatus (r : Request) : Bool :=
  match r.call with
  | .startRun .. | .commitRun .. | .rollbackRun .. => true
  | _ => false

def Step.run (env : Env) (st : Shared) : Step → Option Shared
  | lifecycle r => if r.IsStatus then some { st with db := r.run env st.db } else none
  | begin m principal runId events =>
      match events, authorizeRun st.db principal runId with
      | event :: rest, .ok run =>
          let c : AppendCall :=
            { moment := m
              principal := principal
              rest := event :: rest
              session := { loaded := run, run := run }
              previousHash := run.lastEventHash }
          some { st with calls := st.calls ++ [c] }
      | _, _ => none
  | lookup k =>
      match st.nextEvent k with
      | none => none
      | some (c, event) =>
          if c.looked then none
          else if event.eventType ∉ eventTypes then some (st.setCall k c.close)
          else
            match findByKey (c.session.visible st.db) event.idempotencyKey with
            | some existing => some (st.setCall k (c.answer c.session existing.eventHash))
            | none => some (st.setCall k { c with looked := true })
  | insert k =>
      match st.nextEvent k with
      | none => none
      | some (c, event) =>
          if ¬ c.looked then none
          else
            match newRow env c.moment c.next st.sequence c.principal c.session.run event
                c.previousHash with
            | .error _ => some (st.setCall k c.close)
            | .ok row =>
                if ∃ other ∈ st.calls.eraseIdx k, other.isOpen ∧ Clashes other.session.flushed row
                then none
                else
                  let st' := { st with sequence := st.sequence + 1 }
                  match insertEvent env c.moment c.next st.db st.sequence c.principal c.session
                      event c.previousHash with
                  | .ok (s, _, hash) => some (st'.setCall k (c.answer s hash))
                  | .error _ => some (st'.setCall k c.close)
  | commit k =>
      match st.openCall k with
      | none => none
      | some c =>
          if c.rest.isEmpty then
            some { st.setCall k c.close with
              db := (c.session.finish c.previousHash c.accepted).commit st.db }
          else none
  | abort k => (st.openCall k).map fun c => st.setCall k c.close

/-! ## Undisturbed steps -/

/-- No event is answered by an old row, and a call commits only if the run row still has the count
it read. -/
def Undisturbed (st : Shared) : Step → Prop
  | .lookup k =>
      match st.nextEvent k with
      | some (c, event) =>
          (findByKey (c.session.visible st.db) event.idempotencyKey).isNone = true
      | none => True
  | .insert k =>
      match st.nextEvent k with
      | some (c, event) =>
          (findById st.db.auditEvents (resolvedEventId c.moment c.next event)).isNone = true
      | none => True
  | .commit k =>
      match st.openCall k with
      | some c =>
          (st.db.agentRuns.get c.session.loaded.runId).map AgentRun.eventCount =
            some c.session.loaded.eventCount
      | none => True
  | _ => True

instance (st : Shared) (step : Step) : Decidable (Undisturbed st step) := by
  unfold Undisturbed
  cases step <;> dsimp only <;> first | infer_instance | (split <;> infer_instance)

/-! ## The invariant -/

/-- What an open call has done so far.  As long as the run row has the count it read, no event was
added to the run, and its rows continue the chain. -/
structure CallInv (db : Database) (sequence : Nat) (c : AppendCall) : Prop where
  row : ∃ row, db.agentRuns.get c.session.loaded.runId = some row ∧
    c.session.loaded.eventCount ≤ row.eventCount ∧
    (row.eventCount = c.session.loaded.eventCount →
      row.lastEventHash = c.session.loaded.lastEventHash ∧
      ∀ e ∈ db.auditEvents, e.runId = c.session.loaded.runId →
        ∀ f ∈ c.session.flushed, e.sequence < f.sequence)
  sameRun : c.session.run = { c.session.loaded with
    status := c.session.run.status, endedAt := c.session.run.endedAt }
  own : ∀ f ∈ c.session.flushed, f.runId = c.session.loaded.runId
  linked : Linked AuditEvent.previousEventHash AuditEvent.eventHash
    c.session.loaded.lastEventHash c.session.flushed
  last : c.previousHash =
    lastLink AuditEvent.eventHash c.session.loaded.lastEventHash c.session.flushed
  accepted : c.accepted = c.session.flushed.length
  nonempty : 0 < c.accepted + c.rest.length
  sorted : c.session.flushed.Pairwise fun a b => a.sequence < b.sequence
  below : ∀ f ∈ c.session.flushed, f.sequence < sequence

structure SharedInv (st : Shared) : Prop where
  runKey : ∀ {k r}, st.db.agentRuns.get k = some r → r.runId = k
  eventRun : ∀ e ∈ st.db.auditEvents, (st.db.agentRuns.get e.runId).isSome = true
  sorted : ∀ runId, (st.db.auditEvents.filter fun e => decide (e.runId = runId)).Pairwise
    fun a b => a.sequence < b.sequence
  below : ∀ e ∈ st.db.auditEvents, e.sequence < st.sequence
  law : RunInvariant st.db
  calls : ∀ c ∈ st.calls, c.isOpen = true → CallInv st.db st.sequence c

theorem sharedInv_init : SharedInv {} where
  runKey := by simp
  eventRun := by simp
  sorted := by simp
  below := by simp
  law := by
    intro runId run hrun
    simp at hrun
  calls := by simp

/-! ## What a step keeps -/

section Steps

variable {env : Env} {principal : Principal} {db db' : Database} {n n' : Nat} {c : AppendCall}
  {st st' : Shared} {k : Nat} {row : AgentRun}

theorem openCall_mem (h : st.openCall k = some c) : c ∈ st.calls ∧ c.isOpen = true := by
  rcases Option.filter_eq_some_iff.1 h with ⟨hk, hopen⟩
  exact ⟨List.mem_of_getElem? hk, hopen⟩

theorem nextEvent_eq_some {event : EventInput} (h : st.nextEvent k = some (c, event)) :
    st.openCall k = some c ∧ ∃ rest, c.rest = event :: rest := by
  rcases Option.bind_eq_some_iff.1 h with ⟨c', hopen, hhead⟩
  rcases Option.map_eq_some_iff.1 hhead with ⟨event', hevent, heq⟩
  cases heq
  rcases List.head?_eq_some_iff.1 hevent with ⟨rest, hrest⟩
  exact ⟨hopen, rest, hrest⟩

theorem CallInv.mono (h : CallInv db n c) (hn : n ≤ n') : CallInv db n' c :=
  { h with below := fun f hf => lt_of_lt_of_le (h.below f hf) hn }

/-- Replacing a call, and using up sequence numbers, keeps the rest. -/
theorem SharedInv.setCall (h : SharedInv st) (hn : st.sequence ≤ n)
    (hc : c.isOpen = true → CallInv st.db n c) :
    SharedInv { st.setCall k c with sequence := n } := by
  refine { h with below := fun e he => lt_of_lt_of_le (h.below e he) hn, calls := ?_ }
  intro d hd hopen
  rcases List.mem_or_eq_of_mem_set hd with hold | rfl
  · exact (h.calls d hold hopen).mono hn
  · exact hc hopen

theorem SharedInv.runEvents_eq (h : SharedInv st) (runId : String) :
    runEvents st.db runId = st.db.auditEvents.filter fun e => decide (e.runId = runId) :=
  runEvents_eq_filter (h.sorted runId)

theorem SharedInv.runEvents_eq_nil (h : SharedInv st) (runId : String)
    (hnew : st.db.agentRuns.get runId = none) : runEvents st.db runId = [] := by
  rw [h.runEvents_eq]
  refine List.filter_eq_nil_iff.2 fun e he hid => ?_
  have hrun := h.eventRun e he
  rw [of_decide_eq_true hid, hnew] at hrun
  cases hrun

/-! ### Calls that store no event -/

theorem Request.run_status {r : Request} (h : r.IsStatus = true) :
    r.run env db = db ∨ Quiet r.principal db (r.run env db) := by
  rcases r with ⟨m, principal, call⟩
  cases call with
  | startRun runId agentId agentVersion environment metadata =>
      simp only [Request.run, Request.perform]
      cases hout : Collector.startRun env m db principal runId agentId agentVersion environment
          metadata with
      | error e => exact .inl rfl
      | ok out => exact (runStarted_of_ok hout).change
  | commitRun runId =>
      simp only [Request.run, Request.perform]
      cases hout : Collector.commitRun env m db principal runId with
      | error e => exact .inl rfl
      | ok out => exact .inr (runEnded_of_commitRun hout).change
  | rollbackRun runId reason =>
      simp only [Request.run, Request.perform]
      cases hout : Collector.rollbackRun env m db principal runId reason with
      | error e => exact .inl rfl
      | ok out => exact .inr (runEnded_of_rollbackRun hout).change
  | _ => cases h

theorem Quiet.auditEvents (h : Quiet principal db db') : db'.auditEvents = db.auditEvents := by
  cases h <;> rfl

/-- A stored run keeps its hash and count, under its key. -/
theorem Quiet.get_run (h : Quiet principal db db') {runId : String}
    (hrow : db.agentRuns.get runId = some row) :
    ∃ row', db'.agentRuns.get runId = some row' ∧ row'.runId = row.runId ∧
      row'.lastEventHash = row.lastEventHash ∧ row'.eventCount = row.eventCount := by
  cases h with
  | @openRun k r hnew hkey hown hhash hcount =>
      have hne : runId ≠ k := by
        rintro rfl
        rw [hnew] at hrow
        cases hrow
      exact ⟨row, by rw [SortedMap.get_put_of_ne _ _ hne, hrow], rfl, rfl, rfl⟩
  | @updateRun k old r hold hown hsame =>
      by_cases hid : runId = k
      · have hrowOld : row = old := by
          rw [hid, hold] at hrow
          exact (Option.some.inj hrow).symm
        refine ⟨r, by rw [hid, SortedMap.get_put_self], ?_, ?_, ?_⟩
        · rw [hsame, hrowOld]
        · rw [hsame, hrowOld]
        · rw [hsame, hrowOld]
      · exact ⟨row, by rw [SortedMap.get_put_of_ne _ _ hid, hrow], rfl, rfl, rfl⟩
  | approval => exact ⟨row, hrow, rfl, rfl, rfl⟩
  | «export» => exact ⟨row, hrow, rfl, rfl, rfl⟩

theorem CallInv.quiet (h : CallInv db n c) (hquiet : Quiet principal db db') :
    CallInv db' n c := by
  rcases h.row with ⟨row, hrow, hle, hsame⟩
  rcases hquiet.get_run hrow with ⟨row', hrow', _, hhash, hcount⟩
  refine { h with row := ⟨row', hrow', hcount ▸ hle, ?_⟩ }
  rw [hcount, hhash, hquiet.auditEvents]
  exact hsame

theorem SharedInv.quiet (h : SharedInv st) (hquiet : Quiet principal st.db db') :
    SharedInv { st with db := db' } where
  runKey := by
    intro k r hr
    cases hquiet with
    | @openRun k' r' hnew hkey hown hhash hcount =>
        dsimp only at hr
        rw [SortedMap.get_put] at hr
        split_ifs at hr with hk
        · rw [← Option.some.inj hr, hk, hkey]
        · exact h.runKey hr
    | @updateRun k' old r' hold hown hsame =>
        dsimp only at hr
        rw [SortedMap.get_put] at hr
        split_ifs at hr with hk
        · have hkey := h.runKey hold
          rw [← Option.some.inj hr, hk, hsame, hkey]
        · exact h.runKey hr
    | approval => exact h.runKey hr
    | «export» => exact h.runKey hr
  eventRun := by
    intro e he
    dsimp only at he ⊢
    rw [hquiet.auditEvents] at he
    rcases Option.isSome_iff_exists.1 (h.eventRun e he) with ⟨row, hrow⟩
    rcases hquiet.get_run hrow with ⟨row', hrow', _⟩
    rw [hrow']
    rfl
  sorted := by
    dsimp only
    rw [hquiet.auditEvents]
    exact h.sorted
  below := by
    dsimp only
    rw [hquiet.auditEvents]
    exact h.below
  law := hquiet.runInvariant h.runEvents_eq_nil h.law
  calls := fun c hc hopen => (h.calls c hc hopen).quiet hquiet

/-! ### Reading, inserting and committing -/

theorem SharedInv.begin (h : SharedInv st) {m : Moment} {runId : String} {event : EventInput}
    {rest : List EventInput} (hauth : authorizeRun st.db principal runId = .ok row) :
    SharedInv { st with calls := st.calls ++ [{
      moment := m
      principal := principal
      rest := event :: rest
      session := { loaded := row, run := row }
      previousHash := row.lastEventHash }] } := by
  have hrow := (authorizeRun_eq_ok hauth).1
  have hkey := h.runKey hrow
  refine { h with calls := ?_ }
  intro c hc hopen
  -- the new call has read the row as it is and written nothing
  rcases List.mem_append.1 hc with hold | hnew
  · exact h.calls c hold hopen
  · rw [List.mem_singleton.1 hnew]
    exact {
      row := ⟨row, by rw [hkey, hrow], le_rfl, fun _ => ⟨rfl, by simp⟩⟩
      sameRun := rfl
      own := by simp
      linked := trivial
      last := rfl
      accepted := rfl
      nonempty := by simp
      sorted := .nil
      below := by simp }

/-- A new row continues the rows of its call. -/
theorem CallInv.insert (h : CallInv db n c) (hbelow : ∀ e ∈ db.auditEvents, e.sequence < n)
    {event : EventInput} {answer : AuditEvent}
    (hrow : newRow env c.moment c.next n c.principal c.session.run event c.previousHash = .ok answer) :
    CallInv db (n + 1) (c.answer
      { c.session with
        run := updateStatus c.session.run answer
        flushed := c.session.flushed ++ [answer] } answer.eventHash) := by
  have hspec := newRow_spec hrow
  have hid : c.session.run.runId = c.session.loaded.runId := by rw [h.sameRun]
  have hlast : ∀ f ∈ c.session.flushed ++ [answer], f ∈ c.session.flushed ∨ f = answer := by
    intro f hf
    simpa using hf
  rcases h.row with ⟨row, hget, hle, hsame⟩
  refine {
    row := ⟨row, hget, hle, ?_⟩
    sameRun := ?_
    own := ?_
    linked := ?_
    last := ?_
    accepted := ?_
    nonempty := Nat.add_pos_left (Nat.succ_pos _) _
    sorted := ?_
    below := ?_ }
  -- all events of the run that are stored by now have smaller numbers
  · intro hcount
    refine ⟨(hsame hcount).1, ?_⟩
    intro e he hrunId f hf
    rcases hlast f hf with hold | rfl
    · exact (hsame hcount).2 e he hrunId f hold
    · rw [hspec.sequence]
      exact hbelow e he
  · dsimp only [AppendCall.answer]
    rw [updateStatus_same, h.sameRun]
  · intro f hf
    rcases hlast f hf with hold | rfl
    · exact h.own f hold
    · exact hspec.runId.trans hid
  · dsimp only [AppendCall.answer]
    rw [linked_append, ← h.last]
    exact ⟨h.linked, hspec.previousEventHash, trivial⟩
  · dsimp only [AppendCall.answer]
    rw [lastLink_append]
    rfl
  · dsimp only [AppendCall.answer]
    rw [h.accepted, List.length_append]
    rfl
  · refine List.pairwise_append.2 ⟨h.sorted, List.pairwise_singleton _ _, ?_⟩
    intro e he f hf
    rw [List.mem_singleton.1 hf, hspec.sequence]
    exact h.below e he
  · intro f hf
    rcases hlast f hf with hold | rfl
    · exact lt_trans (h.below f hold) (Nat.lt_succ_self n)
    · rw [hspec.sequence]
      exact Nat.lt_succ_self n

/-- What a commit writes: the count is set from the one that was read, whatever the row holds. -/
theorem CallInv.commit_eq (h : CallInv db n c)
    (hrow : db.agentRuns.get c.session.loaded.runId = some row) (hpos : 0 < c.accepted) :
    ∃ r : AgentRun, r.runId = row.runId ∧
      r.eventCount = c.session.loaded.eventCount + c.accepted ∧
      (row.lastEventHash = c.session.loaded.lastEventHash → r.lastEventHash = c.previousHash) ∧
      (c.session.finish c.previousHash c.accepted).commit db =
        { db with
          agentRuns := db.agentRuns.put c.session.loaded.runId r
          auditEvents := db.auditEvents ++ c.session.flushed } := by
  have hid : c.session.run.runId = c.session.loaded.runId := by rw [h.sameRun]
  have hcount : c.session.run.eventCount = c.session.loaded.eventCount := by rw [h.sameRun]
  refine ⟨writeBack c.session.loaded (c.session.finish c.previousHash c.accepted).run row,
    rfl, ?_, ?_, ?_⟩
  -- the count has changed, so its column is written
  · have hne : c.session.loaded.eventCount + c.accepted ≠ c.session.loaded.eventCount := by omega
    simp only [writeBack, AppendSession.finish, hcount, if_neg hne]
  · intro hhash
    -- the column of the hash is written only if the hash has changed
    change (if c.previousHash = c.session.loaded.lastEventHash then row.lastEventHash
      else c.previousHash) = c.previousHash
    split_ifs with hsame
    · exact hhash.trans hsame.symm
    · rfl
  · simp only [AppendSession.commit, AppendSession.finish, hid, hrow]

/-- The events of a run after a commit. -/
theorem CallInv.filter_commit (h : CallInv db n c) (runId : String) :
    ((db.auditEvents ++ c.session.flushed).filter fun e => decide (e.runId = runId)) =
      if runId = c.session.loaded.runId then
        (db.auditEvents.filter fun e => decide (e.runId = runId)) ++ c.session.flushed
      else db.auditEvents.filter fun e => decide (e.runId = runId) := by
  rw [List.filter_append]
  split_ifs with hid
  · have hall : (c.session.flushed.filter fun e => decide (e.runId = runId)) = c.session.flushed :=
      List.filter_eq_self.2 fun e he => decide_eq_true ((h.own e he).trans hid.symm)
    rw [hall]
  · have hnone : (c.session.flushed.filter fun e => decide (e.runId = runId)) = [] :=
      List.filter_eq_nil_iff.2 fun e he => by simpa [h.own e he] using Ne.symm hid
    rw [hnone, List.append_nil]

/-- The rows of a call come after all stored rows of its run. -/
theorem CallInv.sorted_commit (h : CallInv db n c)
    (hsorted : ∀ runId, (db.auditEvents.filter fun e => decide (e.runId = runId)).Pairwise
      fun a b => a.sequence < b.sequence)
    (hafter : ∀ e ∈ db.auditEvents, e.runId = c.session.loaded.runId →
      ∀ f ∈ c.session.flushed, e.sequence < f.sequence) (runId : String) :
    ((db.auditEvents ++ c.session.flushed).filter fun e => decide (e.runId = runId)).Pairwise
      fun a b => a.sequence < b.sequence := by
  rw [h.filter_commit]
  split_ifs with hrunId
  · refine List.pairwise_append.2 ⟨hsorted runId, h.sorted, ?_⟩
    intro e he f hf
    rcases List.mem_filter.1 he with ⟨hevent, hown⟩
    exact hafter e hevent ((of_decide_eq_true hown).trans hrunId) f hf
  · exact hsorted runId

/-- A commit that raises the count of its run leaves the other open calls with what they know. -/
theorem CallInv.other_commit {d : AppendCall} {r : AgentRun} (hd : CallInv db n d)
    (h : CallInv db n c) (hrow : db.agentRuns.get c.session.loaded.runId = some row)
    (hraised : row.eventCount < r.eventCount) :
    CallInv { db with
      agentRuns := db.agentRuns.put c.session.loaded.runId r
      auditEvents := db.auditEvents ++ c.session.flushed } n d := by
  rcases hd.row with ⟨row', hrow', hle', hsame'⟩
  refine { hd with row := ?_ }
  by_cases hk : d.session.loaded.runId = c.session.loaded.runId
  · -- the count has grown beyond what the other call read
    have hrows : row' = row := by
      rw [hk, hrow] at hrow'
      exact (Option.some.inj hrow').symm
    rw [hrows] at hle'
    refine ⟨r, by rw [hk, SortedMap.get_put_self], hle'.trans hraised.le, fun heq => ?_⟩
    exact absurd heq (lt_of_le_of_lt hle' hraised).ne'
  · refine ⟨row', by rw [SortedMap.get_put_of_ne _ _ hk, hrow'], hle', fun heq => ?_⟩
    refine ⟨(hsame' heq).1, ?_⟩
    intro e he hrunId
    rcases List.mem_append.1 he with hold | hnew
    · exact (hsame' heq).2 e hold hrunId
    · exact (hk (hrunId.symm.trans (h.own e hnew))).elim

/-- If the row has the count that was read, a commit continues the run's chain. -/
theorem SharedInv.commit (h : SharedInv st) (hopen : st.openCall k = some c)
    (hrest : c.rest = []) (hread : (st.db.agentRuns.get c.session.loaded.runId).map
      AgentRun.eventCount = some c.session.loaded.eventCount) :
    SharedInv { st.setCall k c.close with
      db := (c.session.finish c.previousHash c.accepted).commit st.db } := by
  rcases openCall_mem hopen with ⟨hmem, hisOpen⟩
  have hc := h.calls c hmem hisOpen
  have hpos : 0 < c.accepted := by simpa [hrest] using hc.nonempty
  rcases hc.row with ⟨row, hrow, _, hsame⟩
  have hcount : row.eventCount = c.session.loaded.eventCount := by
    rw [hrow] at hread
    exact Option.some.inj hread
  -- nobody has counted since the call read the row, so nobody has appended either
  rcases hsame hcount with ⟨hhash, hafter⟩
  rcases hc.commit_eq hrow hpos with ⟨r, hid, hnewCount, hnewHash, hcommit⟩
  have hsorted := hc.sorted_commit h.sorted hafter
  rw [hcommit]
  refine ⟨?_, ?_, hsorted, ?_, ?_, ?_⟩
  · intro k' r' hr'
    dsimp only at hr'
    rw [SortedMap.get_put] at hr'
    split_ifs at hr' with hk
    · rw [← Option.some.inj hr', hk, hid, h.runKey hrow]
    · exact h.runKey hr'
  · intro e he
    dsimp only
    rw [SortedMap.get_put]
    split_ifs with hk
    · rfl
    · rcases List.mem_append.1 he with hold | hnew
      · exact h.eventRun e hold
      · exact (hk (hc.own e hnew)).elim
  · intro e he
    rcases List.mem_append.1 he with hold | hnew
    · exact h.below e hold
    · exact hc.below e hnew
  · intro runId run hrun
    have hevents : runEvents { st.db with
        agentRuns := st.db.agentRuns.put c.session.loaded.runId r
        auditEvents := st.db.auditEvents ++ c.session.flushed } runId =
          if runId = c.session.loaded.runId then runEvents st.db runId ++ c.session.flushed
          else runEvents st.db runId := by
      rw [h.runEvents_eq, ← hc.filter_commit]
      exact runEvents_eq_filter (hsorted runId)
    dsimp only at hrun
    rw [SortedMap.get_put] at hrun
    split_ifs at hrun hevents with hk
    · have hlawful := h.law runId row (hk ▸ hrow)
      rw [← Option.some.inj hrun]
      refine hlawful.append hevents ?_ ?_ ?_
      · rw [hhash]
        exact hc.linked
      · rw [hnewHash hhash, hhash]
        exact hc.last
      · rw [hnewCount, hcount, hc.accepted]
    · have hlawful := h.law runId run hrun
      exact ⟨hevents ▸ hlawful.linked, hevents ▸ hlawful.lastHash, hevents ▸ hlawful.count⟩
  · intro d hd hdOpen
    have hdOld : d ∈ st.calls := by
      rcases List.mem_or_eq_of_mem_set hd with hold | rfl
      · exact hold
      · cases hdOpen
    exact (h.calls d hdOld hdOpen).other_commit hc hrow (by omega)

/-- If the row has another count, the commit leaves a wrong one. -/
theorem SharedInv.not_runInvariant_commit (h : SharedInv st) (hopen : st.openCall k = some c)
    (hrest : c.rest = []) (hread : (st.db.agentRuns.get c.session.loaded.runId).map
      AgentRun.eventCount ≠ some c.session.loaded.eventCount) :
    ¬ RunInvariant ((c.session.finish c.previousHash c.accepted).commit st.db) := by
  rcases openCall_mem hopen with ⟨hmem, hisOpen⟩
  have hc := h.calls c hmem hisOpen
  have hpos : 0 < c.accepted := by simpa [hrest] using hc.nonempty
  rcases hc.row with ⟨row, hrow, _, _⟩
  have hne : row.eventCount ≠ c.session.loaded.eventCount := by
    intro heq
    exact hread (by rw [hrow, ← heq]; rfl)
  rcases hc.commit_eq hrow hpos with ⟨r, _, hnewCount, _, hcommit⟩
  -- the row counts what is stored, but the call writes what it counted itself
  have hold : row.eventCount =
      (st.db.auditEvents.filter fun e => decide (e.runId = c.session.loaded.runId)).length := by
    rw [(h.law _ row hrow).count, h.runEvents_eq]
  rw [hcommit]
  intro hinv
  have hlength : (runEvents { st.db with
      agentRuns := st.db.agentRuns.put c.session.loaded.runId r
      auditEvents := st.db.auditEvents ++ c.session.flushed } c.session.loaded.runId).length =
        row.eventCount + c.session.flushed.length := by
    unfold runEvents bySequence
    rw [List.length_insertionSort, hc.filter_commit, if_pos rfl, List.length_append, hold]
  have hcount := (hinv c.session.loaded.runId r (SortedMap.get_put_self _ _ _)).count
  rw [hnewCount, hlength, hc.accepted] at hcount
  exact hne (Nat.add_right_cancel hcount).symm

/-- Step lemma. -/
theorem SharedInv.step (h : SharedInv st) {step : Step} (hcalm : Undisturbed st step)
    (hstep : step.run env st = some st') : SharedInv st' := by
  -- a call that ends without a commit leaves nothing behind but used numbers
  have hclose : ∀ {k c n}, st.sequence ≤ n →
      SharedInv { st.setCall k (AppendCall.close c) with sequence := n } :=
    fun hn => h.setCall hn fun hopen => by cases hopen
  cases step with
  | lifecycle r =>
      simp only [Step.run, Option.ite_none_right_eq_some, Option.some.injEq] at hstep
      rcases hstep with ⟨hstatus, rfl⟩
      have hrun : r.run env st.db = st.db ∨ Quiet r.principal st.db (r.run env st.db) :=
        Request.run_status hstatus
      rcases hrun with hsame | hquiet
      · rw [hsame]
        exact h
      · exact h.quiet hquiet
  | begin m principal runId events =>
      cases events with
      | nil => cases hstep
      | cons event rest =>
          cases hauth : authorizeRun st.db principal runId with
          | error e => simp [Step.run, hauth] at hstep
          | ok run =>
              simp only [Step.run, hauth, Option.some.injEq] at hstep
              rw [← hstep]
              exact h.begin hauth
  | lookup k =>
      simp only [Step.run] at hstep
      simp only [Undisturbed] at hcalm
      cases hnext : st.nextEvent k with
      | none => simp [hnext] at hstep
      | some next =>
          rcases next with ⟨c, event⟩
          rcases nextEvent_eq_some hnext with ⟨hopen, _⟩
          simp only [hnext, Option.isNone_iff_eq_none] at hstep hcalm
          split_ifs at hstep with hlooked htype
          · rw [hcalm] at hstep
            rw [← Option.some.inj hstep]
            refine h.setCall le_rfl fun hisOpen => ?_
            have hc := h.calls c (openCall_mem hopen).1 hisOpen
            exact { hc with }
          · rw [← Option.some.inj hstep]
            exact hclose le_rfl
  | insert k =>
      simp only [Step.run] at hstep
      simp only [Undisturbed] at hcalm
      cases hnext : st.nextEvent k with
      | none => simp [hnext] at hstep
      | some next =>
          rcases next with ⟨c, event⟩
          rcases nextEvent_eq_some hnext with ⟨hopen, _⟩
          simp only [hnext, Option.isNone_iff_eq_none] at hstep hcalm
          have hc := h.calls c (openCall_mem hopen).1 (openCall_mem hopen).2
          split_ifs at hstep with hlooked
          cases hrow : newRow env c.moment c.next st.sequence c.principal c.session.run event
              c.previousHash with
          | error e =>
              simp only [hrow] at hstep
              rw [← Option.some.inj hstep]
              exact hclose le_rfl
          | ok answer =>
              simp only [hrow] at hstep
              -- an insert that clashes with a row of an open transaction waits
              split_ifs at hstep with hwaits
              simp only [insertEvent, hrow, Bind.bind, Except.bind] at hstep
              split_ifs at hstep with hclash
              · -- the id is not stored, so the flush fails for good
                rw [(newRow_spec hrow).eventId, hcalm] at hstep
                rw [← Option.some.inj hstep]
                exact hclose (Nat.le_succ _)
              · rw [← Option.some.inj hstep]
                exact h.setCall (Nat.le_succ _) fun _ => hc.insert h.below hrow
  | commit k =>
      simp only [Step.run] at hstep
      simp only [Undisturbed] at hcalm
      cases hopen : st.openCall k with
      | none => simp [hopen] at hstep
      | some c =>
          simp only [hopen] at hstep hcalm
          split_ifs at hstep with hrest
          rw [← Option.some.inj hstep]
          exact h.commit hopen (List.isEmpty_iff.1 hrest) hcalm
  | abort k =>
      simp only [Step.run] at hstep
      rcases Option.map_eq_some_iff.1 hstep with ⟨c, _, heq⟩
      rw [← heq]
      exact hclose le_rfl

/-- In every state reached by undisturbed steps, whatever their order, the record and the chain of
every run agree; a commit there over a row with another count breaks this. -/
theorem runInvariant_of_undisturbed (env : Env) {st : Shared}
    (h : Reach (Step.run env) Undisturbed {} st) :
    RunInvariant st.db ∧
      ∀ k st', (Step.commit k).run env st = some st' → ¬ Undisturbed st (.commit k) →
        ¬ RunInvariant st'.db := by
  have hinv : SharedInv st :=
    h.invariant sharedInv_init fun _ hs hcalm hstep => hs.step hcalm hstep
  refine ⟨hinv.law, ?_⟩
  intro k st' hstep hdisturbed
  simp only [Step.run] at hstep
  simp only [Undisturbed] at hdisturbed
  cases hopen : st.openCall k with
  | none => simp [hopen] at hstep
  | some c =>
      simp only [hopen] at hstep hdisturbed
      split_ifs at hstep with hrest
      rw [← Option.some.inj hstep]
      exact hinv.not_runInvariant_commit hopen (List.isEmpty_iff.1 hrest) hdisturbed

end Steps

namespace ConcurrentExample

open CollectorExample

def begin (events : List EventInput) : Step := .begin moment owner "run_1" events

def eventA : EventInput := event "evt_a" (some "idem_a")

def eventB : EventInput := event "evt_b" (some "idem_b")

/-- A call that overlaps another one is aborted, and made again after the other's commit. -/
def retried : List Step :=
  [.lifecycle start, begin [eventA], begin [eventB], .lookup 1, .lookup 0, .insert 0, .abort 1,
    .commit 0, begin [eventB], .lookup 2, .insert 2, .commit 2]

/-- Both calls read the run before either commits. -/
def forked : List Step :=
  [.lifecycle start, begin [eventA], begin [eventB], .lookup 0, .lookup 1, .insert 0, .insert 1,
    .commit 0, .commit 1]

end ConcurrentExample

open CollectorExample ConcurrentExample in
theorem runInvariant_of_undisturbed_retried :
    ∃ st, run (Step.run env) Undisturbed {} retried = some st ∧ RunInvariant st.db := by
  rcases Option.isSome_iff_exists.1 (by decide +kernel :
    (run (Step.run env) Undisturbed {} retried).isSome = true) with ⟨st, hst⟩
  exact ⟨st, hst, (runInvariant_of_undisturbed env (reach_of_run hst)).1⟩

open CollectorExample ConcurrentExample in
/-- Two events are stored and one is counted; both follow no event. -/
theorem runInvariant_fails_when_forked :
    ∃ st, Reach (Step.run env) (fun _ _ => True) {} st ∧ (∀ c ∈ st.calls, c.isOpen = false) ∧
      ¬ RunInvariant st.db := by
  have hrun : (run (Step.run env) (fun _ _ => True) {} forked).map (fun st =>
      (st.calls.map AppendCall.isOpen,
        (st.db.agentRuns.get "run_1").map AgentRun.eventCount,
        (runEvents st.db "run_1").map fun e => (e.eventId, e.previousEventHash))) =
      some ([false, false], some 1, [("evt_a", none), ("evt_b", none)]) := by decide +kernel
  -- both calls continue the same last hash, and the second commit counts one event
  rcases Option.map_eq_some_iff.1 hrun with ⟨st, hst, hview⟩
  rcases Prod.mk.inj hview with ⟨hcalls, hrest⟩
  rcases Prod.mk.inj hrest with ⟨hcount, hevents⟩
  rcases Option.map_eq_some_iff.1 hcount with ⟨row, hrow, hone⟩
  refine ⟨st, reach_of_run hst, ?_, ?_⟩
  · intro c hc
    have hmem : c.isOpen ∈ st.calls.map AppendCall.isOpen := List.mem_map_of_mem hc
    rw [hcalls] at hmem
    simpa using hmem
  · intro hinv
    have hlength := congrArg List.length hevents
    rw [List.length_map, ← (hinv "run_1" row hrow).count, hone] at hlength
    cases hlength

end Collector
end ControlDB
