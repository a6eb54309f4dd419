import ControlDB.Library.Mutex
import ControlDB.Raft.Node

/-!
# The locks of an election

`run_election` with its vote threads and the mutex `mu`, which is not recursive.  The first
`lock_guard` lives until the function returns, so no vote thread gets the mutex while the function
waits for it, and without vote threads the second `lock_guard` waits for the first.
-/

namespace ControlDB
namespace Raft
namespace ElectionLocks

open Library Mutex
open Function (update)

/-- The thread in `run_election`, and the thread of its `i`-th `std::async`. -/
abbrev Thread := Option Nat

abbrev Code := List (Instr Thread Node)

/-! ## The program -/

/-- The part of a vote thread that holds the mutex. -/
def countVote (peer : Bytes) (reply : RequestVoteReply) (n : Node) : Node :=
  match n.election with
  | some e => n.collectVote e peer (some reply)
  | none => n

/-- `send_request_vote` returns or throws, and a reply is counted under the mutex. -/
def voteThread (peer : Bytes) (reply : Option RequestVoteReply) : Code :=
  [.run fun n => (n, match reply with
    | none => []
    | some reply => [.lock, .run fun n => (countVote peer reply n, []), .unlock])]

/-- The loop that starts the vote threads. -/
def startThreads (replies : Nat → Option RequestVoteReply) : Nat → List Bytes → Code
  | _, [] => []
  | i, peer :: rest =>
      .spawn (some i) (voteThread peer (replies i)) :: startThreads replies (i + 1) rest

/-- The part behind the second `lock_guard`. -/
def endElection (n : Node) : Node :=
  match n.election with
  | some e => n.decideElection e
  | none => n

/-- The second `lock_guard`, and the ends of both. -/
def afterWaiting : Code :=
  [.lock, .run fun n => (endElection n, []), .unlock, .unlock]

def waitForAll (threads : List Nat) : Code :=
  threads.map fun i => .join (some i)

/-- What `run_election` does once it has the mutex. -/
def underLock (replies : Nat → Option RequestVoteReply) (n : Node) : Node × Code :=
  if n.role = .leader then (n, [.unlock])
  else
    (n.startElection, startThreads replies 0 n.peers ++
      (waitForAll (List.range n.peers.length) ++ afterWaiting))

def runElection (replies : Nat → Option RequestVoteReply) : Code :=
  [.lock, .run (underLock replies)]

/-- The node calls `run_election`; no vote thread is there yet. -/
def start (n : Node) (replies : Nat → Option RequestVoteReply) : State Thread Node where
  code := update (fun _ => []) none (runElection replies)
  data := n

/-! ## Elections that complete -/

/-- More than half of the cluster grants its vote, the node itself among them. -/
def Majority (n : Node) (replies : Nat → Option RequestVoteReply) : Prop :=
  n.hasQuorum (1 + (List.range n.peers.length).countP fun i =>
    (replies i).any RequestVoteReply.voteGranted) = true

/-- No reply carries a term above that of the candidate. -/
def NoHigherTerm (n : Node) (replies : Nat → Option RequestVoteReply) : Prop :=
  ∀ i < n.peers.length, ∀ reply ∈ replies i, reply.term ≤ n.ps.currentTerm + 1

/-- The function can come to its end, with the node as the leader of the term it stood for. -/
def Completes (n : Node) (replies : Nat → Option RequestVoteReply) : Prop :=
  ∃ s, Reached (start n replies) s ∧ s.code none = [] ∧
    s.data.role = .leader ∧ s.data.ps.currentTerm = n.ps.currentTerm + 1 ∧
    ∀ peer ∈ n.peers, s.data.peerStates peer =
      { nextIndex := s.data.log.lastIndex + 1, matchIndex := 0 }

/-! ## How far it gets -/

/-- A vote thread that has ended, waits for the reply, or wants the mutex. -/
def VoteCode (c : Code) : Prop :=
  c = [] ∨ (∃ peer reply, c = voteThread peer reply) ∨ ∃ rest, c = .lock :: rest

variable {n : Node} {replies : Nat → Option RequestVoteReply} {s s' : State Thread Node}

/-- `run_election` waits for the mutex, has it, starts its threads, or waits for them. -/
inductive Phase (n : Node) (replies : Nat → Option RequestVoteReply) (s : State Thread Node) : Prop
  | entering (howner : s.owner = none) (hcode : s.code none = runElection replies)
      (hdata : s.data = n) (hidle : ∀ i, s.code (some i) = [])
  | entered (howner : s.owner = some none) (hcode : s.code none = [.run (underLock replies)])
      (hdata : s.data = n) (hidle : ∀ i, s.code (some i) = [])
  | starting {i : Nat} {peers : List Bytes} {threads : List Nat} (howner : s.owner = some none)
      (hcode : s.code none =
        startThreads replies i peers ++ (waitForAll threads ++ afterWaiting))
      (hidle : ∀ j, i ≤ j → s.code (some j) = []) (hvotes : ∀ j, VoteCode (s.code (some j)))
  | waiting {threads : List Nat} (howner : s.owner = some none)
      (hcode : s.code none = waitForAll threads ++ afterWaiting)
      (hvotes : ∀ j, VoteCode (s.code (some j)))

theorem phase_start (n : Node) (replies : Nat → Option RequestVoteReply) :
    Phase n replies (start n replies) :=
  .entering rfl (by simp [start]) rfl fun i => by simp [start]

theorem relocks_waitForAll (threads : List Nat) : Relocks (waitForAll threads ++ afterWaiting) := by
  induction threads with
  | nil => exact .lock _
  | cons i threads ih => exact .join _ ih

theorem relocks_startThreads (i : Nat) (peers : List Bytes) (threads : List Nat) :
    Relocks (startThreads replies i peers ++ (waitForAll threads ++ afterWaiting)) := by
  induction peers generalizing i with
  | nil => exact relocks_waitForAll threads
  | cons peer peers ih => exact .spawn _ _ (ih (i + 1))

section Votes

variable (howner : s.owner = some none) (hvotes : ∀ j, VoteCode (s.code (some j)))

include howner hvotes

/-- A vote thread only comes to want the mutex, which the function holds. -/
theorem vote_step {j : Nat} (hstep : Step (some j) s s') :
    ∃ c x, VoteCode c ∧ s.code (some j) ≠ [] ∧
      s' = { s with code := update s.code (some j) c, data := x } := by
  rcases hvotes j with hended | ⟨peer, reply, hasking⟩ | ⟨rest, hwanting⟩
  · cases hstep <;> simp_all
  · unfold voteThread at hasking
    cases hstep with
    | lock hcode _ => simp [hasking] at hcode
    | unlock hcode _ => simp [hasking] at hcode
    | join hcode _ => simp [hasking] at hcode
    | spawn hcode _ => simp [hasking] at hcode
    | run hcode =>
        refine ⟨_, _, ?_, by simp [hcode], rfl⟩
        rw [hasking, List.cons.injEq, Instr.run.injEq] at hcode
        rcases hcode with ⟨rfl, rfl⟩
        cases reply with
        | none => exact .inl rfl
        | some reply => exact .inr (.inr ⟨_, rfl⟩)
  · cases hstep with
    | lock _ hfree => simp [howner] at hfree
    | unlock hcode _ => simp [hwanting] at hcode
    | join hcode _ => simp [hwanting] at hcode
    | spawn hcode _ => simp [hwanting] at hcode
    | run hcode => simp [hwanting] at hcode

end Votes

theorem voteCode_update {c : Code} (hc : VoteCode c) (hvotes : ∀ j, VoteCode (s.code (some j)))
    (k j : Nat) : VoteCode (update s.code (some k) c (some j)) := by
  by_cases hjk : j = k
  · subst hjk
    simpa using hc
  · simpa [hjk] using hvotes j

/-- While it waits, the function goes from one thread to the next. -/
theorem waiting_step {threads : List Nat} (howner : s.owner = some none)
    (hcode : s.code none = waitForAll threads ++ afterWaiting)
    (hvotes : ∀ j, VoteCode (s.code (some j))) (hstep : Step none s s') : Phase n replies s' := by
  cases threads with
  | nil =>
      rw [waitForAll, afterWaiting, List.map_nil, List.nil_append] at hcode
      cases hstep with
      | lock _ hfree => simp [howner] at hfree
      | unlock hnext _ => simp [hcode] at hnext
      | join hnext _ => simp [hcode] at hnext
      | spawn hnext _ => simp [hcode] at hnext
      | run hnext => simp [hcode] at hnext
  | cons i threads =>
      rw [waitForAll, List.map_cons, List.cons_append] at hcode
      cases hstep with
      | lock hnext _ => simp [hcode] at hnext
      | unlock hnext _ => simp [hcode] at hnext
      | join hnext _ =>
          rw [hcode, List.cons.injEq] at hnext
          refine @Phase.waiting n replies _ threads howner ?_ (by simpa using hvotes)
          simp [← hnext.2, waitForAll]
      | spawn hnext _ => simp [hcode] at hnext
      | run hnext => simp [hcode] at hnext

/-- Step lemma: no step gets the function past its second lock. -/
theorem Phase.step {t : Thread} (hrole : n.role ≠ .leader) (h : Phase n replies s)
    (hstep : Step t s s') : Phase n replies s' := by
  cases t with
  | none =>
      cases h with
      | entering howner hcode hdata hidle =>
          rw [runElection] at hcode
          cases hstep with
          | lock hnext _ =>
              rw [hcode, List.cons.injEq] at hnext
              exact .entered rfl (by simp [← hnext.2]) hdata (by simpa using hidle)
          | unlock hnext _ => simp [hcode] at hnext
          | join hnext _ => simp [hcode] at hnext
          | spawn hnext _ => simp [hcode] at hnext
          | run hnext => simp [hcode] at hnext
      | entered howner hcode hdata hidle =>
          cases hstep with
          | lock hnext _ => simp [hcode] at hnext
          | unlock hnext _ => simp [hcode] at hnext
          | join hnext _ => simp [hcode] at hnext
          | spawn hnext _ => simp [hcode] at hnext
          | run hnext =>
              rw [hcode, List.cons.injEq, Instr.run.injEq] at hnext
              rcases hnext with ⟨rfl, rfl⟩
              refine @Phase.starting n replies _ 0 n.peers (List.range n.peers.length) howner ?_
                (by simpa using hidle) fun j => .inl (by simpa using hidle j)
              simp [hdata, underLock, hrole]
      | @starting i peers threads howner hcode hidle hvotes =>
          cases peers with
          | nil => exact waiting_step howner hcode hvotes hstep
          | cons peer peers =>
              rw [startThreads, List.cons_append] at hcode
              cases hstep with
              | lock hnext _ => simp [hcode] at hnext
              | unlock hnext _ => simp [hcode] at hnext
              | join hnext _ => simp [hcode] at hnext
              | @spawn u code rest hnext _ =>
                  rw [hcode, List.cons.injEq, Instr.spawn.injEq] at hnext
                  rcases hnext with ⟨⟨rfl, rfl⟩, rfl⟩
                  refine @Phase.starting n replies _ (i + 1) peers threads howner (by simp)
                    (fun j hj => ?_) fun j => ?_
                  · have hother : j ≠ i := Nat.ne_of_gt hj
                    simpa [hother] using hidle j (Nat.le_of_lt hj)
                  · by_cases hj : j = i
                    · subst hj
                      exact .inr (.inl ⟨peer, replies j, by simp⟩)
                    · simpa [hj] using hvotes j
              | run hnext => simp [hcode] at hnext
      | waiting howner hcode hvotes => exact waiting_step howner hcode hvotes hstep
  | some j =>
      cases h with
      | entering howner hcode hdata hidle => cases hstep <;> simp_all
      | entered howner hcode hdata hidle => cases hstep <;> simp_all
      | starting howner hcode hidle hvotes =>
          rcases vote_step howner hvotes hstep with ⟨c, x, hc, hbusy, rfl⟩
          refine .starting howner (by simpa using hcode) (fun k hk => ?_)
            (voteCode_update hc hvotes j)
          have hother : k ≠ j := by
            rintro rfl
            exact hbusy (hidle k hk)
          simpa [hother] using hidle k hk
      | waiting howner hcode hvotes =>
          rcases vote_step howner hvotes hstep with ⟨c, x, hc, _, rfl⟩
          exact .waiting howner (by simpa using hcode) (voteCode_update hc hvotes j)

theorem phase_of_reached (hrole : n.role ≠ .leader) (h : Reached (start n replies) s) :
    Phase n replies s :=
  h.invariant (fun hs hstep => hs.step hrole hstep) (phase_start n replies)

/-- In none of these phases the function has ended. -/
theorem Phase.running (h : Phase n replies s) : s.code none ≠ [] := by
  cases h with
  | entering howner hcode hdata hidle => simp [hcode, runElection]
  | entered howner hcode hdata hidle => simp [hcode]
  | starting howner hcode hidle hvotes =>
      rw [hcode]
      exact (relocks_startThreads _ _ _).ne_nil
  | waiting howner hcode hvotes =>
      rw [hcode]
      exact (relocks_waitForAll _).ne_nil

/-- Where nothing moves any more while it waits, it waits for the mutex that it holds, or for a
thread that waits for it. -/
theorem deadlocked_waiting {threads : List Nat} (howner : s.owner = some none)
    (hcode : s.code none = waitForAll threads ++ afterWaiting)
    (hvotes : ∀ j, VoteCode (s.code (some j))) (hstuck : Stuck s) : Deadlocked s none := by
  have htrapped : Trapped none s := ⟨howner, hcode ▸ relocks_waitForAll threads⟩
  cases threads with
  | nil => exact htrapped.deadlocked_lock hcode
  | cons i threads =>
      rw [waitForAll, List.map_cons, List.cons_append] at hcode
      rcases hvotes i with hended | ⟨peer, reply, hasking⟩ | ⟨rest, hwanting⟩
      · exact (hstuck _ _ (.join hcode hended)).elim
      · unfold voteThread at hasking
        exact (hstuck _ _ (.run hasking)).elim
      · exact htrapped.deadlocked_join hcode hwanting

theorem Phase.deadlocked (h : Phase n replies s) (hstuck : Stuck s) : Deadlocked s none := by
  cases h with
  | entering howner hcode hdata hidle =>
      rw [runElection] at hcode
      exact (hstuck _ _ (.lock hcode howner)).elim
  | entered howner hcode hdata hidle => exact (hstuck _ _ (.run hcode)).elim
  | @starting i peers threads howner hcode hidle hvotes =>
      cases peers with
      | nil => exact deadlocked_waiting howner hcode hvotes hstuck
      | cons peer peers =>
          rw [startThreads, List.cons_append] at hcode
          exact (hstuck _ _ (.spawn hcode (hidle i (Nat.le_refl i)))).elim
  | waiting howner hcode hvotes => exact deadlocked_waiting howner hcode hvotes hstuck

/-- Among any other threads of the node, a function that has found it no leader does not end. -/
theorem never_ends_among_others (hrole : n.role ≠ .leader) (howner : s.owner = some none)
    (hcode : s.code none = (underLock replies n).2) (hreached : Reached s s') :
    s'.code none ≠ [] := by
  have hrelocks : Relocks (s.code none) := by
    rw [hcode, underLock, if_neg hrole]
    exact relocks_startThreads 0 n.peers _
  exact Trapped.never_ends ⟨howner, hrelocks⟩ hreached

/-- An election never completes: however the replies come in, the function does not end, and where
nothing moves any more it waits for itself.  Other threads of the node change nothing about it. -/
theorem election_never_completes (n : Node) (replies : Nat → Option RequestVoteReply)
    (hrole : n.role ≠ .leader) :
    ¬ Completes n replies ∧
      (∀ s, Reached (start n replies) s → s.code none ≠ [] ∧ (Stuck s → Deadlocked s none)) ∧
      ∀ s s' : State Thread Node, s.owner = some none → s.code none = (underLock replies n).2 →
        Reached s s' → s'.code none ≠ [] := by
  refine ⟨?_, fun s hs => ⟨(phase_of_reached hrole hs).running,
    (phase_of_reached hrole hs).deadlocked⟩,
    fun s s' howner hcode hreached => never_ends_among_others hrole howner hcode hreached⟩
  rintro ⟨s, hs, hended, -⟩
  exact (phase_of_reached hrole hs).running hended

namespace Example

/-- One of three nodes, whose peers both grant their votes. -/
def node : Node where
  nodeId := bytes "a"
  peers := [bytes "b", bytes "c"]

def granted : Nat → Option RequestVoteReply := fun _ => some ⟨1, true⟩

end Example

open Example in
theorem election_never_completes_three :
    Majority node granted ∧ NoHigherTerm node granted ∧ ¬ Completes node granted ∧
      (∀ s, Reached (start node granted) s →
        s.code none ≠ [] ∧ (Stuck s → Deadlocked s none)) ∧
      ∀ s s' : State Thread Node, s.owner = some none →
        s.code none = (underLock granted node).2 → Reached s s' → s'.code none ≠ [] := by
  have hmajority : Majority node granted := by
    unfold Majority
    decide
  have hterms : NoHigherTerm node granted := by
    rintro i - reply hreply
    cases hreply
    exact Nat.le_refl 1
  exact ⟨hmajority, hterms, election_never_completes node granted (by decide)⟩

open Example in
/-- Though both peers grant their votes, the election hangs. -/
theorem majority_hangs :
    ¬ ∀ (n : Node) (replies : Nat → Option RequestVoteReply), n.role ≠ .leader →
      Majority n replies → NoHigherTerm n replies → Completes n replies := by
  intro hall
  have hmajority : Majority node granted := by
    unfold Majority
    decide
  have hterms : NoHigherTerm node granted := by
    rintro i - reply hreply
    cases hreply
    exact Nat.le_refl 1
  rcases hall node granted (by decide) hmajority hterms with ⟨s, hs, hended, -⟩
  exact (phase_of_reached (by decide) hs).running hended

end ElectionLocks
end Raft
end ControlDB
