import ControlDB.Raft.Election

/-!
# Votes across a restart

`raft_state.txt` is read back word by word: of a vote for an id with a blank in it, only the first
word returns, and the restarted node votes again in the same term.
-/

namespace ControlDB
namespace Raft

/-- An id without the blanks that end a word. -/
def OneWord (id : Bytes) : Prop :=
  ∀ b ∈ id, isSpace b = false

instance (id : Bytes) : Decidable (OneWord id) :=
  inferInstanceAs (Decidable (∀ b ∈ id, _))

/-- The word that is read back of an id. -/
def firstWord (id : Bytes) : Bytes :=
  (id.dropWhile isSpace).takeWhile fun b => !isSpace b

theorem oneWord_firstWord (id : Bytes) : OneWord (firstWord id) := by
  intro b hb
  have hword := List.mem_takeWhile_imp hb
  simpa using hword

theorem PersistentState.load_save_iff (ps : PersistentState) :
    load (some ps.save) = ps ↔ OneWord ps.votedFor := by
  refine ⟨fun hload => ?_, ps.load_save⟩
  have hvote : firstWord ps.votedFor = ps.votedFor := by
    rw [load_saved] at hload
    exact congrArg votedFor hload
  rw [← hvote]
  exact oneWord_firstWord _

namespace Node

/-- The node refuses the candidate its vote. -/
def Refuses (n : Node) (args : RequestVoteArgs) : Prop :=
  (n.handleRequestVote args).2.voteGranted = false

/-- After a restart the node refuses every other candidate of its term that it refused before. -/
def RefusesAgain (n : Node) : Prop :=
  ∀ args : RequestVoteArgs, args.term = n.ps.currentTerm → args.candidateId ≠ n.ps.votedFor →
    n.Refuses args → n.restart.Refuses args

variable {n : Node} {args : RequestVoteArgs}

/-- In its own term a node decides by its vote and its log. -/
theorem refuses_iff (hterm : args.term = n.ps.currentTerm) :
    n.Refuses args ↔
      (n.ps.votedFor ≠ [] ∧ n.ps.votedFor ≠ args.candidateId) ∨
        n.log.isUpToDate args.lastLogTerm args.lastLogIndex = false := by
  have hnot : ¬args.term > n.ps.currentTerm := by omega
  have hcurrent : ¬args.term < n.ps.currentTerm := by omega
  simp only [Refuses, handleRequestVote, tryGrantVote, if_neg hnot, if_neg hcurrent]
  by_cases hvoted : n.ps.votedFor ≠ [] ∧ n.ps.votedFor ≠ args.candidateId
  · simp [hvoted]
  · rw [if_neg hvoted]
    cases n.log.isUpToDate args.lastLogTerm args.lastLogIndex with
    | false => simp
    | true => simpa using hvoted

/-- The candidate that is up to date with the log of the node. -/
def candidateOf (n : Node) (candidateId : Bytes) : RequestVoteArgs where
  term := n.ps.currentTerm
  candidateId
  lastLogIndex := n.log.lastIndex
  lastLogTerm := n.log.lastTerm

theorem isUpToDate_self (log : RaftLog) : log.isUpToDate log.lastTerm log.lastIndex = true := by
  simp [RaftLog.isUpToDate]

theorem restart_persist (n : Node) :
    n.persist.restart.ps = { n.ps with votedFor := firstWord n.ps.votedFor } ∧
      n.persist.restart.log = n.log :=
  ⟨n.ps.load_saved, rfl⟩

theorem refusesAgain_iff (n : Node) : n.persist.RefusesAgain ↔ OneWord n.ps.votedFor := by
  rcases n.restart_persist with ⟨hps, hlog⟩
  constructor
  · intro hagain
    by_contra hblank
    have hother : firstWord n.ps.votedFor ≠ n.ps.votedFor := by
      intro hsame
      exact hblank (hsame ▸ oneWord_firstWord _)
    have hvoted : n.ps.votedFor ≠ [] := by
      intro hnone
      exact hblank (by simp [OneWord, hnone])
    -- the candidate whose id is that word is refused before and granted after
    have hrefused : n.persist.Refuses (n.candidateOf (firstWord n.ps.votedFor)) :=
      (refuses_iff rfl).2 (.inl ⟨hvoted, hother.symm⟩)
    have hgranted := hagain _ rfl hother hrefused
    rw [refuses_iff (by rw [hps]; rfl), hps, hlog] at hgranted
    rcases hgranted with ⟨-, hne⟩ | hbehind
    · exact hne rfl
    · rw [candidateOf, isUpToDate_self] at hbehind
      exact Bool.noConfusion hbehind
  · intro hword args hterm _ hrefused
    have hsame : n.persist.restart.ps = n.ps := (PersistentState.load_save_iff n.ps).2 hword
    have hbefore := (refuses_iff (n := n.persist) hterm).1 hrefused
    have hterm' : args.term = n.persist.restart.ps.currentTerm := by
      rw [hsame]
      exact hterm
    rw [refuses_iff hterm', hsame, hlog]
    exact hbefore

/-- What a node saves is loaded again, and its refusals outlive a restart, exactly when the id it
voted for is one word. -/
theorem votePersists_iff (n : Node) :
    (PersistentState.load (some n.ps.save) = n.ps ↔ OneWord n.ps.votedFor) ∧
      (n.persist.RefusesAgain ↔ OneWord n.ps.votedFor) :=
  ⟨PersistentState.load_save_iff n.ps, n.refusesAgain_iff⟩

/-- After a vote for `node 1` in term 5, a restarted node votes for `node` as well. -/
theorem vote_forgotten :
    (¬ ∀ ps : PersistentState, PersistentState.load (some ps.save) = ps) ∧
      ¬ ∀ n : Node, n.persist.RefusesAgain := by
  constructor
  · intro hall
    exact absurd (hall { currentTerm := 5, votedFor := bytes "node 1" }) (by decide)
  · intro hall
    let n : Node :=
      { nodeId := bytes "b"
        peers := [bytes "node 1", bytes "node"]
        ps := { currentTerm := 5, votedFor := bytes "node 1" } }
    have hagain := hall n ⟨5, bytes "node", 0, 0⟩ rfl (by decide) (by unfold Refuses; decide)
    exact absurd hagain (by unfold Refuses; decide)

end Node
end Raft
end ControlDB
