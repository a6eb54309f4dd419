import ControlDB.Raft.Follow

/-!
# What a returning proposal guarantees

`propose` waits until the committed index of its node has passed the index it appended at.  Another
leader can have cut the log there and written something else in the meantime, and the wait
does not look.  A proposal's own entry is there as long as no request cuts the log at or below its
index.
-/

namespace ControlDB
namespace Raft

open Library

/-! ## Cuts -/

/-- The request makes the node remove its entries from some index on that is not beyond `k`: the
term at the index the request follows differs, or else a term among the entries it would write. -/
def Node.Cuts (n : Node) (args : AppendEntriesArgs) (k : Nat) : Prop :=
  n.ps.currentTerm ≤ args.term ∧ args.prevLogIndex ≤ n.log.lastIndex ∧
    if 0 < args.prevLogIndex ∧ n.log.termAt args.prevLogIndex ≠ args.prevLogTerm then
      args.prevLogIndex ≤ k
    else ∃ i ∈ List.range args.entries.length, args.prevLogIndex + 1 + i ≤ min k n.log.lastIndex ∧
      n.log.termAt (args.prevLogIndex + 1 + i) ≠ args.term

instance (n : Node) (args : AppendEntriesArgs) (k : Nat) : Decidable (n.Cuts args k) :=
  inferInstanceAs (Decidable (_ ∧ _ ∧ ite _ _ _))

/-- No request cuts the log of a node below what a proposal there waits for. -/
def Cluster.Uncut (s : Cluster) : Action → Prop
  | .deliverAppend k =>
      match s.appendRequests[k]? with
      | some msg => ∀ p ∈ (s.nodes msg.peer).waiting, ¬ (s.nodes msg.peer).Cuts msg.args p.2
      | none => True
  | _ => True

instance (s : Cluster) (a : Action) : Decidable (s.Uncut a) :=
  match a with
  | .deliverAppend k =>
      match h : s.appendRequests[k]? with
      | some msg => decidable_of_iff
          (∀ p ∈ (s.nodes msg.peer).waiting, ¬ (s.nodes msg.peer).Cuts msg.args p.2)
          (by simp [Cluster.Uncut, h])
      | none => .isTrue (by simp [Cluster.Uncut, h])
  | .startElection _ | .deliverVote _ | .collectVote _ _ | .loseVote _ _ | .decideElection _
  | .propose _ _ | .proposeAppend _ _ | .proposeEnd _ _ _ | .replicate _ _ | .sendAppend _ _
  | .deliverAppendReply _ | .readCommitted _ | .applyNext _ | .applyMiss _ | .restart _ =>
      .isTrue trivial

/-! ## Waiting proposals -/

/-- The node's log has the command at the index. -/
def Node.Has (n : Node) (command : Bytes) (logIndex : Nat) : Prop :=
  (n.log.get logIndex).map LogEntry.command = some command

/-- Every waiting proposal finds its command where it was appended. -/
structure Node.Kept (n : Node) : Prop where
  indexed : n.log.Indexed
  waiting : ∀ p ∈ n.waiting, n.Has p.1 p.2

namespace Node

variable {n n' : Node}

theorem Kept.of_same (h : n.Kept) (hlog : n'.log = n.log)
    (hwaiting : ∀ p ∈ n'.waiting, p ∈ n.waiting) : n'.Kept where
  indexed := hlog ▸ h.indexed
  waiting := by
    intro p hp
    have hhas := h.waiting p (hwaiting p hp)
    rwa [Has, hlog]

/-- In logs with their entries in place, what is at an index is seen without the indexes. -/
theorem has_succ_iff (h : n.log.Indexed) {command : Bytes} {i : Nat} :
    n.Has command (i + 1) ↔
      (n.log.view[i]?).map Replication.Entry.command = some command := by
  rw [Has, h.get_succ, RaftLog.getElem?_view, Option.map_map]
  rfl

/-- Logs that agree up to an index have the same commands there. -/
theorem Has.of_take (h : n.log.Indexed) (h' : n'.log.Indexed) {command : Bytes} {k : Nat}
    (hhas : n.Has command k) (hsame : n'.log.view.take k = n.log.view.take k) :
    n'.Has command k := by
  cases k with
  | zero => simp [Has, h.get_zero] at hhas
  | succ i =>
      rw [has_succ_iff h] at hhas
      rw [has_succ_iff h', Replication.getElem?_of_take_eq hsame (Nat.lt_succ_self i)]
      exact hhas

theorem Has.le_length (h : n.log.Indexed) {command : Bytes} {k : Nat} (hhas : n.Has command k) :
    k ≤ n.log.view.length := by
  cases k with
  | zero => exact Nat.zero_le _
  | succ i =>
      rw [has_succ_iff h] at hhas
      rcases Option.map_eq_some_iff.1 hhas with ⟨e, hget, _⟩
      exact Replication.lt_length_of_getElem? hget

theorem Kept.proposeAppend (h : n.Kept) (command : Bytes) : (n.proposeAppend command).Kept := by
  have happend := h.indexed.append_eq n.ps.currentTerm command
  have hindexed : (n.proposeAppend command).log.Indexed := by
    simp only [Node.proposeAppend, happend]
    exact h.indexed.concat _ _
  refine ⟨hindexed, fun p hp => ?_⟩
  simp only [Node.proposeAppend, happend, List.mem_append, List.mem_singleton] at hp
  rcases hp with hold | rfl
  · have hhas := h.waiting p hold
    refine hhas.of_take h.indexed hindexed ?_
    simp only [Node.proposeAppend, happend]
    have hle : p.2 ≤ n.log.entries.length := by simpa using hhas.le_length h.indexed
    simp [RaftLog.view, List.take_append, Nat.sub_eq_zero_of_le hle]
  · -- the new entry
    rw [has_succ_iff hindexed]
    simp [Node.proposeAppend, happend, RaftLog.view]

/-- A request that does not cut at or below an index leaves the log up to there. -/
theorem followLeader_take (h : n.log.Indexed) {args : AppendEntriesArgs} {k : Nat}
    (hcuts : ¬ n.Cuts args k) (hterm : n.ps.currentTerm ≤ args.term)
    (hk : k ≤ n.log.view.length) (replyTerm : Nat) :
    (n.followLeader replyTerm args).1.log.Indexed ∧
      (n.followLeader replyTerm args).1.log.view.take k = n.log.view.take k := by
  rcases followLeader_cases h replyTerm args with
    ⟨_, hnode, _⟩ | ⟨hpos, hle, hdiffers, hnode, _⟩ | ⟨hle, hprev, log, hindexed, hview, hnode, _⟩
  · rw [hnode]
    exact ⟨h, rfl⟩
  · -- cut before the index the request follows, which is beyond `k`
    have hbeyond : k < args.prevLogIndex := by
      by_contra hnot
      apply hcuts
      refine ⟨hterm, h.lastIndex_eq ▸ hle, ?_⟩
      rw [if_pos ⟨hpos, by rwa [h.termAt_eq]⟩]
      omega
    rw [hnode]
    refine ⟨h.take _, ?_⟩
    have hmin : min k (args.prevLogIndex - 1) = k := Nat.min_eq_left (by omega)
    simp [RaftLog.view, List.map_take, List.take_take, hmin]
  · rw [hnode, tryAdvanceCommit_eq]
    refine ⟨hindexed, ?_⟩
    dsimp only
    rw [hview]
    refine Replication.splice_take_self hk fun j hij hj hjk => ?_
    by_contra hother
    -- an entry of another term within `k` would be cut
    apply hcuts
    refine ⟨hterm, h.lastIndex_eq ▸ hle, ?_⟩
    have hfollows : ¬ (0 < args.prevLogIndex ∧
        n.log.termAt args.prevLogIndex ≠ args.prevLogTerm) := by
      rintro ⟨hpos, hne⟩
      exact hne (h.termAt_eq _ ▸ hprev hpos)
    rw [if_neg hfollows]
    have hindex : args.prevLogIndex + 1 + (j - args.prevLogIndex) = j + 1 := by omega
    refine ⟨j - args.prevLogIndex, List.mem_range.2 (by omega), ?_, ?_⟩
    · rw [hindex, h.lastIndex_eq]
      omega
    · rw [hindex, h.termAt_eq]
      intro hsame
      apply hother
      rcases hget : n.log.view[j]? with _ | e
      · have hnone := List.getElem?_eq_none_iff.1 hget
        omega
      · simpa [Replication.termAt, hget] using hsame

theorem Kept.followLeader (h : n.Kept) {args : AppendEntriesArgs}
    (hcuts : ∀ p ∈ n.waiting, ¬ n.Cuts args p.2) (hterm : n.ps.currentTerm ≤ args.term)
    (replyTerm : Nat) : (n.followLeader replyTerm args).1.Kept := by
  have hindexed : (n.followLeader replyTerm args).1.log.Indexed := by
    rcases followLeader_cases h.indexed replyTerm args with
      ⟨_, hnode, _⟩ | ⟨_, _, _, hnode, _⟩ | ⟨_, _, log, hlog, _, hnode, _⟩
    · rw [hnode]
      exact h.indexed
    · rw [hnode]
      exact h.indexed.take _
    · rw [hnode, tryAdvanceCommit_eq]
      exact hlog
  -- the handler does not touch the calls that wait
  have hwaiting : (n.followLeader replyTerm args).1.waiting = n.waiting := by
    rcases n.followLeader_eq replyTerm args with ⟨log, k, hnode⟩
    rw [hnode]
  refine ⟨hindexed, fun p hp => ?_⟩
  rw [hwaiting] at hp
  have hhas := h.waiting p hp
  have htake := followLeader_take h.indexed (hcuts p hp) hterm (hhas.le_length h.indexed) replyTerm
  exact hhas.of_take h.indexed hindexed htake.2

theorem Kept.handleAppendEntries (h : n.Kept) {args : AppendEntriesArgs}
    (hcuts : ∀ p ∈ n.waiting, ¬ n.Cuts args p.2) : (n.handleAppendEntries args).1.Kept := by
  unfold Node.handleAppendEntries
  split_ifs with hlow hhigh
  · exact h
  · -- only the term has changed when the log is looked at
    have hraised : (n.becomeFollower args.term).Kept := h.of_same rfl fun p hp => hp
    refine hraised.followLeader (fun p hp hcut => hcuts p hp ?_) le_rfl _
    exact ⟨hhigh.le, hcut.2⟩
  · exact h.followLeader hcuts (by omega) _

theorem Kept.handleAppendReply (h : n.Kept) (peer : Bytes) (args : AppendEntriesArgs)
    (reply : AppendEntriesReply) : (n.handleAppendReply peer args reply).Kept := by
  unfold Node.handleAppendReply
  dsimp only
  split_ifs
  · exact h.of_same rfl fun p hp => hp
  · rw [tryAdvanceCommit_eq]
    exact h.of_same rfl fun p hp => hp
  · exact h.of_same rfl fun p hp => hp
  · exact h

theorem Kept.handleRequestVote (h : n.Kept) (args : RequestVoteArgs) :
    (n.handleRequestVote args).1.Kept := by
  unfold Node.handleRequestVote tryGrantVote
  dsimp only
  split_ifs <;> exact h.of_same rfl fun p hp => hp

theorem Kept.collectVote (h : n.Kept) (e : Election) (peer : Bytes)
    (reply : Option RequestVoteReply) : (n.collectVote e peer reply).Kept := by
  cases reply with
  | none => exact h.of_same rfl fun p hp => hp
  | some r =>
      unfold Node.collectVote
      dsimp only
      split_ifs <;> exact h.of_same rfl fun p hp => hp

end Node

/-! ## All runs -/

section Runs

variable {m : Members} {s : Cluster}

theorem kept_step (h : ∀ id, (s.nodes id).Kept) {a : Action} {s' : Cluster} (huncut : s.Uncut a)
    (hstep : s.step m a = some s') : ∀ id, (s'.nodes id).Kept := by
  -- only the node of the action changes
  have hset : ∀ {id n'}, n'.Kept → ∀ x, ((s.setNode id n').nodes x).Kept := by
    intro id n' hn x
    rcases eq_or_ne x id with rfl | hne
    · simpa [Cluster.setNode] using hn
    · simpa [Cluster.setNode, hne] using h x
  have hsame : ∀ {id n'}, n'.log = (s.nodes id).log → n'.waiting = (s.nodes id).waiting →
      ∀ x, ((s.setNode id n').nodes x).Kept :=
    fun {id n'} hlog hwaiting => hset ((h id).of_same hlog fun p hp => hwaiting ▸ hp)
  cases Cluster.transition_of_step hstep with
  | startElection => exact hsame rfl rfl
  | @deliverVote k id args _ => exact hset ((h id).handleRequestVote args)
  | @collectVote id k msg e _ _ _ _ => exact hset ((h id).collectVote e _ _)
  | @loseVote id peer e _ => exact hset ((h id).collectVote e peer none)
  | endElection => exact hsame rfl rfl
  | winElection => exact hsame rfl rfl
  | loseElection => exact hsame rfl rfl
  | propose => exact hsame rfl rfl
  | @proposeAppend id command _ => exact hset ((h id).proposeAppend command)
  | @proposeEnd id command logIndex _ =>
      exact hset ((h id).of_same rfl fun p hp => List.mem_of_mem_erase hp)
  | replicate => exact hsame rfl rfl
  | sendAppend => exact hsame rfl rfl
  | @deliverAppend k msg hget =>
      simp only [Cluster.Uncut, hget] at huncut
      exact hset ((h msg.peer).handleAppendEntries huncut)
  | @deliverAppendReply k msg reply _ => exact hset ((h _).handleAppendReply _ _ _)
  | readCommitted => exact hsame rfl rfl
  | @applyNext id idx committed _ _ =>
      cases hget : (s.nodes id).log.get idx with
      | none => exact hsame rfl rfl
      | some entry => exact hsame rfl rfl
  | applyMiss => exact hsame rfl rfl
  | @restart id _ => exact hset ((h id).of_same rfl fun p hp => by simp [Node.restart] at hp)

/-- Every proposal that can return now finds its command at the index it appended at, and that index
committed. -/
def Cluster.ProposalsHold (s : Cluster) : Prop :=
  ∀ id command logIndex, (command, logIndex) ∈ (s.nodes id).waiting →
    ((s.nodes id).proposeEnd command logIndex).2 = .ok () →
    (s.nodes id).Has command logIndex ∧ logIndex ≤ (s.nodes id).committedIndex

/-- In every run in which no request cuts a log at or below what a proposal waits for, a proposal
that returns has its command committed. -/
theorem proposalsHold_of_uncut
    (h : Reach (Cluster.step m) Cluster.Uncut (Cluster.init m) s) : s.ProposalsHold := by
  have hkept : ∀ id, (s.nodes id).Kept := by
    refine Reach.invariant (P := fun s => ∀ id, (s.nodes id).Kept) ?_ ?_ h
    · exact fun id => ⟨RaftLog.indexed_empty, fun p hp => by simp [Cluster.init] at hp⟩
    · exact fun _ hkept huncut hstep => kept_step hkept huncut hstep
  intro id command logIndex hwaiting hreturns
  refine ⟨(hkept id).waiting _ hwaiting, ?_⟩
  by_contra hbehind
  have hthrows : (s.nodes id).committedIndex < logIndex := Nat.lt_of_not_le hbehind
  simp [Node.proposeEnd, hthrows] at hreturns

end Runs

/-! ### Two runs -/

namespace ProposeExample

open Trio

/-- `a` leads and proposes `x`, which nobody receives yet. -/
def proposed : List Action :=
  [.startElection a, .deliverVote 0, .collectVote a 0, .loseVote a c, .decideElection a,
    .propose a (bytes "x"), .proposeAppend a (bytes "x")]

/-- `b` takes the proposal, and it is committed. -/
def taken : List Action :=
  proposed ++ [.replicate a b, .sendAppend a b, .deliverAppend 0, .deliverAppendReply 0]

/-- `b` leads the next term with `c`, and its own `y` goes where `a` waits for `x`. -/
def replaced : List Action :=
  proposed ++
    [.startElection b, .deliverVote 3, .collectVote b 1, .loseVote b a, .decideElection b,
      .propose b (bytes "y"), .proposeAppend b (bytes "y"),
      .replicate b a, .sendAppend b a, .deliverAppend 0, .deliverAppendReply 0,
      .replicate b a, .sendAppend b a, .deliverAppend 1]

def takenOutcome : Option Cluster :=
  run (Cluster.step trio) Cluster.Uncut (Cluster.init trio) taken

theorem takenOutcome_isSome : takenOutcome.isSome = true := by
  decide +kernel

def replacedOutcome : Option Cluster :=
  run (Cluster.step trio) (fun _ _ => True) (Cluster.init trio) replaced

theorem replacedOutcome_isSome : replacedOutcome.isSome = true := by
  decide +kernel

end ProposeExample

open ProposeExample Trio in
theorem proposalsHold_of_uncut_taken : (takenOutcome.get takenOutcome_isSome).ProposalsHold :=
  proposalsHold_of_uncut (reach_of_run (Option.some_get takenOutcome_isSome).symm)

open ProposeExample Trio in
/-- A proposal returns although another command is committed in its place. -/
theorem proposalsHold_fails_replaced :
    ∃ s, Reach (Cluster.step trio) (fun _ _ => True) (Cluster.init trio) s ∧
      ¬ s.ProposalsHold := by
  refine ⟨_, reach_of_run (Option.some_get replacedOutcome_isSome).symm, fun hhold => ?_⟩
  have hwaiting : (bytes "x", 1) ∈
      ((replacedOutcome.get replacedOutcome_isSome).nodes a).waiting := by
    decide +kernel
  have hcommitted :
      ((replacedOutcome.get replacedOutcome_isSome).nodes a).committedIndex = 1 := by
    decide +kernel
  -- the entry at the index is the other leader's
  have hentry : (((replacedOutcome.get replacedOutcome_isSome).nodes a).log.get 1).map
      LogEntry.command = some (bytes "y") := by
    decide +kernel
  have hhas := (hhold a _ _ hwaiting (by simp [Node.proposeEnd, hcommitted])).1
  rw [Node.Has, hentry] at hhas
  exact absurd hhas (by decide)

end Raft
end ControlDB
