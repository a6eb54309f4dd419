import ControlDB.Library.Runs
import ControlDB.Raft.Cluster

/-!
# The calls of `apply_fn`

One node over its whole life, with any requests and replies from outside, in multi-node and in
single-node mode.  The directory survives a restart and `last_applied_` does not; and the loop goes on
to the next index when it finds no entry, as it does while a request has cut the log and not yet
appended to it.
-/

namespace ControlDB
namespace Raft

open Library

namespace Node

/-! ## Single-node mode -/

/-- `start` in single-node mode. -/
def startSingle (n : Node) : Node :=
  { persist { n with ps := { n.ps with currentTerm := n.ps.currentTerm + 1 } } with
    role := .leader
    leaderId := n.nodeId }

/-- `propose` in single-node mode: what is appended is committed. -/
def proposeSingle (n : Node) (command : Bytes) : Node :=
  let (log, idx) := n.log.append n.ps.currentTerm command
  { n with log, committedIndex := idx }

/-! ## A turn of the loop -/

/-- One turn of the loop of `apply_committed`, given how the log is read. -/
def applyTurn (n : Node) (readLog : RaftLog → Nat → Option LogEntry) : Node :=
  match n.applying with
  | some (idx, committed) =>
      if idx ≤ committed then n.applyEntry idx committed (readLog n.log idx) else n
  | none => n

/-- The index and the entry that the next turn applies. -/
def nextApplied (n : Node) : Option (Nat × LogEntry) :=
  match n.applying with
  | some (idx, committed) => if idx ≤ committed then (n.log.get idx).map (idx, ·) else none
  | none => none

end Node

/-! ## Steps of a node -/

/-- A critical section of one of its threads, or a restart on the same directory. -/
inductive NodeAction
  | startElection
  | collectVote (peer : Bytes) (reply : Option RequestVoteReply)
  | decideElection
  | handleRequestVote (args : RequestVoteArgs)
  | handleAppendEntries (args : AppendEntriesArgs)
  | handleAppendReply (peer : Bytes) (args : AppendEntriesArgs) (reply : AppendEntriesReply)
  | propose (command : Bytes)
  | proposeAppend (command : Bytes)
  | proposeEnd (command : Bytes) (logIndex : Nat)
  | replicate (peer : Bytes)
  | sendAppend (peer : Bytes)
  | startSingle
  | proposeSingle (command : Bytes)
  | readCommitted
  /-- The loop finds what is in the log. -/
  | applyNext
  /-- The log is cut when the loop reads it. -/
  | applyMiss
  | restart

def Node.step (n : Node) : NodeAction → Node
  | .startElection => n.startElection
  | .collectVote peer reply => n.election.elim n fun e => n.collectVote e peer reply
  | .decideElection => n.election.elim n fun e => n.decideElection e
  | .handleRequestVote args => (n.handleRequestVote args).1
  | .handleAppendEntries args => (n.handleAppendEntries args).1
  | .handleAppendReply peer args reply => n.handleAppendReply peer args reply
  | .propose command => { n with proposed := n.proposed ++ [command] }
  | .proposeAppend command => n.proposeAppend command
  | .proposeEnd command logIndex => (n.proposeEnd command logIndex).1
  | .replicate peer => { n with replicating := n.replicating ++ [peer] }
  | .sendAppend peer => { n with replicating := n.replicating.erase peer }
  | .startSingle => n.startSingle
  | .proposeSingle command => n.proposeSingle command
  | .readCommitted => n.readCommitted
  | .applyNext => n.applyTurn RaftLog.get
  | .applyMiss => n.applyTurn fun _ _ => none
  | .restart => n.restart

/-! ## In order -/

/-- The indexes of all calls of `apply_fn` are 1, 2, 3 and so on. -/
def AppliedInOrder (n : Node) : Prop :=
  n.applied.map Prod.fst = List.range' 1 n.applied.length

/-- A turn that applies an entry has missed none before it in its range, and `last_applied_` was not
lost with calls already made; or it was, and the turns before it missed just the entries of those
calls. -/
def InPlace (n : Node) : NodeAction → Prop
  | .applyNext => ∀ idx entry, n.nextApplied = some (idx, entry) →
      if n.lastApplied = 0 ∧ n.applied ≠ [] then idx = n.applied.length + 1
      else idx = n.lastApplied + 1
  | _ => True

/-- `last_applied_` is the index of the last call, or was lost. -/
def Placed (n : Node) : Prop :=
  n.lastApplied = 0 ∨ (n.applied.getLast?.map Prod.fst) = some n.lastApplied

/-- Neither calls `apply_fn` nor moves `last_applied_`. -/
structure SameApplied (n n' : Node) : Prop where
  applied : n'.applied = n.applied
  lastApplied : n'.lastApplied = n.lastApplied

namespace SameApplied

variable {n n₁ n₂ : Node}

theorem trans (h : SameApplied n n₁) (h' : SameApplied n₁ n₂) : SameApplied n n₂ :=
  ⟨h'.applied.trans h.applied, h'.lastApplied.trans h.lastApplied⟩

theorem becomeFollower (n : Node) (term : Nat) : SameApplied n (n.becomeFollower term) :=
  ⟨rfl, rfl⟩

theorem tryAdvanceCommit (n : Node) (leaderCommit : Nat) :
    SameApplied n (n.tryAdvanceCommit leaderCommit) := by
  rw [n.tryAdvanceCommit_eq]
  exact ⟨rfl, rfl⟩

theorem tryGrantVote (n : Node) (args : RequestVoteArgs) :
    SameApplied n (n.tryGrantVote args).1 := by
  unfold Node.tryGrantVote
  split_ifs
  · exact ⟨rfl, rfl⟩
  · exact ⟨rfl, rfl⟩
  · exact ⟨rfl, rfl⟩
  · exact ⟨rfl, rfl⟩

theorem handleRequestVote (n : Node) (args : RequestVoteArgs) :
    SameApplied n (n.handleRequestVote args).1 := by
  unfold Node.handleRequestVote
  dsimp only
  split_ifs with hhigh
  · exact becomeFollower n args.term
  · exact (becomeFollower n args.term).trans (tryGrantVote _ args)
  · exact ⟨rfl, rfl⟩
  · exact tryGrantVote n args

theorem followLeader (n : Node) (replyTerm : Nat) (args : AppendEntriesArgs) :
    SameApplied n (n.followLeader replyTerm args).1 := by
  rcases n.followLeader_eq replyTerm args with ⟨log, k, heq⟩
  rw [heq]
  exact ⟨rfl, rfl⟩

theorem handleAppendEntries (n : Node) (args : AppendEntriesArgs) :
    SameApplied n (n.handleAppendEntries args).1 := by
  unfold Node.handleAppendEntries
  split_ifs
  · exact ⟨rfl, rfl⟩
  · exact (becomeFollower n args.term).trans (followLeader _ _ args)
  · exact followLeader n _ args

theorem handleAppendReply (n : Node) (peer : Bytes) (args : AppendEntriesArgs)
    (reply : AppendEntriesReply) : SameApplied n (n.handleAppendReply peer args reply) := by
  unfold Node.handleAppendReply
  dsimp only
  split_ifs
  · exact becomeFollower n reply.term
  · have hadvance := fun n' : Node => tryAdvanceCommit n' args.leaderCommit
    exact ⟨(hadvance _).applied, (hadvance _).lastApplied⟩
  · exact ⟨rfl, rfl⟩
  · exact ⟨rfl, rfl⟩

theorem collectVote (n : Node) (e : Election) (peer : Bytes) (reply : Option RequestVoteReply) :
    SameApplied n (n.collectVote e peer reply) := by
  cases reply with
  | none => exact ⟨rfl, rfl⟩
  | some r =>
      unfold Node.collectVote
      dsimp only
      split_ifs
      · exact ⟨rfl, rfl⟩
      · exact ⟨rfl, rfl⟩
      · exact ⟨rfl, rfl⟩

theorem decideElection (n : Node) (e : Election) : SameApplied n (n.decideElection e) := by
  unfold Node.decideElection
  split_ifs
  · exact ⟨rfl, rfl⟩
  · exact ⟨rfl, rfl⟩
  · exact ⟨rfl, rfl⟩

/-- A turn that finds no entry only moves on. -/
theorem applyTurn_none {n : Node} {readLog : RaftLog → Nat → Option LogEntry}
    (h : ∀ idx committed, n.applying = some (idx, committed) → idx ≤ committed →
      readLog n.log idx = none) : SameApplied n (n.applyTurn readLog) := by
  unfold Node.applyTurn
  cases happlying : n.applying with
  | none => exact ⟨rfl, rfl⟩
  | some range =>
      rcases range with ⟨idx, committed⟩
      dsimp only
      split_ifs with hle
      · rw [h idx committed happlying hle]
        exact ⟨rfl, rfl⟩
      · exact ⟨rfl, rfl⟩

end SameApplied

/-- A turn that finds an entry applies it. -/
theorem Node.applyTurn_some {n : Node} {idx : Nat} {entry : LogEntry}
    (h : n.nextApplied = some (idx, entry)) :
    (n.applyTurn RaftLog.get).applied = n.applied ++ [(idx, entry.command)] ∧
      (n.applyTurn RaftLog.get).lastApplied = idx := by
  unfold Node.nextApplied at h
  cases happlying : n.applying with
  | none => simp [happlying] at h
  | some range =>
      rcases range with ⟨next, committed⟩
      simp only [happlying] at h
      split_ifs at h with hle
      rcases Option.map_eq_some_iff.1 h with ⟨found, hget, heq⟩
      cases heq
      have hturn : n.applyTurn RaftLog.get = n.applyEntry idx committed (some entry) := by
        unfold Node.applyTurn
        rw [happlying]
        dsimp only
        rw [if_pos hle, hget]
      rw [hturn]
      exact ⟨rfl, rfl⟩

/-- The ways in which a step can go. -/
theorem Node.step_cases (n : Node) (a : NodeAction) :
    (SameApplied n (n.step a) ∧ InPlace n a) ∨ a = .restart ∨
      ∃ idx entry, a = .applyNext ∧ n.nextApplied = some (idx, entry) ∧
        (n.step a).applied = n.applied ++ [(idx, entry.command)] ∧
        (n.step a).lastApplied = idx := by
  cases a with
  | startElection => exact .inl ⟨⟨rfl, rfl⟩, trivial⟩
  | collectVote peer reply =>
      refine .inl ⟨?_, trivial⟩
      show SameApplied n (n.election.elim n fun e => n.collectVote e peer reply)
      cases n.election with
      | none => exact ⟨rfl, rfl⟩
      | some e => exact .collectVote n e peer reply
  | decideElection =>
      refine .inl ⟨?_, trivial⟩
      show SameApplied n (n.election.elim n fun e => n.decideElection e)
      cases n.election with
      | none => exact ⟨rfl, rfl⟩
      | some e => exact .decideElection n e
  | handleRequestVote args => exact .inl ⟨.handleRequestVote n args, trivial⟩
  | handleAppendEntries args => exact .inl ⟨.handleAppendEntries n args, trivial⟩
  | handleAppendReply peer args reply => exact .inl ⟨.handleAppendReply n peer args reply, trivial⟩
  | propose command => exact .inl ⟨⟨rfl, rfl⟩, trivial⟩
  | proposeAppend command => exact .inl ⟨⟨rfl, rfl⟩, trivial⟩
  | proposeEnd command logIndex => exact .inl ⟨⟨rfl, rfl⟩, trivial⟩
  | replicate peer => exact .inl ⟨⟨rfl, rfl⟩, trivial⟩
  | sendAppend peer => exact .inl ⟨⟨rfl, rfl⟩, trivial⟩
  | startSingle => exact .inl ⟨⟨rfl, rfl⟩, trivial⟩
  | proposeSingle command => exact .inl ⟨⟨rfl, rfl⟩, trivial⟩
  | readCommitted => exact .inl ⟨⟨rfl, rfl⟩, trivial⟩
  | applyMiss =>
      exact .inl ⟨@SameApplied.applyTurn_none n (fun _ _ => none) fun _ _ _ _ => rfl, trivial⟩
  | restart => exact .inr (.inl rfl)
  | applyNext =>
      cases hnext : n.nextApplied with
      | some found =>
          rcases found with ⟨idx, entry⟩
          exact .inr (.inr ⟨idx, entry, rfl, rfl, Node.applyTurn_some hnext⟩)
      | none =>
          left
          refine ⟨.applyTurn_none ?_, fun idx entry h => by rw [hnext] at h; cases h⟩
          intro idx committed happlying hle
          unfold Node.nextApplied at hnext
          rw [happlying] at hnext
          dsimp only at hnext
          rw [if_pos hle] at hnext
          exact Option.map_eq_none_iff.1 hnext

/-! ## Runs -/

section Runs

variable {n : Node}

/-- What is known of `last_applied_` holds in any case. -/
theorem Placed.step (h : Placed n) (a : NodeAction) : Placed (n.step a) := by
  rcases n.step_cases a with ⟨hsame, _⟩ | rfl | ⟨idx, entry, _, _, happlied, hlast⟩
  · unfold Placed
    rw [hsame.applied, hsame.lastApplied]
    exact h
  · exact .inl rfl
  · right
    rw [happlied, hlast, List.getLast?_concat]
    rfl

/-- The next call continues the others exactly if it has the number after theirs. -/
theorem appliedInOrder_concat_iff {n' : Node} {idx : Nat} {command : Bytes}
    (h : AppliedInOrder n) (happlied : n'.applied = n.applied ++ [(idx, command)]) :
    AppliedInOrder n' ↔ idx = n.applied.length + 1 := by
  unfold AppliedInOrder at h ⊢
  have hcalls : n'.applied.map Prod.fst = List.range' 1 n.applied.length ++ [idx] := by
    rw [happlied, List.map_append, h, List.map_singleton]
  have hplaces : List.range' 1 n'.applied.length =
      List.range' 1 n.applied.length ++ [n.applied.length + 1] := by
    rw [happlied, List.length_append, List.length_singleton, List.range'_concat, Nat.one_mul,
      Nat.add_comm 1]
  rw [hcalls, hplaces, List.append_cancel_left_eq, List.singleton_inj]

theorem Placed.lastApplied_eq (h : Placed n) (horder : AppliedInOrder n)
    (hkept : ¬ (n.lastApplied = 0 ∧ n.applied ≠ [])) : n.lastApplied = n.applied.length := by
  rcases h with hzero | hlast
  · by_cases hnil : n.applied = []
    · rw [hzero, hnil]
      rfl
    · exact absurd ⟨hzero, hnil⟩ hkept
  · rw [← List.getLast?_map, horder, List.getLast?_range'] at hlast
    split_ifs at hlast
    rw [← Option.some.inj hlast, Nat.add_sub_cancel_left]

/-- Step lemma. -/
theorem appliedInOrder_step_iff (hplaced : Placed n) (h : AppliedInOrder n) (a : NodeAction) :
    AppliedInOrder (n.step a) ↔ InPlace n a := by
  rcases n.step_cases a with ⟨hsame, hplace⟩ | rfl | ⟨idx, entry, rfl, hnext, happlied, _⟩
  · refine iff_of_true ?_ hplace
    unfold AppliedInOrder
    rw [hsame.applied]
    exact h
  · exact iff_of_true h trivial
  · have hplace : InPlace n .applyNext ↔ idx = n.applied.length + 1 := by
      constructor
      · intro hplace
        have hidx := hplace idx entry hnext
        split_ifs at hidx with hlost
        · exact hidx
        · rw [hidx, hplaced.lastApplied_eq h hlost]
      · intro hidx idx' entry' hnext'
        cases hnext.symm.trans hnext'
        split_ifs with hlost
        · exact hidx
        · rw [hidx, hplaced.lastApplied_eq h hlost]
    rw [hplace]
    exact appliedInOrder_concat_iff h happlied

end Runs

section Members

variable {m : Members} {s s' : Cluster}

theorem nodes_setNode {id : Bytes} {n : Node} (a : NodeAction) (h : n = (s.nodes id).step a)
    (id' : Bytes) : ∃ actions : List NodeAction,
      (s.setNode id n).nodes id' = actions.foldl Node.step (s.nodes id') := by
  by_cases hid : id' = id
  · refine ⟨[a], ?_⟩
    show Function.update s.nodes id n id' = (s.nodes id').step a
    rw [hid, Function.update_self, h]
  · refine ⟨[], ?_⟩
    show Function.update s.nodes id n id' = s.nodes id'
    rw [Function.update_of_ne hid]

theorem step_collectVote {n : Node} {e : Election} (h : n.election = some e) (peer : Bytes)
    (reply : Option RequestVoteReply) :
    n.collectVote e peer reply = n.step (.collectVote peer reply) := by
  show _ = n.election.elim n fun e => n.collectVote e peer reply
  rw [h]
  rfl

theorem step_applyTurn {n : Node} {idx committed : Nat} (h : n.applying = some (idx, committed))
    (hle : idx ≤ committed) (readLog : RaftLog → Nat → Option LogEntry) :
    n.applyEntry idx committed (readLog n.log idx) = n.applyTurn readLog := by
  unfold Node.applyTurn
  rw [h]
  exact (if_pos hle).symm

/-- An action of a cluster is a step of one of its nodes. -/
theorem nodeSteps_of_step {a : Action} (h : s.step m a = some s') (id : Bytes) :
    ∃ actions : List NodeAction, s'.nodes id = actions.foldl Node.step (s.nodes id) := by
  cases a with
  | startElection _ =>
      cases Cluster.transition_of_step h
      exact nodes_setNode .startElection rfl id
  | deliverVote _ =>
      cases Cluster.transition_of_step h with
      | @deliverVote _ _ args _ => exact nodes_setNode (.handleRequestVote args) rfl id
  | collectVote _ _ =>
      cases Cluster.transition_of_step h with
      | @collectVote _ _ msg _ _ helection _ _ =>
          exact nodes_setNode (.collectVote msg.voter (some msg.reply))
            (step_collectVote helection _ _) id
  | loseVote _ peer =>
      cases Cluster.transition_of_step h with
      | loseVote helection =>
          exact nodes_setNode (.collectVote peer none) (step_collectVote helection _ _) id
  | decideElection id' =>
      simp only [Cluster.step, Cluster.decideElection] at h
      cases helection : (s.nodes id').election with
      | none => simp [helection] at h
      | some e =>
          simp only [helection] at h
          split_ifs at h
          all_goals
            rw [← Option.some.inj h]
            refine nodes_setNode .decideElection ?_ id
            show _ = (s.nodes id').election.elim _ fun e => (s.nodes id').decideElection e
            rw [helection]
            rfl
  | propose _ command =>
      cases Cluster.transition_of_step h
      exact nodes_setNode (.propose command) rfl id
  | proposeAppend _ command =>
      cases Cluster.transition_of_step h
      exact nodes_setNode (.proposeAppend command) rfl id
  | proposeEnd _ command logIndex =>
      cases Cluster.transition_of_step h
      exact nodes_setNode (.proposeEnd command logIndex) rfl id
  | replicate _ peer =>
      cases Cluster.transition_of_step h
      exact nodes_setNode (.replicate peer) rfl id
  | sendAppend _ peer =>
      cases Cluster.transition_of_step h
      exact nodes_setNode (.sendAppend peer) rfl id
  | deliverAppend _ =>
      cases Cluster.transition_of_step h with
      | @deliverAppend _ msg _ => exact nodes_setNode (.handleAppendEntries msg.args) rfl id
  | deliverAppendReply _ =>
      cases Cluster.transition_of_step h with
      | @deliverAppendReply _ msg reply _ =>
          exact nodes_setNode (.handleAppendReply msg.peer msg.args reply) rfl id
  | readCommitted _ =>
      cases Cluster.transition_of_step h
      exact nodes_setNode .readCommitted rfl id
  | applyNext _ =>
      cases Cluster.transition_of_step h with
      | applyNext happlying hle =>
          exact nodes_setNode .applyNext (step_applyTurn happlying hle RaftLog.get) id
  | applyMiss _ =>
      cases Cluster.transition_of_step h with
      | applyMiss happlying hle =>
          exact nodes_setNode .applyMiss (step_applyTurn happlying hle fun _ _ => none) id
  | restart _ =>
      cases Cluster.transition_of_step h
      exact nodes_setNode .restart rfl id

/-- What a node of a cluster goes through is a run of that node. -/
theorem nodeRun_of_reach {ok : Cluster → Action → Prop} (h : Reach (Cluster.step m) ok (.init m) s)
    (id : Bytes) : ∃ actions : List NodeAction,
      s.nodes id = actions.foldl Node.step ((Cluster.init m).nodes id) := by
  induction h with
  | init => exact ⟨[], rfl⟩
  | step _ _ hnext ih =>
      rcases ih with ⟨before, hbefore⟩
      rcases nodeSteps_of_step hnext id with ⟨actions, hactions⟩
      exact ⟨before ++ actions, by rw [hactions, hbefore, List.foldl_append]⟩

end Members

/-! ## A node that restarts -/

namespace ApplyExample

/-- `node_1` in single-node mode applies a command, and restarts before the next. -/
def actions : List NodeAction :=
  [.startSingle, .proposeSingle (bytes "x"), .readCommitted, .applyNext, .restart, .startSingle,
    .proposeSingle (bytes "y"), .readCommitted, .applyNext]

end ApplyExample

end Raft
end ControlDB
