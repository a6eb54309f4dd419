import ControlDB.Raft.LogMatching

/-!
# Terms and committed indexes of a run

A node's term never goes back.  Its committed index does when it takes over a leader's commit index
while its own log ends before what it has committed already: `try_advance_commit` looks at the
leader's index and the end of the log only.  A committed index goes back in just those steps.
-/

namespace ControlDB
namespace Raft

open Library

/-- Neither the term nor the committed index is lower afterwards. -/
structure Node.Forward (n n' : Node) : Prop where
  term : n.ps.currentTerm ≤ n'.ps.currentTerm
  committed : n.committedIndex ≤ n'.committedIndex

def Cluster.Forward (s s' : Cluster) : Prop :=
  ∀ id, (s.nodes id).Forward (s'.nodes id)

/-! ## Requests that cover what is committed -/

/-- If the node accepts the request and takes over its commit index, its log then reaches what the
node has committed before: the request reaches that far, or the log does and nothing is cut. -/
def Node.Covers (n : Node) (args : AppendEntriesArgs) : Prop :=
  n.Accepts args → n.committedIndex < args.leaderCommit →
    n.committedIndex ≤ args.prevLogIndex + args.entries.length ∨
      n.committedIndex ≤ n.log.lastIndex ∧ ∀ i ∈ List.range args.entries.length,
        args.prevLogIndex + 1 + i ≤ n.log.lastIndex →
          n.log.termAt (args.prevLogIndex + 1 + i) = args.term

instance (n : Node) (args : AppendEntriesArgs) : Decidable (n.Covers args) :=
  inferInstanceAs (Decidable (_ → _ → _ ∨ _))

def Cluster.Covers (s : Cluster) : Action → Prop
  | .deliverAppend k =>
      match s.appendRequests[k]? with
      | some msg => (s.nodes msg.peer).Covers msg.args
      | none => True
  | _ => True

instance (s : Cluster) : (a : Action) → Decidable (s.Covers a)
  | .deliverAppend k =>
      match h : s.appendRequests[k]? with
      | some msg => decidable_of_iff ((s.nodes msg.peer).Covers msg.args)
          (by simp [Cluster.Covers, h])
      | none => .isTrue (by simp [Cluster.Covers, h])
  | .startElection _ | .deliverVote _ | .collectVote _ _ | .loseVote _ _ | .decideElection _
  | .propose _ _ | .proposeAppend _ _ | .proposeEnd _ _ _ | .replicate _ _ | .sendAppend _ _
  | .deliverAppendReply _ | .readCommitted _ | .applyNext _ | .applyMiss _ | .restart _ =>
      .isTrue trivial

/-- No process ends. -/
def Action.Live : Action → Prop
  | .restart _ => False
  | _ => True

instance : (a : Action) → Decidable a.Live
  | .restart _ => .isFalse id
  | .startElection _ | .deliverVote _ | .collectVote _ _ | .loseVote _ _ | .decideElection _
  | .propose _ _ | .proposeAppend _ _ | .proposeEnd _ _ _ | .replicate _ _ | .sendAppend _ _
  | .deliverAppend _ | .deliverAppendReply _ | .readCommitted _ | .applyNext _ | .applyMiss _ =>
      .isTrue trivial

namespace Node

variable {n n' n'' : Node}

/-! ## The commit rule -/

/-- A leader's own committed index only advances, and so does that of a node that hears of nothing
beyond it. -/
theorem committed_le_tryAdvanceCommit {leaderCommit : Nat} (h : leaderCommit ≤ n.committedIndex) :
    n.committedIndex ≤ (n.tryAdvanceCommit leaderCommit).committedIndex := by
  unfold tryAdvanceCommit
  dsimp only
  split_ifs with _ hbeyond hquorum
  · exact absurd h (Nat.not_le.2 hbeyond)
  · exact le_rfl
  · exact hquorum.1.le
  · exact le_rfl

/-- A follower's goes as far as its log does. -/
theorem committed_le_follower_iff (hrole : n.role = .follower) (leaderCommit : Nat) :
    n.committedIndex ≤ (n.tryAdvanceCommit leaderCommit).committedIndex ↔
      (n.committedIndex < leaderCommit → n.committedIndex ≤ n.log.lastIndex) := by
  have hnot : n.role ≠ .leader := by simp [hrole]
  unfold tryAdvanceCommit
  rw [if_pos hnot]
  by_cases hbeyond : leaderCommit > n.committedIndex
  · rw [if_pos hbeyond]
    dsimp only
    rw [Nat.le_min]
    exact ⟨fun h _ => h.2, fun h => ⟨hbeyond.le, h hbeyond⟩⟩
  · rw [if_neg hbeyond]
    exact ⟨fun _ hlt => absurd hlt hbeyond, fun _ => le_rfl⟩

/-! ## Append requests -/

/-- In terms of the log as a list, nothing is cut if what is found has the term of the request. -/
theorem uncut_iff (h : n.log.Indexed) (args : AppendEntriesArgs) :
    (∀ i ∈ List.range args.entries.length, args.prevLogIndex + 1 + i ≤ n.log.lastIndex →
        n.log.termAt (args.prevLogIndex + 1 + i) = args.term) ↔
      ∀ j, args.prevLogIndex ≤ j → j < args.prevLogIndex + args.entries.length →
        j < n.log.view.length → n.log.view[j]?.map Replication.Entry.term = some args.term := by
  have hterm : ∀ j, j < n.log.view.length →
      (n.log.termAt (j + 1) = args.term ↔
        n.log.view[j]?.map Replication.Entry.term = some args.term) := by
    intro j hj
    rw [h.termAt_eq, Replication.termAt, List.getElem?_eq_getElem hj]
    simp
  rw [h.lastIndex_eq]
  constructor
  · intro hfound j hij hj hin
    rw [← hterm j hin]
    have hindex : args.prevLogIndex + 1 + (j - args.prevLogIndex) = j + 1 := by omega
    rw [← hindex]
    exact hfound _ (List.mem_range.2 (by omega)) (by omega)
  · intro hfound i hi hin
    have hindex : args.prevLogIndex + 1 + i = args.prevLogIndex + i + 1 := by omega
    rw [hindex] at hin ⊢
    have hlt := List.mem_range.1 hi
    exact (hterm _ hin).2 (hfound _ (by omega) (by omega) hin)

theorem accepts_iff (h : n.log.Indexed) (args : AppendEntriesArgs) :
    n.Accepts args ↔ n.ps.currentTerm ≤ args.term ∧ args.prevLogIndex ≤ n.log.view.length ∧
      (0 < args.prevLogIndex →
        Replication.termAt n.log.view args.prevLogIndex = args.prevLogTerm) := by
  rw [Accepts, Considers, h.lastIndex_eq, h.termAt_eq, and_assoc]

theorem committed_le_followLeader_iff (h : n.log.Indexed) (replyTerm : Nat)
    {args : AppendEntriesArgs} (hterm : n.ps.currentTerm ≤ args.term) :
    n.committedIndex ≤ (n.followLeader replyTerm args).1.committedIndex ↔ n.Covers args := by
  rw [Covers, accepts_iff h, uncut_iff h, h.lastIndex_eq]
  rcases followLeader_cases h replyTerm args with
    ⟨hshort, heq, _⟩ | ⟨hpos, _, hdiffers, heq, _⟩ | ⟨hle, hprev, log, hindexed, hview, heq, _⟩
  · rw [heq]
    exact ⟨fun _ haccepts => absurd haccepts.2.1 (Nat.not_le.2 hshort), fun _ => le_rfl⟩
  · rw [heq]
    exact ⟨fun _ haccepts => absurd (haccepts.2.2 hpos) hdiffers, fun _ => le_rfl⟩
  · have hfollows := @committed_le_follower_iff
      { n with leaderId := args.leaderId, role := .follower, log := log } rfl args.leaderCommit
    dsimp only at hfollows
    rw [heq, hfollows, hindexed.lastIndex_eq, hview, Replication.le_length_splice_iff hle]
    exact ⟨fun hreaches _ => hreaches, fun hcovers => hcovers ⟨hterm, hle, hprev⟩⟩

/-- An append request lowers the committed index of a node just if it does not cover it. -/
theorem committed_le_handleAppendEntries_iff (h : n.log.Indexed) (args : AppendEntriesArgs) :
    n.committedIndex ≤ (n.handleAppendEntries args).1.committedIndex ↔ n.Covers args := by
  unfold handleAppendEntries
  split_ifs with hlow hhigh
  · refine ⟨fun _ haccepts => ?_, fun _ => le_rfl⟩
    exact absurd haccepts.1.1 (Nat.not_le.2 hlow)
  · -- only the term has changed when the log is looked at
    have hraised := @committed_le_followLeader_iff (n.becomeFollower args.term) h n.ps.currentTerm
      args le_rfl
    have hcovers : (n.becomeFollower args.term).Covers args ↔ n.Covers args := by
      rw [Covers, Covers, accepts_iff h, @accepts_iff (n.becomeFollower args.term) h]
      simp only [becomeFollower, persist, le_refl, hhigh.le]
    rw [← hcovers]
    exact hraised
  · exact committed_le_followLeader_iff h _ (Nat.le_of_not_lt hlow)

/-- A reply to a request that was sent with no more than is committed now. -/
theorem handleAppendReply_forward (peer : Bytes) {args : AppendEntriesArgs}
    (reply : AppendEntriesReply) (h : args.leaderCommit ≤ n.committedIndex) :
    n.Forward (n.handleAppendReply peer args reply) := by
  have hmoved : ∀ states, n.committedIndex ≤
      (tryAdvanceCommit { n with peerStates := states } args.leaderCommit).committedIndex :=
    fun states => @committed_le_tryAdvanceCommit { n with peerStates := states } _ h
  refine ⟨(n.handleAppendReply_calm peer args reply).term_le, ?_⟩
  unfold handleAppendReply
  dsimp only
  split_ifs
  · exact le_rfl
  · exact hmoved _
  · exact le_rfl
  · exact le_rfl

end Node

/-! ## Clusters -/

/-- What was sent as a leader's commit index is still committed there. -/
structure CommitsKnown (s : Cluster) : Prop where
  wired : ∀ id, (s.nodes id).nodeId = id
  indexed : ∀ id, (s.nodes id).log.Indexed
  sent : ∀ msg ∈ s.appendRequests,
    msg.args.leaderCommit ≤ (s.nodes msg.args.leaderId).committedIndex
  replied : ∀ p ∈ s.appendReplies,
    p.1.args.leaderCommit ≤ (s.nodes p.1.args.leaderId).committedIndex

section Steps

variable {m : Members} {s s' : Cluster} {id : Bytes} {n' : Node}

theorem commitsKnown_init (m : Members) : CommitsKnown (Cluster.init m) := by
  constructor <;> simp [Cluster.init, RaftLog.indexed_empty]

theorem Cluster.forward_setNode_iff :
    s.Forward (s.setNode id n') ↔ (s.nodes id).Forward n' := by
  constructor
  · intro h
    simpa only [setNode_self] using h id
  · intro h x
    rcases eq_or_ne x id with rfl | hne
    · simpa only [setNode_self] using h
    · rw [setNode_ne hne]
      exact ⟨le_rfl, le_rfl⟩

theorem CommitsKnown.setNode (h : CommitsKnown s) (hid : n'.nodeId = (s.nodes id).nodeId)
    (hindexed : n'.log.Indexed) (hn : (s.nodes id).Forward n') :
    CommitsKnown (s.setNode id n') := by
  have hforward := Cluster.forward_setNode_iff.2 hn
  refine ⟨fun x => ?_, fun x => ?_, fun msg hmsg => ?_, fun p hp => ?_⟩
  · rcases eq_or_ne x id with rfl | hne
    · rw [setNode_self, hid, h.wired]
    · rw [setNode_ne hne, h.wired]
  · rcases eq_or_ne x id with rfl | hne
    · rwa [setNode_self]
    · rw [setNode_ne hne]
      exact h.indexed x
  · exact (h.sent msg hmsg).trans (hforward _).committed
  · exact (h.replied p hp).trans (hforward _).committed

/-- Step lemma: an action makes some term or committed index go back just if it delivers a request
that does not cover what its receiver has committed. -/
theorem CommitsKnown.step (h : CommitsKnown s) {a : Action} (hlive : a.Live)
    (hstep : s.step m a = some s') :
    (s.Forward s' ↔ s.Covers a) ∧ (s.Covers a → CommitsKnown s') := by
  have hset : ∀ {id n'}, n'.nodeId = (s.nodes id).nodeId → n'.log.Indexed →
      (s.nodes id).Forward n' → s.Forward (s.setNode id n') ∧ CommitsKnown (s.setNode id n') :=
    fun hid hindexed hn => ⟨Cluster.forward_setNode_iff.2 hn, h.setNode hid hindexed hn⟩
  have hsteady : ∀ {id n'}, Steady (s.nodes id) n' →
      s.Forward (s.setNode id n') ∧ CommitsKnown (s.setNode id n') :=
    fun {id n'} hn => hset hn.nodeId (hn.log ▸ h.indexed id) ⟨hn.term, hn.committed.ge⟩
  -- all actions but the delivery of a request cover everything
  have hall : ∀ {t : Cluster} {P : Prop}, P → s.Forward t ∧ CommitsKnown t →
      (s.Forward t ↔ P) ∧ (P → CommitsKnown t) :=
    fun hP ht => ⟨iff_of_true ht.1 hP, fun _ => ht.2⟩
  cases Cluster.transition_of_step hstep with
  | @startElection id _ _ _ =>
      have hn := hsteady (.startElection (s.nodes id))
      exact hall trivial ⟨hn.1, { hn.2 with }⟩
  | @deliverVote k id args _ =>
      have hn := hsteady (.handleRequestVote (s.nodes id) args)
      exact hall trivial ⟨hn.1, { hn.2 with }⟩
  | collectVote _ _ _ _ => exact hall trivial (hsteady (.collectVote _ _ _ _))
  | loseVote _ => exact hall trivial (hsteady (.collectVote _ _ _ _))
  | endElection _ _ => exact hall trivial (hsteady (.of_same rfl rfl rfl rfl rfl rfl))
  | @winElection id e _ _ _ =>
      have hn := @hset id
        { s.nodes id with
          role := .leader
          leaderId := (s.nodes id).nodeId
          peerStates := fun _ => { nextIndex := (s.nodes id).log.lastIndex + 1, matchIndex := 0 }
          election := none } rfl (h.indexed id) ⟨le_rfl, le_rfl⟩
      exact hall trivial ⟨hn.1, { hn.2 with }⟩
  | loseElection _ _ => exact hall trivial (hsteady (.loseElection _))
  | propose _ => exact hall trivial (hsteady (.of_same rfl rfl rfl rfl rfl rfl))
  | @proposeAppend id command _ =>
      refine hall trivial (hset rfl ?_ ⟨le_rfl, le_rfl⟩)
      have happend := (h.indexed id).append_eq (s.nodes id).ps.currentTerm command
      simp only [Node.proposeAppend, happend]
      exact (h.indexed id).concat _ _
  | proposeEnd _ => exact hall trivial (hsteady (.of_same rfl rfl rfl rfl rfl rfl))
  | replicate _ _ => exact hall trivial (hsteady (.of_same rfl rfl rfl rfl rfl rfl))
  | @sendAppend id peer _ =>
      have hn := @hsteady id
        { s.nodes id with replicating := (s.nodes id).replicating.erase peer }
        (.of_same rfl rfl rfl rfl rfl rfl)
      refine hall trivial ⟨hn.1, { hn.2 with sent := ?_ }⟩
      intro msg hmsg
      rcases List.mem_append.1 hmsg with hold | hnew
      · exact hn.2.sent msg hold
      · -- a request carries what its sender has committed
        rw [List.mem_singleton.1 hnew]
        have hself : (s.nodes id).committedIndex ≤ _ := (hn.1 id).committed
        simpa only [Node.replicateArgs, h.wired id] using hself
  | @deliverAppend k msg hget =>
      have hcovers : s.Covers (.deliverAppend k) ↔ (s.nodes msg.peer).Covers msg.args := by
        simp only [Cluster.Covers, hget]
      have hcalm := (s.nodes msg.peer).handleAppendEntries_calm msg.args
      have hindexed := h.indexed msg.peer
      have hexact := Node.committed_le_handleAppendEntries_iff hindexed msg.args
      rw [hcovers, ← hexact]
      refine ⟨⟨fun hforward => ?_, fun hle => ?_⟩, fun hle => ?_⟩
      · exact (Cluster.forward_setNode_iff.1 hforward).committed
      · exact Cluster.forward_setNode_iff.2 ⟨hcalm.term_le, hle⟩
      · have hn := h.setNode hcalm.nodeId (Node.indexed_handleAppendEntries hindexed msg.args)
          ⟨hcalm.term_le, hle⟩
        refine { hn with replied := ?_ }
        intro p hp
        rcases List.mem_append.1 hp with hold | hnew
        · exact hn.replied p hold
        · rw [List.mem_singleton.1 hnew]
          exact hn.sent msg (List.mem_of_getElem? hget)
  | @deliverAppendReply k msg reply hget =>
      have hn := Node.handleAppendReply_forward msg.peer reply
        (h.replied _ (List.mem_of_getElem? hget))
      have hcalm := (s.nodes msg.args.leaderId).handleAppendReply_calm msg.peer msg.args reply
      refine hall trivial (hset hcalm.nodeId ?_ hn)
      rw [(LogKept.handleAppendReply _ msg.peer msg.args reply).log]
      exact h.indexed _
  | readCommitted _ => exact hall trivial (hsteady (.of_same rfl rfl rfl rfl rfl rfl))
  | applyNext _ _ => exact hall trivial (hsteady (.applyEntry _ _ _ _))
  | applyMiss _ _ => exact hall trivial (hsteady (.applyEntry _ _ _ _))
  | restart _ => exact absurd hlive id

end Steps

/-! ## Every run -/

/-- In a run without restarts no term and no committed index goes back, if and only if every request
that is delivered covers what its receiver has committed. -/
theorem neverBack_iff (m : Members) (actions : List Action) (hlive : ∀ a ∈ actions, a.Live) :
    Along (Cluster.step m) (fun s _ s' => s.Forward s') (Cluster.init m) actions ↔
      Along (Cluster.step m) (fun s a _ => s.Covers a) (Cluster.init m) actions :=
  along_iff (I := CommitsKnown) (A := Action.Live)
    (fun h hlive hcovers hstep => (h.step hlive hstep).2 hcovers)
    (fun h hlive hstep => (h.step hlive hstep).1) (commitsKnown_init m) hlive

/-! ### Two runs -/

namespace NeverBackExample

open Trio SafetyExample

/-- `id` sends a request to `peer`, the `k`-th, which arrives. -/
def send (id peer : Bytes) (k : Nat) : List Action :=
  [.replicate id peer, .sendAppend id peer, .deliverAppend k]

/-- `a` leads and commits `x`, which `b` takes, and two heartbeats tell `b` and `c` so. -/
def told : List Action :=
  elect a c 0 0 ++ [.propose a (bytes "x"), .proposeAppend a (bytes "x")] ++
    send a b 0 ++ [.deliverAppendReply 0] ++ send a b 1 ++ send a c 2 ++ [.deliverAppendReply 2] ++
    send a c 3

/-- `a` leads term 1 and proposes `x`, hears of term 2 from `b`, and leads term 3.  Two heartbeats of
that term, which ask for term 1 at index 1, do not arrive.  `b` and `c` get `x` under term 3; `b`
hears that 3 entries are committed, and `c` that 2 are.  Then the heartbeats arrive and both drop
their entries, and `b` is elected by `c`. -/
def emptied : List Action :=
  elect a c 0 0 ++ [.propose a (bytes "x"), .proposeAppend a (bytes "x")] ++
    [.startElection b, .deliverVote 2, .loseVote b a, .loseVote b c, .decideElection b] ++
    elect a c 4 2 ++
    [.replicate a b, .sendAppend a b, .replicate a c, .sendAppend a c] ++
    send a b 2 ++ [.deliverAppendReply 0] ++ send a c 3 ++ [.deliverAppendReply 1] ++
    [.propose a (bytes "y"), .proposeAppend a (bytes "y")] ++
    send a b 4 ++ [.deliverAppendReply 2] ++ send a c 5 ++
    [.propose a (bytes "z"), .proposeAppend a (bytes "z")] ++
    send a b 6 ++ [.deliverAppendReply 4] ++ send a b 7 ++
    [.deliverAppend 0, .deliverAppend 1] ++ elect b a 7 3 ++ [.replicate b c, .sendAppend b c]

def toldOutcome : Option Cluster :=
  run (Cluster.step trio) Cluster.Covers (Cluster.init trio) told

theorem toldOutcome_isSome : toldOutcome.isSome = true := by
  decide +kernel

def emptiedOutcome : Option Cluster :=
  emptied.foldlM (Cluster.step trio) (Cluster.init trio)

theorem emptiedOutcome_isSome : emptiedOutcome.isSome = true := by
  decide +kernel

end NeverBackExample

open NeverBackExample Trio in
theorem neverBack_iff_told :
    Along (Cluster.step trio) (fun s _ s' => s.Forward s') (Cluster.init trio) told :=
  (neverBack_iff trio told (by decide)).2
    (along_of_run (Option.some_get toldOutcome_isSome).symm)

open NeverBackExample Trio in
/-- A heartbeat of a leader with no entry left and 3 of them committed takes the index back. -/
theorem neverBack_fails_emptied :
    (∀ a ∈ emptied ++ [Action.deliverAppend 8], a.Live) ∧
      ¬ Along (Cluster.step trio) (fun s _ s' => s.Forward s') (Cluster.init trio)
        (emptied ++ [Action.deliverAppend 8]) := by
  refine ⟨by decide, fun halong => ?_⟩
  have hbefore : ((emptiedOutcome.get emptiedOutcome_isSome).nodes c).committedIndex = 2 := by
    decide +kernel
  have hafter : ((emptiedOutcome.get emptiedOutcome_isSome).step trio (.deliverAppend 8)).map
      (fun s => (s.nodes c).committedIndex) = some 0 := by
    decide +kernel
  rcases Option.map_eq_some_iff.1 hafter with ⟨s', hnext, hzero⟩
  have hrest := halong.after (Option.some_get emptiedOutcome_isSome).symm
  have hforward := ((hrest s' hnext).1 c).committed
  rw [hbefore, hzero] at hforward
  exact absurd hforward (by decide)

end Raft
end ControlDB
