import ControlDB.Raft.Safety

/-!
# Log matching

When logs with an entry of the same index and term agree up to it.  A receiver writes the commands of
a request under the sender's current term, whatever term the entries had at the sender, and `propose`
appends under the node's current term without another look at its role.  Logs match in every run in
which neither gives an entry a term that is not its own.
-/

namespace ControlDB
namespace Raft

open Library
open Library.Replication (Entry Matches Segment)
open Function (update)

/-- Logs that hold an entry of the same index and term hold the same entries up to it. -/
def Cluster.LogMatching (s : Cluster) : Prop :=
  ∀ a b, ∀ e ∈ (s.nodes a).log.entries, ∀ e' ∈ (s.nodes b).log.entries,
    e.index = e'.index → e.term = e'.term →
    ∀ j, 0 < j → j ≤ e.index →
      ∃ entry, (s.nodes a).log.get j = some entry ∧ (s.nodes b).log.get j = some entry

/-! ## Actions that keep terms -/

/-- The node takes the entries of the request: it looks at it, and the terms at the index that the
request follows agree. -/
def Node.Accepts (n : Node) (args : AppendEntriesArgs) : Prop :=
  n.Considers args ∧
    (0 < args.prevLogIndex → n.log.termAt args.prevLogIndex = args.prevLogTerm)

instance (n : Node) (args : AppendEntriesArgs) : Decidable (n.Accepts args) :=
  inferInstanceAs (Decidable (_ ∧ (_ → _)))

/-- A proposal is appended by a node that still leads, the entries of a request that is accepted had
its term at the sender, and a node restarts only if its vote can be stored. -/
def Cluster.KeepsTerms (m : Members) (s : Cluster) : Action → Prop
  | .proposeAppend id _ => (s.nodes id).role = .leader
  | .deliverAppend k =>
      match s.appendRequests[k]? with
      | some msg => (s.nodes msg.peer).Accepts msg.args → ∀ e ∈ msg.sources, e.term = msg.args.term
      | none => True
  | .restart _ => m.Storable
  | _ => True

instance (m : Members) (s : Cluster) (a : Action) : Decidable (s.KeepsTerms m a) :=
  match a with
  | .proposeAppend id _ => decEq (s.nodes id).role .leader
  | .deliverAppend k =>
      match h : s.appendRequests[k]? with
      | some msg =>
          decidable_of_iff ((s.nodes msg.peer).Accepts msg.args →
            ∀ e ∈ msg.sources, e.term = msg.args.term) (by simp [Cluster.KeepsTerms, h])
      | none => .isTrue (by simp [Cluster.KeepsTerms, h])
  | .restart _ => (inferInstance : Decidable m.Storable)
  | .startElection _ | .deliverVote _ | .collectVote _ _ | .loseVote _ _ | .decideElection _
  | .propose _ _ | .proposeEnd _ _ _ | .replicate _ _ | .sendAppend _ _ | .deliverAppendReply _
  | .readCommitted _ | .applyNext _ | .applyMiss _ => .isTrue trivial

/-! ## Nodes that keep their log -/

/-- The log stays, and a node that leads afterwards led before, in the same term. -/
structure LogKept (n n' : Node) : Prop where
  log : n'.log = n.log
  leads : n'.role = .leader → n.role = .leader ∧ n'.ps.currentTerm = n.ps.currentTerm
  next : (∀ peer, 0 < (n.peerStates peer).nextIndex) →
    ∀ peer, 0 < (n'.peerStates peer).nextIndex

namespace LogKept

variable {n n' n'' : Node}

/-- Nothing but the role and the term matters, and the node does not come to lead. -/
theorem of_follower (hlog : n'.log = n.log) (hrole : n'.role ≠ .leader)
    (hnext : n'.peerStates = n.peerStates) : LogKept n n' where
  log := hlog
  leads := fun hleader => absurd hleader hrole
  next := fun h peer => hnext ▸ h peer

theorem of_same (hlog : n'.log = n.log) (hrole : n'.role = n.role) (hps : n'.ps.currentTerm = n.ps.currentTerm)
    (hnext : n'.peerStates = n.peerStates) : LogKept n n' where
  log := hlog
  leads := fun hleader => ⟨hrole ▸ hleader, hps⟩
  next := fun h peer => hnext ▸ h peer

theorem refl (n : Node) : LogKept n n :=
  of_same rfl rfl rfl rfl

theorem trans (h : LogKept n n') (h' : LogKept n' n'') : LogKept n n'' where
  log := h'.log.trans h.log
  leads := fun hleader =>
    ⟨(h.leads (h'.leads hleader).1).1,
      (h'.leads hleader).2.trans (h.leads (h'.leads hleader).1).2⟩
  next := fun hn => h'.next (h.next hn)

theorem becomeFollower (n : Node) (term : Nat) : LogKept n (n.becomeFollower term) :=
  of_follower rfl (by simp [Node.becomeFollower]) rfl

theorem tryAdvanceCommit (n : Node) (leaderCommit : Nat) :
    LogKept n (n.tryAdvanceCommit leaderCommit) := by
  rw [Node.tryAdvanceCommit_eq]
  exact of_same rfl rfl rfl rfl

/-- A reply moves the index of a peer, and never below 1. -/
theorem handleAppendReply (n : Node) (peer : Bytes) (args : AppendEntriesArgs)
    (reply : AppendEntriesReply) : LogKept n (n.handleAppendReply peer args reply) := by
  have hmoved : ∀ ps : PeerState, 0 < ps.nextIndex →
      LogKept n { n with peerStates := update n.peerStates peer ps } := by
    intro ps hps
    refine ⟨rfl, fun hleader => ⟨hleader, rfl⟩, fun hn p => ?_⟩
    rcases eq_or_ne p peer with rfl | hne
    · simpa using hps
    · simpa [hne] using hn p
  unfold Node.handleAppendReply
  dsimp only
  split_ifs with _ _ hback
  · exact becomeFollower n reply.term
  · exact (hmoved _ (Nat.succ_pos _)).trans (tryAdvanceCommit _ _)
  · exact hmoved _ (by simpa using Nat.sub_pos_of_lt hback)
  · exact refl n

end LogKept

/-- Nothing of the replication changes: the log and what is committed of it, and what the node knows
of its peers. -/
structure Steady (n n' : Node) : Prop extends LogKept n n' where
  nodeId : n'.nodeId = n.nodeId
  term : n.ps.currentTerm ≤ n'.ps.currentTerm
  committed : n'.committedIndex = n.committedIndex
  peerStates : n'.peerStates = n.peerStates

namespace Steady

variable {n n' : Node}

theorem of_same (hid : n'.nodeId = n.nodeId) (hlog : n'.log = n.log)
    (hcommitted : n'.committedIndex = n.committedIndex) (hnext : n'.peerStates = n.peerStates)
    (hrole : n'.role = n.role) (hterm : n'.ps.currentTerm = n.ps.currentTerm) : Steady n n' where
  toLogKept := .of_same hlog hrole hterm hnext
  nodeId := hid
  term := hterm.ge
  committed := hcommitted
  peerStates := hnext

theorem of_follower (hid : n'.nodeId = n.nodeId) (hlog : n'.log = n.log)
    (hcommitted : n'.committedIndex = n.committedIndex) (hnext : n'.peerStates = n.peerStates)
    (hrole : n'.role ≠ .leader) (hterm : n.ps.currentTerm ≤ n'.ps.currentTerm) : Steady n n' where
  toLogKept := .of_follower hlog hrole hnext
  nodeId := hid
  term := hterm
  committed := hcommitted
  peerStates := hnext

theorem becomeFollower {term : Nat} (h : n.ps.currentTerm ≤ term) :
    Steady n (n.becomeFollower term) :=
  .of_follower rfl rfl rfl rfl (by simp [Node.becomeFollower]) h

theorem startElection (n : Node) : Steady n n.startElection :=
  .of_follower rfl rfl rfl rfl (by simp [Node.startElection]) (Nat.le_succ _)

theorem handleRequestVote (n : Node) (args : RequestVoteArgs) :
    Steady n (n.handleRequestVote args).1 := by
  rcases n.handleRequestVote_cases args with ⟨n₁, hraised, hcases⟩
  have hn₁ : Steady n n₁ := by
    rcases hraised with rfl | ⟨hlt, rfl⟩
    · exact .of_same rfl rfl rfl rfl rfl rfl
    · exact becomeFollower hlt.le
  rcases hcases with ⟨hnode, _⟩ | ⟨_, _, _, hnode⟩
  · rw [hnode]
    exact hn₁
  · rw [hnode]
    exact { hn₁ with }

theorem collectVote (n : Node) (e : Election) (peer : Bytes) (reply : Option RequestVoteReply) :
    Steady n (n.collectVote e peer reply) := by
  cases reply with
  | none => exact .of_same rfl rfl rfl rfl rfl rfl
  | some r =>
      unfold Node.collectVote
      dsimp only
      split_ifs with hhigh
      · exact .of_follower rfl rfl rfl rfl (by simp [Node.becomeFollower]) hhigh.le
      · exact .of_same rfl rfl rfl rfl rfl rfl
      · exact .of_same rfl rfl rfl rfl rfl rfl

theorem loseElection (n : Node) :
    Steady n { n.becomeFollower n.ps.currentTerm with election := none } :=
  .of_follower rfl rfl rfl rfl (by simp [Node.becomeFollower]) le_rfl

theorem applyEntry (n : Node) (idx committed : Nat) (found : Option LogEntry) :
    Steady n (n.applyEntry idx committed found) := by
  cases found with
  | none => exact .of_same rfl rfl rfl rfl rfl rfl
  | some _ => exact .of_same rfl rfl rfl rfl rfl rfl

end Steady

/-! ## The invariant -/

/-- `L` gives the log of the leader of each term, as long as it led.  A node's log is made of these,
and is the present one while the node leads. -/
structure NodeLogs (elected : List (Nat × Bytes)) (L : Nat → List (Entry Bytes)) (id : Bytes)
    (n : Node) : Prop where
  indexed : n.log.Indexed
  next : ∀ peer, 0 < (n.peerStates peer).nextIndex
  log : Matches L n.log.view
  leads : n.role = .leader →
    (n.ps.currentTerm, id) ∈ elected ∧ L n.ps.currentTerm = n.log.view

/-- A request whose entries had its term is a part of the log of the term's leader. -/
structure LogsInv (s : Cluster) (L : Nat → List (Entry Bytes)) : Prop where
  nodes : ∀ id, NodeLogs s.elected L id (s.nodes id)
  leaderLog : ∀ T, Matches L (L T)
  unled : ∀ T, (∀ id, (T, id) ∉ s.elected) → L T = []
  commands : ∀ msg ∈ s.appendRequests, msg.args.entries = msg.sources.map LogEntry.command
  sent : ∀ msg ∈ s.appendRequests, msg.sources ≠ [] →
    (∀ e ∈ msg.sources, e.term = msg.args.term) →
    Segment msg.args.term (L msg.args.term) msg.args.prevLogIndex msg.args.entries ∧
      Replication.termAt (L msg.args.term) msg.args.prevLogIndex = msg.args.prevLogTerm

section Steps

variable {m : Members} {s : Cluster} {elected : List (Nat × Bytes)}
  {L L' : Nat → List (Entry Bytes)} {id : Bytes} {n n' : Node}

theorem logsInv_init (m : Members) : LogsInv (Cluster.init m) fun _ => [] := by
  refine ⟨fun id => ?_, ?_, ?_, ?_, ?_⟩
  · constructor <;> simp [Cluster.init, RaftLog.indexed_empty, RaftLog.view, Matches]
  all_goals simp [Cluster.init, Matches]

theorem NodeLogs.kept (h : NodeLogs elected L id n) (hn : LogKept n n') :
    NodeLogs elected L id n' where
  indexed := hn.log ▸ h.indexed
  next := hn.next h.next
  log := hn.log ▸ h.log
  leads := by
    intro hleader
    rcases hn.leads hleader with ⟨hrole, hterm⟩
    rw [hterm, hn.log]
    exact h.leads hrole

/-- One node moves on. -/
theorem LogsInv.setNode (h : LogsInv s L) (hn : NodeLogs s.elected L id n') :
    LogsInv (s.setNode id n') L :=
  { h with
    nodes := by
      intro x
      rcases eq_or_ne x id with rfl | hne
      · rwa [setNode_self]
      · rw [setNode_ne hne]
        exact h.nodes x }

theorem LogsInv.kept (h : LogsInv s L) (hn : LogKept (s.nodes id) n') :
    LogsInv (s.setNode id n') L :=
  h.setNode ((h.nodes id).kept hn)

/-- What was sent stays a part of the leaders' logs when these grow. -/
theorem LogsInv.sent_mono (h : LogsInv s L) (hL : ∀ T, L T <+: L' T) {msg : AppendMessage}
    (hmsg : msg ∈ s.appendRequests) (hne : msg.sources ≠ [])
    (hterms : ∀ e ∈ msg.sources, e.term = msg.args.term) :
    Segment msg.args.term (L' msg.args.term) msg.args.prevLogIndex msg.args.entries ∧
      Replication.termAt (L' msg.args.term) msg.args.prevLogIndex = msg.args.prevLogTerm := by
  rcases h.sent msg hmsg hne hterms with ⟨hsegment, hprev⟩
  have hle : msg.args.prevLogIndex ≤ (L msg.args.term).length :=
    (Nat.le_add_right _ _).trans hsegment.bound
  refine ⟨hsegment.mono (hL _), ?_⟩
  rw [← hprev]
  exact Replication.termAt_of_take_eq (Replication.take_of_prefix (hL _) hle) le_rfl

/-! ## What each action does -/

theorem prefix_update {T : Nat} {l : List (Entry Bytes)} (hgrows : L T <+: l) (U : Nat) :
    L U <+: update L T l U := by
  rcases eq_or_ne U T with rfl | hne
  · simpa using hgrows
  · simp [hne]

/-- One node moves on, and the log of a term grows that only this node leads. -/
theorem LogsInv.grow (h : LogsInv s L) {T : Nat} {l : List (Entry Bytes)}
    {elected' : List (Nat × Bytes)} (hgrows : L T <+: l) (hl : Matches (update L T l) l)
    (hkept : s.elected ⊆ elected') (hwon : (T, id) ∈ elected')
    (hother : ∀ x, x ≠ id → (T, x) ∉ s.elected) (hn : NodeLogs elected' (update L T l) id n') :
    LogsInv { s.setNode id n' with elected := elected' } (update L T l) := by
  -- requests and other nodes refer to parts of the logs that stay
  have hmono : ∀ U, L U <+: update L T l U := prefix_update hgrows
  refine ⟨fun x => ?_, fun U => ?_, fun U hU => ?_, h.commands,
    fun msg hmsg => h.sent_mono hmono hmsg⟩
  · rcases eq_or_ne x id with rfl | hne
    · simpa only [setNode_self] using hn
    · simp only [setNode_ne hne]
      have hx := h.nodes x
      refine ⟨hx.indexed, hx.next, hx.log.mono hmono, fun hleader => ?_⟩
      rcases hx.leads hleader with ⟨hled, hlog⟩
      -- other leaders are those of other terms
      have hterm : (s.nodes x).ps.currentTerm ≠ T := by
        rintro rfl
        exact hother x hne hled
      exact ⟨hkept hled, by simpa [hterm] using hlog⟩
  · rcases eq_or_ne U T with rfl | hne
    · simpa using hl
    · simpa [hne] using (h.leaderLog U).mono hmono
  · have hne : U ≠ T := by
      rintro rfl
      exact hU id hwon
    simpa [hne] using h.unled U fun x hx => hU x (hkept hx)

/-- A new leader's log becomes that of its term, which had none. -/
theorem LogsInv.win (h : LogsInv s L) (hunwon : ∀ x, ((s.nodes id).ps.currentTerm, x) ∉ s.elected)
    (hlog : n'.log = (s.nodes id).log) (hterm : n'.ps.currentTerm = (s.nodes id).ps.currentTerm)
    (hnext : ∀ peer, 0 < (n'.peerStates peer).nextIndex) :
    LogsInv { s.setNode id n' with
        elected := s.elected ++ [((s.nodes id).ps.currentTerm, id)] }
      (update L (s.nodes id).ps.currentTerm (s.nodes id).log.view) := by
  have hn := h.nodes id
  -- nobody led the term, so its log was empty
  have hgrows : L (s.nodes id).ps.currentTerm <+: (s.nodes id).log.view := by
    simp [h.unled _ hunwon]
  have hmatches : Matches (update L (s.nodes id).ps.currentTerm (s.nodes id).log.view)
      (s.nodes id).log.view := hn.log.mono (prefix_update hgrows)
  apply h.grow hgrows hmatches (List.subset_append_left _ _) (by simp) fun x _ => hunwon x
  exact
    { indexed := hlog ▸ hn.indexed
      next := hnext
      log := hlog ▸ hmatches
      leads := fun _ => by simp [hlog, hterm] }

/-- A leader appends to its log, and that is the log of its term. -/
theorem LogsInv.proposeAppend (h : LogsInv s L) (hone : s.OneLeader)
    (hrole : (s.nodes id).role = .leader) (command : Bytes) :
    LogsInv (s.setNode id ((s.nodes id).proposeAppend command))
      (update L (s.nodes id).ps.currentTerm
        ((s.nodes id).log.view ++ [⟨(s.nodes id).ps.currentTerm, command⟩])) := by
  have hn := h.nodes id
  rcases hn.leads hrole with ⟨hwon, hled⟩
  have hgrows : L (s.nodes id).ps.currentTerm <+:
      (s.nodes id).log.view ++ [⟨(s.nodes id).ps.currentTerm, command⟩] := by
    simp [hled]
  have hmatches : Matches (update L (s.nodes id).ps.currentTerm
      ((s.nodes id).log.view ++ [⟨(s.nodes id).ps.currentTerm, command⟩]))
      ((s.nodes id).log.view ++ [⟨(s.nodes id).ps.currentTerm, command⟩]) :=
    (hn.log.mono (prefix_update hgrows)).concat (by simp)
  -- the entry gets the next index and the term of the log it is the last of
  have happended : ((s.nodes id).proposeAppend command).log =
      ⟨(s.nodes id).log.entries ++
        [⟨(s.nodes id).log.entries.length + 1, (s.nodes id).ps.currentTerm, command⟩]⟩ := by
    simp [Node.proposeAppend, hn.indexed.append_eq]
  have hview : ((s.nodes id).proposeAppend command).log.view =
      (s.nodes id).log.view ++ [⟨(s.nodes id).ps.currentTerm, command⟩] := by
    simp [happended, RaftLog.view]
  apply h.grow hgrows hmatches (List.Subset.refl _) hwon
    fun x hne hx => hne (hone _ x id hx hwon)
  exact
    { indexed := by
        rw [happended]
        exact hn.indexed.concat _ _
      next := hn.next
      log := by
        rw [hview]
        exact hmatches
      leads := by
        intro _
        have hterm : ((s.nodes id).proposeAppend command).ps.currentTerm =
            (s.nodes id).ps.currentTerm := rfl
        rw [hterm, hview, Function.update_self]
        exact ⟨hwon, rfl⟩ }

/-- What is sent after an index, if it is all of the sender's term, is a part of the log of the
term's leader. -/
theorem LogsInv.sendAppend (h : LogsInv s L) (peer : Bytes) (replicating : List Bytes)
    (led : Bool) :
    LogsInv { s.setNode id { s.nodes id with replicating } with
      appendRequests := s.appendRequests ++
        [{ peer
           args := ((s.nodes id).replicateArgs peer).1
           sources := ((s.nodes id).replicateArgs peer).2
           led }] } L := by
  have hn := h.nodes id
  have hset : LogsInv (s.setNode id { s.nodes id with replicating }) L :=
    h.kept (LogKept.of_same rfl rfl rfl rfl)
  refine { hset with commands := ?_, sent := ?_ }
  · intro msg hmsg
    rcases List.mem_append.1 hmsg with hold | hnew
    · exact hset.commands msg hold
    · rw [List.mem_singleton.1 hnew]
      rfl
  · intro msg hmsg
    rcases List.mem_append.1 hmsg with hold | hnew
    · exact hset.sent msg hold
    · rw [List.mem_singleton.1 hnew]
      intro hne hterms
      rcases Node.replicateArgs_spec hn.indexed (hn.next peer) with ⟨hview, hcommands⟩
      have hprev := hn.indexed.termAt_eq (((s.nodes id).peerStates peer).nextIndex - 1)
      -- entries of one term at the end of a log come from the log of its leader
      have hsegment := hn.log.segment (T := (s.nodes id).ps.currentTerm)
        (i := ((s.nodes id).peerStates peer).nextIndex - 1) (by simpa [hview] using hne) (by
          intro e he
          rw [hview] at he
          rcases List.mem_map.1 he with ⟨source, hsource, rfl⟩
          exact hterms source hsource)
      refine ⟨?_, hsegment.2.trans hprev.symm⟩
      dsimp only
      rw [hcommands]
      exact hsegment.1

/-- A node that takes a request has the log of the request's term up to its end, if it takes anything
at all. -/
theorem NodeLogs.followLeader (h : NodeLogs s.elected L id n) (hs : LogsInv s L)
    {msg : AppendMessage} (hmsg : msg ∈ s.appendRequests)
    (hterms : msg.args.prevLogIndex ≤ n.log.view.length →
      (0 < msg.args.prevLogIndex →
        Replication.termAt n.log.view msg.args.prevLogIndex = msg.args.prevLogTerm) →
      ∀ e ∈ msg.sources, e.term = msg.args.term)
    (replyTerm : Nat) :
    NodeLogs s.elected L id (n.followLeader replyTerm msg.args).1 := by
  rcases Node.followLeader_cases h.indexed replyTerm msg.args with
    ⟨_, hnode, _⟩ | ⟨_, _, _, hnode, _⟩ | ⟨hle, hprev, log, hindexed, hview, hnode, _⟩
  · rw [hnode]
    exact h.kept (LogKept.of_follower rfl (by simp) rfl)
  · rw [hnode]
    exact
      { indexed := h.indexed.take _
        next := h.next
        log := by
          have htake := h.log.take (msg.args.prevLogIndex - 1)
          simpa [RaftLog.view, List.map_take] using htake
        leads := fun hleader => by cases hleader }
  · have hmatches : Matches L log.view := by
      rw [hview]
      rcases eq_or_ne msg.sources [] with hnil | hne
      · -- a heartbeat leaves the log alone
        have hempty : msg.args.entries = [] := by rw [hs.commands msg hmsg, hnil, List.map_nil]
        rw [hempty]
        exact h.log
      · rcases hs.sent msg hmsg hne (hterms hle hprev) with ⟨hsegment, hsent⟩
        have hbound : msg.args.prevLogIndex ≤ (L msg.args.term).length :=
          (Nat.le_add_right _ _).trans hsegment.bound
        -- the terms before the entries agree, and so do the logs up to there
        have hsame : Replication.termAt n.log.view msg.args.prevLogIndex =
            Replication.termAt (L msg.args.term) msg.args.prevLogIndex := by
          rcases Nat.eq_zero_or_pos msg.args.prevLogIndex with hzero | hpos
          · rw [hzero]
            rfl
          · exact (hprev hpos).trans hsent.symm
        have htake := h.log.take_eq (hs.leaderLog msg.args.term) hle hbound hsame
        exact h.log.splice (hs.leaderLog msg.args.term) hsegment htake
    rw [hnode]
    refine NodeLogs.kept ?_ (LogKept.tryAdvanceCommit _ _)
    exact
      { indexed := hindexed
        next := h.next
        log := hmatches
        leads := fun hleader => by cases hleader }

theorem LogsInv.deliverAppend (h : LogsInv s L) {msg : AppendMessage}
    (hmsg : msg ∈ s.appendRequests)
    (hterms : (s.nodes msg.peer).Accepts msg.args → ∀ e ∈ msg.sources, e.term = msg.args.term) :
    LogsInv (s.setNode msg.peer ((s.nodes msg.peer).handleAppendEntries msg.args).1) L := by
  have hn := h.nodes msg.peer
  -- acceptance is decided by the log alone once the term is not below the node's
  have haccepts : (s.nodes msg.peer).ps.currentTerm ≤ msg.args.term →
      msg.args.prevLogIndex ≤ (s.nodes msg.peer).log.view.length →
      (0 < msg.args.prevLogIndex →
        Replication.termAt (s.nodes msg.peer).log.view msg.args.prevLogIndex =
          msg.args.prevLogTerm) →
      ∀ e ∈ msg.sources, e.term = msg.args.term := by
    intro hterm hle hprev
    apply hterms
    rw [Node.Accepts, Node.Considers, hn.indexed.lastIndex_eq, hn.indexed.termAt_eq]
    exact ⟨⟨hterm, hle⟩, hprev⟩
  apply h.setNode
  unfold Node.handleAppendEntries
  split_ifs with hlow hhigh
  · exact hn
  · exact (hn.kept (LogKept.becomeFollower _ _)).followLeader h hmsg (haccepts hhigh.le) _
  · exact hn.followLeader h hmsg (haccepts (Nat.le_of_not_lt hlow)) _

/-- Every action that keeps terms keeps the invariant, of leaders' logs that it may add to. -/
theorem LogsInv.step (h : LogsInv s L) (hvotes : VoteInv m s) {a : Action} {s' : Cluster}
    (hkeeps : s.KeepsTerms m a) (hstep : s.step m a = some s') :
    ∃ L', LogsInv s' L' ∧ ∀ T, L T <+: L' T := by
  have hsame : ∀ {s'}, LogsInv s' L → ∃ L', LogsInv s' L' ∧ ∀ T, L T <+: L' T :=
    fun hs' => ⟨L, hs', fun _ => List.prefix_rfl⟩
  have hkept : ∀ {id n'}, LogKept (s.nodes id) n' →
      ∃ L', LogsInv (s.setNode id n') L' ∧ ∀ T, L T <+: L' T :=
    fun hn => hsame (h.kept hn)
  cases Cluster.transition_of_step hstep with
  | @startElection id _ _ _ =>
      have hset := h.kept (Steady.startElection (s.nodes id)).toLogKept
      exact hsame { hset with }
  | @deliverVote k id args _ =>
      have hset := h.kept (Steady.handleRequestVote (s.nodes id) args).toLogKept
      exact hsame { hset with }
  | collectVote _ _ _ _ => exact hkept (Steady.collectVote _ _ _ _).toLogKept
  | loseVote _ => exact hkept (Steady.collectVote _ _ _ _).toLogKept
  | endElection _ _ => exact hkept (LogKept.of_same rfl rfl rfl rfl)
  -- a quorum has voted, so nobody had won the term before, and its log was empty
  | winElection he hrole hquorum =>
      have hunwon := hvotes.unwon hrole he hquorum
      refine ⟨_, h.win hunwon rfl rfl fun _ => Nat.succ_pos _, prefix_update ?_⟩
      simp [h.unled _ hunwon]
  | loseElection _ _ => exact hkept (Steady.loseElection _).toLogKept
  | propose _ => exact hkept (LogKept.of_same rfl rfl rfl rfl)
  | @proposeAppend id command _ =>
      refine ⟨_, h.proposeAppend hvotes.oneLeader hkeeps command, prefix_update ?_⟩
      simp [((h.nodes id).leads hkeeps).2]
  | proposeEnd _ => exact hkept (LogKept.of_same rfl rfl rfl rfl)
  | replicate _ _ => exact hkept (LogKept.of_same rfl rfl rfl rfl)
  | @sendAppend id peer _ => exact hsame (h.sendAppend peer _ _)
  | @deliverAppend k msg hget =>
      simp only [Cluster.KeepsTerms, hget] at hkeeps
      have hset := h.deliverAppend (List.mem_of_getElem? hget) hkeeps
      exact hsame { hset with }
  | deliverAppendReply _ => exact hkept (LogKept.handleAppendReply _ _ _ _)
  | readCommitted _ => exact hkept (LogKept.of_same rfl rfl rfl rfl)
  | @applyNext id idx committed _ _ => exact hkept (Steady.applyEntry _ _ _ _).toLogKept
  | @applyMiss id idx committed _ _ => exact hkept (Steady.applyEntry _ _ _ _).toLogKept
  -- a restarted node keeps its log and does not lead
  | @restart id _ =>
      refine hsame (h.setNode ?_)
      exact
        { indexed := (h.nodes id).indexed
          next := fun _ => Nat.succ_pos _
          log := (h.nodes id).log
          leads := fun hleader => by cases hleader }

/-- Logs made of leaders' logs match. -/
theorem LogsInv.logMatching (h : LogsInv s L) : s.LogMatching := by
  intro a b e he e' he' hindex hterm j hj hle
  have ha := h.nodes a
  have hb := h.nodes b
  rcases ha.indexed.getElem?_of_mem he with ⟨hpos, hget⟩
  rcases hb.indexed.getElem?_of_mem he' with ⟨hpos', hget'⟩
  -- the terms of the views are those of the entries
  have hat : ∀ {x : Bytes} {entry : LogEntry},
      (s.nodes x).log.entries[entry.index - 1]? = some entry → 0 < entry.index →
        entry.index ≤ (s.nodes x).log.view.length ∧
          Replication.termAt (s.nodes x).log.view entry.index = entry.term := by
    intro x entry hentry hplace
    have hlt := (List.getElem?_eq_some_iff.1 hentry).1
    refine ⟨by rw [RaftLog.length_view]; omega, ?_⟩
    rw [← Nat.sub_add_cancel hplace, Replication.termAt, RaftLog.getElem?_view, hentry]
    rfl
  rcases hat hget hpos with ⟨hin, hterm_a⟩
  rcases hat hget' hpos' with ⟨hin', hterm_b⟩
  -- both logs are the leader's up to the entry
  have htake : (s.nodes a).log.view.take e.index = (s.nodes b).log.view.take e.index := by
    apply ha.log.take_eq hb.log hin (hindex ▸ hin')
    rw [hterm_a, hindex, hterm_b, hterm]
  cases j with
  | zero => omega
  | succ k =>
      have hsame : (s.nodes a).log.entries[k]? = (s.nodes b).log.entries[k]? :=
        ha.indexed.getElem?_congr hb.indexed (Replication.getElem?_of_take_eq htake hle)
      rw [RaftLog.length_view] at hin
      have hentry : (s.nodes a).log.entries[k]? = some (s.nodes a).log.entries[k] :=
        List.getElem?_eq_getElem (Nat.lt_of_lt_of_le hle hin)
      refine ⟨(s.nodes a).log.entries[k], ?_, ?_⟩
      · rw [ha.indexed.get_succ, hentry]
      · rw [hb.indexed.get_succ, ← hsame, hentry]

end Steps

/-! ## Every run -/

section Runs

variable {m : Members} {s : Cluster}

theorem restartable_of_keepsTerms {a : Action} (h : s.KeepsTerms m a) : Restartable m s a := by
  by_cases hrestart : ∃ id, a = .restart id
  · rcases hrestart with ⟨id, rfl⟩
    exact .inl h
  · exact .inr fun id ha => hrestart ⟨id, ha⟩

/-- In every run in which no entry gets a term that is not its own, logs match. -/
theorem logMatching_of_keepsTerms (hnamed : ∀ id ∈ m.ids, id ≠ [])
    (h : Reach (Cluster.step m) (Cluster.KeepsTerms m) (Cluster.init m) s) : s.LogMatching := by
  have hlogs : ∃ L, LogsInv s L := by
    refine Reach.invariant (P := fun s => ∃ L, LogsInv s L) ⟨_, logsInv_init m⟩ ?_ h
    rintro s s' a hs ⟨L, hL⟩ hkeeps hstep
    have hvotes := votes_of_reach hnamed (hs.mono restartable_of_keepsTerms)
    rcases hL.step hvotes.1 hkeeps hstep with ⟨L', hL', _⟩
    exact ⟨L', hL'⟩
  rcases hlogs with ⟨L, hL⟩
  exact hL.logMatching

end Runs

/-! ### Two runs -/

namespace LogMatchingExample

open Trio SafetyExample

/-- Two leaders, one after the other, each of which commits a command. -/
def kept : Option Cluster :=
  run (Cluster.step trio) (Cluster.KeepsTerms trio) (Cluster.init trio) steady

theorem kept_isSome : kept.isSome = true := by
  decide +kernel

/-- `a` leads term 1 and proposes `x`, hears of term 2 from `b`, and leads term 3.  It sends `x` to
`b`, which writes it under term 3, and then `y`, which has that term at both. -/
def rewritten : List Action :=
  elect a c 0 0 ++ [.propose a (bytes "x"), .proposeAppend a (bytes "x")] ++
    [.startElection b, .deliverVote 2, .loseVote b a, .loseVote b c, .decideElection b] ++
    elect a c 4 2 ++
    [.replicate a b, .sendAppend a b, .deliverAppend 0, .deliverAppendReply 0,
      .propose a (bytes "y"), .proposeAppend a (bytes "y"), .replicate a b, .sendAppend a b,
      .deliverAppend 1]

def rewrittenOutcome : Option Cluster :=
  run (Cluster.step trio) (fun _ _ => True) (Cluster.init trio) rewritten

theorem rewrittenOutcome_isSome : rewrittenOutcome.isSome = true := by
  decide +kernel

end LogMatchingExample

open LogMatchingExample SafetyExample Trio in
theorem logMatching_of_keepsTerms_steady : (kept.get kept_isSome).LogMatching :=
  logMatching_of_keepsTerms (by decide) (reach_of_run (Option.some_get kept_isSome).symm)

open LogMatchingExample Trio in
/-- Under one index and term, two logs can have different entries before it. -/
theorem logMatching_fails_rewritten :
    ∃ s, Reach (Cluster.step trio) (fun _ _ => True) (Cluster.init trio) s ∧ ¬ s.LogMatching := by
  refine ⟨_, reach_of_run (Option.some_get rewrittenOutcome_isSome).symm, fun hmatching => ?_⟩
  have ha : ((rewrittenOutcome.get rewrittenOutcome_isSome).nodes a).log =
      ⟨[⟨1, 1, bytes "x"⟩, ⟨2, 3, bytes "y"⟩]⟩ := by
    decide +kernel
  have hb : ((rewrittenOutcome.get rewrittenOutcome_isSome).nodes b).log =
      ⟨[⟨1, 3, bytes "x"⟩, ⟨2, 3, bytes "y"⟩]⟩ := by
    decide +kernel
  have hy : ∀ {x log}, ((rewrittenOutcome.get rewrittenOutcome_isSome).nodes x).log = log →
      (⟨2, 3, bytes "y"⟩ : LogEntry) ∈ log.entries →
        ⟨2, 3, bytes "y"⟩ ∈ ((rewrittenOutcome.get rewrittenOutcome_isSome).nodes x).log.entries :=
    fun hlog hmem => hlog ▸ hmem
  rcases hmatching a b _ (hy ha (by simp)) _ (hy hb (by simp)) rfl rfl 1 Nat.one_pos
    (Nat.le_succ 1) with ⟨entry, hentry, hentry'⟩
  rw [ha] at hentry
  rw [hb] at hentry'
  have hget : ∀ term, RaftLog.get ⟨[⟨1, term, bytes "x"⟩, ⟨2, 3, bytes "y"⟩]⟩ 1 =
      some ⟨1, term, bytes "x"⟩ := fun term => rfl
  have hsame := (hget 1).symm.trans (hentry.trans (hentry'.symm.trans (hget 3)))
  simp at hsame

end Raft
end ControlDB
