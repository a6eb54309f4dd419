import ControlDB.Library.ReplicationSafety
import ControlDB.Raft.Election
import ControlDB.Raft.Follow

/-!
# The cluster as a replicated log

How a cluster stands to a state of the abstract protocol, and how the parts of the handlers follow
it.  A request counts as one of the protocol only if its sender led when it built it and
sent entries of its own term; the wire format has no other terms.
-/

namespace ControlDB
namespace Raft

open Library
open Function (update)

/-- States of the abstract protocol over node ids and commands. -/
abbrev Protocol := Replication.State Bytes Bytes

/-! ## The relation -/

/-- The request that a message stands for. -/
def AppendMessage.request (msg : AppendMessage) : Replication.Request Bytes where
  term := msg.args.term
  prev := msg.args.prevLogIndex
  prevTerm := msg.args.prevLogTerm
  entries := msg.args.entries
  commit := msg.args.leaderCommit

/-- Built by a leader, from entries of its own term. -/
def AppendMessage.Clean (msg : AppendMessage) : Prop :=
  msg.led = true ∧ ∀ e ∈ msg.sources, e.term = msg.args.term

structure NodeSim (m : Members) (t : Protocol) (id : Bytes) (n : Node) : Prop where
  indexed : n.log.Indexed
  term : t.term id = n.ps.currentTerm
  log : t.log id = n.log.view
  leading : n.role = .leader → t.leading id
  member : n.role ≠ .follower → id ∈ m.ids ∧ 0 < n.ps.currentTerm
  bid : n.role = .candidate → t.bid id n.ps.currentTerm = some n.log.view
  next : n.role = .leader → ∀ peer, 0 < (n.peerStates peer).nextIndex ∧
    (n.peerStates peer).nextIndex ≤ n.log.view.length + 1
  matched : n.role = .leader → ∀ peer, (n.peerStates peer).matchIndex = 0 ∨
    t.acked peer n.ps.currentTerm (n.peerStates peer).matchIndex
  committed : t.Knows id n.committedIndex
  applying : ∀ idx c, n.applying = some (idx, c) → 0 < idx ∧ t.Knows id c
  applied : ∀ i c, (i, c) ∈ n.applied → t.applied id i c

structure NetSim (s : Cluster) (t : Protocol) : Prop where
  leader : ∀ T id, t.leader T = some id → (T, id) ∈ s.elected
  request : ∀ peer args, (peer, args) ∈ s.voteRequests →
    ∃ l, t.bid args.candidateId args.term = some l ∧ args.lastLogIndex = l.length ∧
      args.lastLogTerm = Replication.lastTerm l
  ballot : ∀ msg, s.Granted msg → t.ballot msg.voter msg.args.candidateId msg.args.term
  sent : ∀ msg ∈ s.appendRequests, (msg.Clean → t.sent msg.request) ∧
    t.Knows msg.args.leaderId msg.args.leaderCommit
  acked : ∀ msg reply, (msg, reply) ∈ s.appendReplies → msg ∈ s.appendRequests ∧
    (reply.success = true →
      t.acked msg.peer msg.args.term (msg.args.prevLogIndex + msg.args.entries.length))

structure Sim (m : Members) (s : Cluster) (t : Protocol) : Prop where
  nodes : ∀ id, NodeSim m t id (s.nodes id)
  net : NetSim s t

/-! ## Steps of one node -/

/-- Steps of the protocol taken by one node: the others stay as they are, and what has happened
stays. -/
structure Ahead (m : Members) (id : Bytes) (t t' : Protocol) : Prop where
  steps : Relation.ReflTransGen (Replication.Step m.nodes) t t'
  term : ∀ x, x ≠ id → t'.term x = t.term x := by intros; rfl
  log : ∀ x, x ≠ id → t'.log x = t.log x := by intros; rfl
  leading : ∀ x, x ≠ id → t.leading x → t'.leading x := by intro _ _ h; exact h
  bid : ∀ c T l, t.bid c T = some l → t'.bid c T = some l := by intro _ _ _ h; exact h
  ballot : ∀ v c T, t.ballot v c T → t'.ballot v c T := by intro _ _ _ h; exact h
  sent : ∀ r, t.sent r → t'.sent r := by intro _ h; exact h
  acked : ∀ v T N, t.acked v T N → t'.acked v T N := by intro _ _ _ h; exact h
  learned : ∀ v k, t.learned v k → t'.learned v k := by intro _ _ h; exact h
  applied : ∀ v i c, t.applied v i c → t'.applied v i c := by intro _ _ _ h; exact h

/-- None of the steps is an election won. -/
structure Later (m : Members) (id : Bytes) (t t' : Protocol) : Prop extends Ahead m id t t' where
  leader : t'.leader = t.leader := by intros; rfl

theorem Ahead.knows {m : Members} {id : Bytes} {t t' : Protocol} (h : Ahead m id t t') {x : Bytes}
    {k : Nat} (hk : t.Knows x k) : t'.Knows x k := by
  rcases hk with hzero | ⟨k', hle, hk'⟩
  · exact .inl hzero
  · exact .inr ⟨k', hle, h.learned x k' hk'⟩

namespace Later

variable {m : Members} {id : Bytes} {t t' t'' : Protocol}

theorem refl (id : Bytes) (t : Protocol) : Later m id t t where
  steps := .refl

theorem trans (h : Later m id t t') (h' : Later m id t' t'') : Later m id t t'' where
  steps := h.steps.trans h'.steps
  leader := h'.leader.trans h.leader
  term := fun x hx => (h'.term x hx).trans (h.term x hx)
  log := fun x hx => (h'.log x hx).trans (h.log x hx)
  leading := fun x hx hlead => h'.leading x hx (h.leading x hx hlead)
  bid := fun c T l hl => h'.bid c T l (h.bid c T l hl)
  ballot := fun v c T hv => h'.ballot v c T (h.ballot v c T hv)
  sent := fun r hr => h'.sent r (h.sent r hr)
  acked := fun v T N ha => h'.acked v T N (h.acked v T N ha)
  learned := fun v k hk => h'.learned v k (h.learned v k hk)
  applied := fun v i c ha => h'.applied v i c (h.applied v i c ha)

theorem reached (h : Later m id t t') (ht : Replication.Reached m.nodes t) :
    Replication.Reached m.nodes t' :=
  ht.trans h.steps

theorem raise {T : Nat} (hlt : t.term id < T) :
    Later m id t { t with term := update t.term id T, leading := update t.leading id False } where
  steps := .single (.raise id T hlt)
  term := fun x hx => by simp [hx]
  leading := fun x hx hlead => by simpa [hx] using hlead

theorem yield (id : Bytes) (t : Protocol) :
    Later m id t { t with leading := update t.leading id False } where
  steps := .single (.yield id)
  leading := fun x hx hlead => by simpa [hx] using hlead

/-- A bid is for a term in which the node has made none. -/
theorem stand (ht : Replication.Reached m.nodes t) (id : Bytes) :
    Later m id t { t with
      term := update t.term id (t.term id + 1)
      leading := update t.leading id False
      bid := update t.bid id (update (t.bid id) (t.term id + 1) (some (t.log id))) } where
  steps := .single (.stand id)
  term := fun x hx => by simp [hx]
  leading := fun x hx hlead => by simpa [hx] using hlead
  bid := by
    intro c T l hl
    rcases eq_or_ne c id with rfl | hc
    · have hT : T ≠ t.term c + 1 := by
        rintro rfl
        have hle := ht.inv.logs.bid_le c (t.term c + 1) (by simp [hl])
        omega
      simpa [hT] using hl
    · simpa [hc] using hl

end Later

section Sim

variable {m : Members} {s : Cluster} {t t' : Protocol} {id : Bytes} {n n' : Node}

theorem NodeSim.other (h : NodeSim m t id n) {x : Bytes} (hl : Ahead m x t t') (hne : id ≠ x) :
    NodeSim m t' id n where
  indexed := h.indexed
  term := (hl.term id hne).trans h.term
  log := (hl.log id hne).trans h.log
  leading := fun hrole => hl.leading id hne (h.leading hrole)
  member := h.member
  bid := fun hrole => hl.bid _ _ _ (h.bid hrole)
  next := h.next
  matched := fun hrole peer => (h.matched hrole peer).imp_right (hl.acked _ _ _)
  committed := hl.knows h.committed
  applying := fun idx c ha => ⟨(h.applying idx c ha).1, hl.knows (h.applying idx c ha).2⟩
  applied := fun i c ha => hl.applied _ _ _ (h.applied i c ha)

theorem NetSim.ahead (h : NetSim s t) (hl : Ahead m id t t')
    (hleader : ∀ T x, t'.leader T = some x → (T, x) ∈ s.elected) : NetSim s t' where
  leader := hleader
  request := by
    intro peer args hrequest
    rcases h.request peer args hrequest with ⟨l, hbid, hrest⟩
    exact ⟨l, hl.bid _ _ _ hbid, hrest⟩
  ballot := fun msg hmsg => hl.ballot _ _ _ (h.ballot msg hmsg)
  sent := fun msg hmsg => ⟨fun hclean => hl.sent _ ((h.sent msg hmsg).1 hclean),
    hl.knows (h.sent msg hmsg).2⟩
  acked := fun msg reply hmsg => ⟨(h.acked msg reply hmsg).1, fun hsuccess =>
    hl.acked _ _ _ ((h.acked msg reply hmsg).2 hsuccess)⟩

theorem NetSim.later (h : NetSim s t) (hl : Later m id t t') : NetSim s t' :=
  h.ahead hl.toAhead fun T x hx => h.leader T x (by rwa [hl.leader] at hx)

/-- One node moves on, and the protocol with it. -/
theorem Sim.setNode (h : Sim m s t) (hl : Later m id t t') (hn : NodeSim m t' id n') :
    Sim m (s.setNode id n') t' where
  nodes := by
    intro x
    rcases eq_or_ne x id with rfl | hne
    · rwa [setNode_self]
    · rw [setNode_ne hne]
      exact (h.nodes x).other hl.toAhead hne
  net := { h.net.later hl with }

/-! ## Terms and roles -/

/-- A follower with the same log, term and indexes. -/
theorem NodeSim.follower (h : NodeSim m t id n) (hrole : n'.role = .follower)
    (hlog : n'.log = n.log) (hterm : n'.ps.currentTerm = n.ps.currentTerm)
    (hcommitted : n'.committedIndex = n.committedIndex ∨ n'.committedIndex = 0)
    (happlying : n'.applying = n.applying ∨ n'.applying = none)
    (happlied : n'.applied = n.applied) : NodeSim m t id n' where
  indexed := hlog ▸ h.indexed
  term := hterm ▸ h.term
  log := hlog ▸ h.log
  leading := fun hleader => by simp [hrole] at hleader
  member := fun hnot => absurd hrole hnot
  bid := fun hcandidate => by simp [hrole] at hcandidate
  next := fun hleader => by simp [hrole] at hleader
  matched := fun hleader => by simp [hrole] at hleader
  -- a restart begins again at 0, everything else keeps the index
  committed := by
    rcases hcommitted with hsame | hzero
    · exact hsame ▸ h.committed
    · exact .inl hzero
  applying := by
    intro idx c ha
    rcases happlying with hsame | hnone
    · exact h.applying idx c (hsame ▸ ha)
    · simp [hnone] at ha
  applied := happlied ▸ h.applied

theorem NodeSim.raise (h : NodeSim m t id n) {T : Nat} (hlt : n.ps.currentTerm < T) :
    ∃ t', Later m id t t' ∧ NodeSim m t' id (n.becomeFollower T) := by
  have hl : Later m id t _ := Later.raise (m := m) (h.term ▸ hlt)
  refine ⟨_, hl, ?_⟩
  exact
    { indexed := h.indexed
      term := by simp [Node.becomeFollower, Node.persist]
      log := h.log
      leading := fun hleader => by cases hleader
      member := fun hnot => absurd rfl hnot
      bid := fun hcandidate => by cases hcandidate
      next := fun hleader => by cases hleader
      matched := fun hleader => by cases hleader
      committed := hl.knows h.committed
      applying := fun idx c ha => ⟨(h.applying idx c ha).1, hl.knows (h.applying idx c ha).2⟩
      applied := h.applied }

/-! ## Committed indexes -/

theorem Knows.le {k k' : Nat} (h : t.Knows id k') (hle : k ≤ k') : t.Knows id k := by
  rcases h with rfl | ⟨k'', hle', hk''⟩
  · exact .inl (Nat.le_zero.1 hle)
  · exact .inr ⟨k'', hle.trans hle', hk''⟩

/-- A node that does not lead takes over the leader's committed index. -/
theorem NodeSim.advance (h : NodeSim m t id n) (hrole : n.role ≠ .leader) {leaderCommit : Nat}
    (hk : t.Knows id leaderCommit) : NodeSim m t id (n.tryAdvanceCommit leaderCommit) := by
  unfold Node.tryAdvanceCommit
  rw [if_pos hrole]
  split_ifs
  · exact { h with committed := Knows.le hk (Nat.min_le_left _ _) }
  · exact h

/-- The commit rule counts the node itself and the peers that have reached an index. -/
theorem majority_matched (hid : id ∈ m.ids) (hpeers : n.peers = m.peersOf id) {N : Nat}
    (hN : (n.matchVals.insertionSort (· ≥ ·))[min ((n.peers.length + 1) / 2 + 1)
      n.matchVals.length - 1]? = some N) :
    ∃ Q, IsQuorum m.nodes Q ∧ ∀ v ∈ Q, v = id ∨ N ≤ (n.peerStates v).matchIndex := by
  let reached := (n.peers.filter fun peer => decide (N ≤ (n.peerStates peer).matchIndex)).toFinset
  -- the index is reached by more than half of the values
  have hcount := lt_countP_of_insertionSort hN
  have hlength : n.matchVals.length = n.peers.length + 1 := by simp [Node.matchVals]
  have hmembers := Members.length_peersOf hid
  have hnodup : n.peers.Nodup := hpeers ▸ m.nodup_peersOf id
  have hcard : reached.card = n.peers.countP (fun peer => N ≤ (n.peerStates peer).matchIndex) := by
    rw [List.toFinset_card_of_nodup (hnodup.filter _), List.countP_eq_length_filter]
  have hvals : n.matchVals.countP (N ≤ ·) ≤ reached.card + 1 := by
    rw [hcard, Node.matchVals, List.countP_cons, List.countP_map]
    split_ifs
    · exact le_rfl
    · exact Nat.le_succ _
  have hmem : ∀ v ∈ reached, v ∈ m.ids ∧ v ≠ id ∧ N ≤ (n.peerStates v).matchIndex := by
    intro v hv
    have hin := List.mem_filter.1 (List.mem_toFinset.1 hv)
    have hpeer := Members.mem_peersOf.1 (hpeers ▸ hin.1)
    exact ⟨hpeer.1, hpeer.2, of_decide_eq_true hin.2⟩
  -- the node is not its own peer, so it is counted once
  have hfresh : id ∉ reached := fun hin => (hmem id hin).2.1 rfl
  refine ⟨insert id reached, ⟨fun v hv => ?_, ?_⟩, fun v hv => ?_⟩
  · rcases Finset.mem_insert.1 hv with rfl | hin
    · exact List.mem_toFinset.2 hid
    · exact List.mem_toFinset.2 (hmem v hin).1
  · rw [Finset.card_insert_of_notMem hfresh, m.card_nodes]
    rw [hpeers] at hlength hcount
    omega
  · rcases Finset.mem_insert.1 hv with rfl | hin
    · exact .inl rfl
    · exact .inr (hmem v hin).2.2

/-- A leader commits an entry of its own term that a majority holds. -/
theorem NodeSim.settle (h : NodeSim m t id n) (hpeers : n.peers = m.peersOf id)
    (hrole : n.role = .leader) (leaderCommit : Nat) :
    ∃ t', Later m id t t' ∧ NodeSim m t' id (n.tryAdvanceCommit leaderCommit) := by
  have hmember := h.member (by simp [hrole])
  unfold Node.tryAdvanceCommit
  rw [if_neg (by simp [hrole])]
  dsimp only
  split_ifs with hmove
  · rcases hget : (n.matchVals.insertionSort (· ≥ ·))[min ((n.peers.length + 1) / 2 + 1)
        n.matchVals.length - 1]? with _ | N
    · simp [hget] at hmove
    · simp only [hget, Option.getD_some] at hmove ⊢
      rcases hmove with ⟨hbeyond, hterm⟩
      rcases majority_matched hmember.1 hpeers hget with ⟨Q, hQ, hreached⟩
      rw [h.indexed.termAt_eq] at hterm
      -- the entry is in the log, since the leader's term is not 0
      rcases N with _ | N
      · omega
      · rcases hentry : n.log.view[N]? with _ | e
        · simp only [Replication.termAt, hentry, Option.map_none, Option.getD_none] at hterm
          omega
        · simp only [Replication.termAt, hentry, Option.map_some, Option.getD_some] at hterm
          have hl : Later m id t
              { t with learned := fun v k => t.learned v k ∨ v = id ∧ k = N + 1 } :=
            { steps := .single (.settle id N e Q (h.leading hrole) (h.log ▸ hentry)
                (h.term ▸ hterm) hQ fun v hv => by
                  rcases hreached v hv with rfl | hmatch
                  · exact .inl rfl
                  · rcases h.matched hrole v with hzero | hacked
                    · omega
                    · exact .inr ⟨_, hmatch, h.term ▸ hacked⟩)
              learned := fun v k hk => .inl hk }
          refine ⟨_, hl, ?_⟩
          exact { h with
            committed := .inr ⟨N + 1, le_rfl, .inr ⟨rfl, rfl⟩⟩
            applying := fun idx c ha =>
              ⟨(h.applying idx c ha).1, hl.knows (h.applying idx c ha).2⟩ }
  · exact ⟨t, .refl id t, h⟩

/-! ## Requests -/

/-- The request is one of the protocol, if it can change the log at all. -/
def Accountable (t : Protocol) (n : Node) (msg : AppendMessage) : Prop :=
  msg.args.prevLogIndex ≤ n.log.view.length → t.sent msg.request

/-- A node in the term of a request follows its sender. -/
theorem NodeSim.followLeader (h : NodeSim m t id n) (ht : Replication.Reached m.nodes t)
    {msg : AppendMessage} (hterm : n.ps.currentTerm = msg.args.term)
    (hsent : Accountable t n msg) (replyTerm : Nat) :
    ∃ t', Later m id t t' ∧ NodeSim m t' id (n.followLeader replyTerm msg.args).1 ∧
      ((n.followLeader replyTerm msg.args).2.success = true →
        t'.acked id msg.args.term (msg.args.prevLogIndex + msg.args.entries.length)) := by
  -- first the node gives up leading, if it did
  have hyield : Later m id t { t with leading := update t.leading id False } := .yield id t
  have hidle : ¬ update t.leading id False id := by simp
  have hfollower : NodeSim m { t with leading := update t.leading id False } id
      { n with leaderId := msg.args.leaderId, role := .follower } :=
    { h with
      leading := fun hleader => by cases hleader
      member := fun hnot => absurd rfl hnot
      bid := fun hcandidate => by cases hcandidate
      next := fun hleader => by cases hleader
      matched := fun hleader => by cases hleader }
  rcases Node.followLeader_cases h.indexed replyTerm msg.args with
    ⟨_, hnode, hfails⟩ | ⟨hpos, hle, hdiffers, hnode, hfails⟩ |
    ⟨hle, hprev, log, hindexed, hview, hnode, hsuccess⟩
  · rw [hnode, hfails]
    exact ⟨_, hyield, hfollower, fun hsuccess => by cases hsuccess⟩
  · rw [hnode, hfails]
    have hcut : Later m id { t with leading := update t.leading id False } _ :=
      { steps := .single (.cut id msg.request hidle (hsent hle) (h.term.trans hterm)
          (by rw [h.log]; exact hle) (by rw [h.log]; exact hdiffers))
        log := fun x hx => by simp [hx] }
    refine ⟨_, hyield.trans hcut, ?_, fun hsuccess => by cases hsuccess⟩
    exact { hfollower with
      indexed := h.indexed.take _
      log := by simp [AppendMessage.request, h.log, RaftLog.view, List.map_take]
      bid := fun hcandidate => by cases hcandidate
      next := fun hleader => by cases hleader }
  · rw [hnode, hsuccess]
    have hgenuine := (ht.inv.commits.sent _ (hsent hle))
    have hsame : Replication.termAt (t.log id) msg.request.prev = msg.request.prevTerm := by
      rcases Nat.eq_zero_or_pos msg.args.prevLogIndex with hzero | hpos
      · rw [← hgenuine.prevTerm]
        simp [AppendMessage.request, hzero, Replication.termAt]
      · rw [h.log]
        exact hprev hpos
    have haccept : Later m id { t with leading := update t.leading id False } _ :=
      { steps := .single (.accept id msg.request hidle (hsent hle) (h.term.trans hterm)
          (by rw [h.log]; exact hle) hsame)
        log := fun x hx => by simp [hx]
        acked := fun v T N ha => .inl ha
        learned := fun v k hk => .inl hk }
    refine ⟨_, hyield.trans haccept, ?_, fun _ => .inr ⟨rfl, rfl, rfl⟩⟩
    refine NodeSim.advance ?_ (by simp) (.inr ⟨_, le_rfl, .inr ⟨rfl, rfl⟩⟩)
    exact { hfollower with
      indexed := hindexed
      log := by simp [AppendMessage.request, h.log, hview]
      bid := fun hcandidate => by cases hcandidate
      next := fun hleader => by cases hleader
      matched := fun hleader => by cases hleader
      committed := haccept.knows hfollower.committed
      applying := fun idx c ha =>
        ⟨(h.applying idx c ha).1, haccept.knows (hfollower.applying idx c ha).2⟩ }

/-- `handle_append_entries` does what the protocol does, for a request that counts as one of it. -/
theorem NodeSim.handleAppendEntries (h : NodeSim m t id n) (ht : Replication.Reached m.nodes t)
    {msg : AppendMessage} (hsent : n.ps.currentTerm ≤ msg.args.term → Accountable t n msg) :
    ∃ t', Later m id t t' ∧ NodeSim m t' id (n.handleAppendEntries msg.args).1 ∧
      ((n.handleAppendEntries msg.args).2.success = true →
        t'.acked id msg.args.term (msg.args.prevLogIndex + msg.args.entries.length)) := by
  unfold Node.handleAppendEntries
  split_ifs with hlow hhigh
  · exact ⟨t, .refl id t, h, fun hsuccess => by cases hsuccess⟩
  · rcases h.raise hhigh with ⟨t₁, hraise, hn₁⟩
    have hsent₁ : Accountable t₁ (n.becomeFollower msg.args.term) msg :=
      fun hle => hraise.sent _ (hsent hhigh.le hle)
    rcases hn₁.followLeader (hraise.reached ht) rfl hsent₁ n.ps.currentTerm with
      ⟨t₂, hfollow, hn₂, hacked⟩
    exact ⟨t₂, hraise.trans hfollow, hn₂, hacked⟩
  · exact h.followLeader ht (by omega) (hsent (by omega)) n.ps.currentTerm

/-- A reply is taken for what it says: the peer has acknowledged the request in its term. -/
theorem NodeSim.handleAppendReply (h : NodeSim m t id n) (ht : Replication.Reached m.nodes t)
    (hpeers : n.peers = m.peersOf id) {peer : Bytes} {args : AppendEntriesArgs}
    {reply : AppendEntriesReply} (hk : t.Knows id args.leaderCommit)
    (hacked : reply.success = true →
      t.acked peer args.term (args.prevLogIndex + args.entries.length))
    (hterm : reply.success = true → n.role = .leader → args.term = n.ps.currentTerm) :
    ∃ t', Later m id t t' ∧ NodeSim m t' id (n.handleAppendReply peer args reply) := by
  unfold Node.handleAppendReply
  dsimp only
  split_ifs with hhigh hsuccess hback
  · exact h.raise hhigh
  · have hupdated : NodeSim m t id { n with
        peerStates := update n.peerStates peer
          { nextIndex := args.prevLogIndex + args.entries.length + 1
            matchIndex := args.prevLogIndex + args.entries.length } } :=
      { h with
        next := by
          intro hrole p
          rcases eq_or_ne p peer with rfl | hne
          -- what is acknowledged lies within the leader's log
          · have hbound := ht.inv.choices.acked_le _ _ _ (hacked hsuccess)
            have hleads := (ht.inv.logs.leads id (h.leading hrole)).2
            rw [hterm hsuccess hrole, ← h.term, hleads, h.log] at hbound
            simpa using hbound
          · simpa [hne] using h.next hrole p
        matched := by
          intro hrole p
          rcases eq_or_ne p peer with rfl | hne
          · exact .inr (by simpa [← hterm hsuccess hrole] using hacked hsuccess)
          · simpa [hne] using h.matched hrole p }
    by_cases hrole : n.role = .leader
    · exact hupdated.settle hpeers hrole args.leaderCommit
    · exact ⟨t, .refl id t, hupdated.advance hrole hk⟩
  · refine ⟨t, .refl id t, ?_⟩
    exact { h with
      next := by
        intro hrole p
        rcases eq_or_ne p peer with rfl | hne
        -- the index goes back by one, and not below 1
        · have hnext := h.next hrole p
          simp only [Function.update_self]
          omega
        · simpa [hne] using h.next hrole p
      matched := by
        intro hrole p
        rcases eq_or_ne p peer with rfl | hne
        · simpa using h.matched hrole p
        · simpa [hne] using h.matched hrole p }
  · exact ⟨t, .refl id t, h⟩

end Sim

end Raft
end ControlDB
