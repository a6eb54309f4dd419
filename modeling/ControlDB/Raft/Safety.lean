import ControlDB.Raft.Simulation

/-!
# State machine safety

When no two nodes apply different commands at one index.  An append request carries commands
without their terms, and the receiver writes them under the sender's current term; `propose` and
`replicate_to_peer` check the role before they take the lock; and a reply is counted in whatever term
the leader has by then.  Safety holds in every run in which none of the three goes wrong, and fails
without that.
-/

namespace ControlDB
namespace Raft

open Library
open Function (update)

/-! ## Sound actions -/

/-- The node looks at the request at all: its term is not over, and the log reaches the index that
the request follows. -/
def Node.Considers (n : Node) (args : AppendEntriesArgs) : Prop :=
  n.ps.currentTerm ≤ args.term ∧ args.prevLogIndex ≤ n.log.lastIndex

instance (n : Node) (args : AppendEntriesArgs) : Decidable (n.Considers args) :=
  inferInstanceAs (Decidable (_ ∧ _))

instance (msg : AppendMessage) : Decidable msg.Clean :=
  inferInstanceAs (Decidable (_ ∧ _))

instance (m : Members) : Decidable m.Storable :=
  inferInstanceAs (Decidable (∀ id ∈ m.ids, id ≠ [] ∧ ∀ b ∈ id, isSpace b = false))

/-- A proposal is appended by a node that still leads; a request that a node considers was built by
a leader from entries of its own term; a leader counts a success only for a request of its present
term; and a node restarts only if its vote can be stored. -/
def Cluster.Sound (m : Members) (s : Cluster) : Action → Prop
  | .proposeAppend id _ => (s.nodes id).role = .leader
  | .deliverAppend k =>
      match s.appendRequests[k]? with
      | some msg => (s.nodes msg.peer).Considers msg.args → msg.Clean
      | none => True
  | .deliverAppendReply k =>
      match s.appendReplies[k]? with
      | some (msg, reply) => reply.success = true →
          (s.nodes msg.args.leaderId).role = .leader →
          msg.args.term = (s.nodes msg.args.leaderId).ps.currentTerm
      | none => True
  | .restart _ => m.Storable
  | _ => True

instance (m : Members) (s : Cluster) (a : Action) : Decidable (s.Sound m a) :=
  match a with
  | .proposeAppend id _ => decEq (s.nodes id).role .leader
  | .deliverAppend k =>
      match h : s.appendRequests[k]? with
      | some msg => decidable_of_iff ((s.nodes msg.peer).Considers msg.args → msg.Clean)
          (by simp [Cluster.Sound, h])
      | none => .isTrue (by simp [Cluster.Sound, h])
  | .deliverAppendReply k =>
      match h : s.appendReplies[k]? with
      | some (msg, reply) => decidable_of_iff (reply.success = true →
          (s.nodes msg.args.leaderId).role = .leader →
          msg.args.term = (s.nodes msg.args.leaderId).ps.currentTerm)
          (by simp [Cluster.Sound, h])
      | none => .isTrue (by simp [Cluster.Sound, h])
  | .restart _ => (inferInstance : Decidable m.Storable)
  | .startElection _ | .deliverVote _ | .collectVote _ _ | .loseVote _ _ | .decideElection _
  | .propose _ _ | .proposeEnd _ _ _ | .replicate _ _ | .sendAppend _ _ | .readCommitted _
  | .applyNext _ | .applyMiss _ => .isTrue trivial

/-! ## Following the other actions -/

section Sim

variable {m : Members} {s : Cluster} {t : Protocol} {id : Bytes} {n n₁ : Node}

theorem NodeSim.raised (h : NodeSim m t id n) {T : Nat} (hn : n.Raised T n₁) :
    ∃ t', Later m id t t' ∧ NodeSim m t' id n₁ := by
  rcases hn with rfl | ⟨hlt, rfl⟩
  · exact ⟨t, .refl id t, h⟩
  · exact h.raise hlt

theorem NodeSim.collectVote (h : NodeSim m t id n) (e : Election) (peer : Bytes)
    (reply : Option RequestVoteReply) :
    ∃ t', Later m id t t' ∧ NodeSim m t' id (n.collectVote e peer reply) := by
  cases reply with
  | none => exact ⟨t, .refl id t, { h with }⟩
  | some r =>
      unfold Node.collectVote
      dsimp only
      split_ifs with hhigh hgranted
      · rcases h.raise hhigh with ⟨t', hl, hn⟩
        exact ⟨t', hl, { hn with }⟩
      · exact ⟨t, .refl id t, { h with }⟩
      · exact ⟨t, .refl id t, { h with }⟩

/-- A leader appends a proposal to its log. -/
theorem NodeSim.proposeAppend (h : NodeSim m t id n) (hrole : n.role = .leader)
    (command : Bytes) :
    ∃ t', Later m id t t' ∧ NodeSim m t' id (n.proposeAppend command) := by
  have hl : Later m id t _ :=
    { steps := .single (.extend id command (h.leading hrole))
      log := fun x hx => by simp [hx] }
  refine ⟨_, hl, ?_⟩
  have hconcat := h.indexed.append_eq n.ps.currentTerm command
  unfold Node.proposeAppend
  rw [hconcat]
  exact { h with
    indexed := h.indexed.concat _ _
    log := by simp [h.log, h.term, RaftLog.view]
    bid := fun hcandidate => by
      dsimp only at hcandidate
      simp [hrole] at hcandidate
    next := by
      intro _ peer
      have hnext := h.next hrole peer
      simp only [RaftLog.length_view] at hnext
      simp only [RaftLog.length_view, List.length_append, List.length_singleton]
      omega }

/-- `apply_committed` applies what the log has at a committed index. -/
theorem NodeSim.applyEntry (h : NodeSim m t id n) {idx committed : Nat}
    (happlying : n.applying = some (idx, committed)) (hle : idx ≤ committed)
    {found : Option LogEntry} (hfound : ∀ entry, found = some entry → n.log.get idx = some entry) :
    ∃ t', Later m id t t' ∧ NodeSim m t' id (n.applyEntry idx committed found) := by
  rcases h.applying idx committed happlying with ⟨hpos, hk⟩
  have hnext : ∀ {t'}, Later m id t t' → ∀ i c, some (idx + 1, committed) = some (i, c) →
      0 < i ∧ t'.Knows id c := by
    rintro t' hl i c ⟨⟩
    exact ⟨Nat.succ_pos idx, hl.knows hk⟩
  cases found with
  | none => exact ⟨t, .refl id t, { h with applying := hnext (.refl id t) }⟩
  | some entry =>
      -- the index is within the range that was read as committed
      rcases hk with hzero | ⟨k, hck, hlearned⟩
      · omega
      · rcases idx with _ | i
        · omega
        · have hget : n.log.entries[i]? = some entry := by
            rw [← h.indexed.get_succ]
            exact hfound entry rfl
          have hview : (t.log id)[i]? = some ⟨entry.term, entry.command⟩ := by
            rw [h.log, RaftLog.getElem?_view, hget]
            rfl
          have hl : Later m id t _ :=
            { steps := .single (.perform id k i _ hlearned (by omega) hview)
              applied := fun v j c ha => .inl ha }
          refine ⟨_, hl, ?_⟩
          exact { h with
            committed := hl.knows h.committed
            applying := hnext hl
            applied := by
              intro j c hj
              rcases List.mem_append.1 hj with hold | hnew
              · exact .inl (h.applied j c hold)
              · rcases Prod.mk.inj (List.mem_singleton.1 hnew) with ⟨rfl, rfl⟩
                exact .inr ⟨rfl, rfl, rfl⟩ }

/-! ## Messages -/

theorem Sim.startElection (h : Sim m s t) (ht : Replication.Reached m.nodes t)
    (hvotes : VoteInv m s) (hid : id ∈ m.ids) :
    ∃ t', Later m id t t' ∧ Sim m { s.setNode id (s.nodes id).startElection with
      voteRequests := s.voteRequests ++ (s.nodes id).peers.map fun peer =>
        (peer, (s.nodes id).voteArgs (s.nodes id).newElection) } t' := by
  have hn := h.nodes id
  have hl : Later m id t _ := .stand ht id
  have hbid : update t.bid id (update (t.bid id) (t.term id + 1) (some (t.log id))) id
      ((s.nodes id).ps.currentTerm + 1) = some (s.nodes id).log.view := by
    simp [hn.term, hn.log]
  have hset : Sim m (s.setNode id (s.nodes id).startElection) _ :=
    h.setNode hl
      { indexed := hn.indexed
        term := by simp [Node.startElection, Node.persist, hn.term]
        log := hn.log
        leading := fun hleader => by cases hleader
        member := fun _ => ⟨hid, Nat.succ_pos _⟩
        bid := fun _ => hbid
        next := fun hleader => by cases hleader
        matched := fun hleader => by cases hleader
        committed := hl.knows hn.committed
        applying := fun idx c ha => ⟨(hn.applying idx c ha).1, hl.knows (hn.applying idx c ha).2⟩
        applied := hn.applied }
  refine ⟨_, hl, hset.nodes, { hset.net with request := ?_ }⟩
  intro peer args hrequest
  rcases List.mem_append.1 hrequest with hold | hnew
  · exact hset.net.request peer args hold
  · -- the new requests carry the bid
    rcases List.mem_map.1 hnew with ⟨p, _, hpair⟩
    cases hpair
    refine ⟨(s.nodes id).log.view, ?_, hn.indexed.lastIndex_eq, RaftLog.lastTerm_eq⟩
    simpa only [Node.voteArgs, Node.newElection, (hvotes.wired id).1] using hbid

theorem Sim.deliverVote (h : Sim m s t) {args : RequestVoteArgs}
    (hrequest : (id, args) ∈ s.voteRequests) :
    ∃ t', Later m id t t' ∧ Sim m { s.setNode id ((s.nodes id).handleRequestVote args).1 with
      voteReplies := s.voteReplies ++
        [⟨id, args, ((s.nodes id).handleRequestVote args).2⟩] } t' := by
  rcases (s.nodes id).handleRequestVote_cases args with ⟨n₁, hraised, hcases⟩
  rcases (h.nodes id).raised hraised with ⟨t₁, hl₁, hn₁⟩
  rcases hcases with ⟨hnode, hrefused⟩ | ⟨hterm, hfree, hrecent, hnode⟩
  · have hset : Sim m (s.setNode id n₁) t₁ := h.setNode hl₁ hn₁
    rw [hnode]
    refine ⟨t₁, hl₁, hset.nodes, { hset.net with ballot := ?_ }⟩
    rintro msg ⟨hmem, hgranted⟩
    rcases List.mem_append.1 hmem with hold | hnew
    · exact hset.net.ballot msg ⟨hold, hgranted⟩
    · rw [List.mem_singleton.1 hnew, hrefused] at hgranted
      cases hgranted
  · -- the vote is one of the protocol: the bid is as recent as the voter's log
    rcases (h.net.later hl₁).request id args hrequest with ⟨l, hbid, hindex, hlastTerm⟩
    have hup : Replication.UpToDate l (t₁.log id) := by
      rw [hn₁.log]
      rw [hindex, hlastTerm] at hrecent
      exact (hn₁.indexed.isUpToDate_iff l).1 hrecent
    have hterm' : t₁.term id = args.term := hn₁.term.trans hterm
    have hvote : Later m id t₁ _ :=
      { steps := .single (.grant id args.candidateId l (hterm' ▸ hbid) hup)
        ballot := fun v c T hv => .inl hv }
    have hset : Sim m (s.setNode id (Node.persist
        { n₁ with ps := { n₁.ps with votedFor := args.candidateId } })) _ :=
      h.setNode (hl₁.trans hvote) { hn₁ with }
    rw [hnode]
    refine ⟨_, hl₁.trans hvote, hset.nodes, { hset.net with ballot := ?_ }⟩
    rintro msg ⟨hmem, hgranted⟩
    rcases List.mem_append.1 hmem with hold | hnew
    · exact hset.net.ballot msg ⟨hold, hgranted⟩
    · rw [List.mem_singleton.1 hnew]
      exact .inr ⟨rfl, rfl, hterm'.symm⟩

/-- An election is won with a quorum of ballots, in a term that has no leader. -/
theorem Sim.winElection (h : Sim m s t) (hvotes : VoteInv m s) {e : Election}
    (he : (s.nodes id).election = some e) (hrole : (s.nodes id).role = .candidate)
    (hquorum : (s.nodes id).hasQuorum e.votes = true) :
    ∃ t', Relation.ReflTransGen (Replication.Step m.nodes) t t' ∧
      Sim m { s.setNode id { s.nodes id with
          role := .leader
          leaderId := (s.nodes id).nodeId
          peerStates := fun _ =>
            { nextIndex := (s.nodes id).log.lastIndex + 1, matchIndex := 0 }
          election := none } with
        elected := s.elected ++ [((s.nodes id).ps.currentTerm, id)] } t' := by
  have hn := h.nodes id
  -- the protocol knows no leader of the term that the cluster does not know
  have hnone : t.leader (t.term id) = none := by
    rcases hleader : t.leader (t.term id) with _ | other
    · rfl
    · have hwon := h.net.leader _ _ hleader
      rw [hn.term] at hwon
      exact absurd hwon (hvotes.unwon hrole he hquorum other)
  rcases hvotes.supported hrole he hquorum with ⟨Q, hQ, hsupport⟩
  have hbid : t.bid id (t.term id) = some (t.log id) := by rw [hn.term, hn.log, hn.bid hrole]
  -- the counted replies are ballots of the protocol
  have hballots : ∀ v ∈ Q, v = id ∨ t.ballot v id (t.term id) := by
    intro v hv
    rcases hsupport v hv with rfl | ⟨msg, hmsg, rfl, rfl, hterm⟩
    · exact .inl rfl
    · exact .inr (by simpa [hn.term, ← hterm] using h.net.ballot msg hmsg)
  have hahead : Ahead m id t _ :=
    { steps := .single (.win id Q hbid hnone hQ hballots)
      leading := fun x hx hlead => by simpa [hx] using hlead }
  have hnet : NetSim { s with
      elected := s.elected ++ [((s.nodes id).ps.currentTerm, id)] } t :=
    { h.net with leader := fun T x hx => List.mem_append_left _ (h.net.leader T x hx) }
  have hleader : ∀ T x, update t.leader (t.term id) (some id) T = some x →
      (T, x) ∈ s.elected ++ [((s.nodes id).ps.currentTerm, id)] := by
    intro T x hx
    rcases eq_or_ne T (t.term id) with rfl | hne
    · have hid : id = x := by simpa using hx
      subst hid
      exact List.mem_append_right _ (by simp [hn.term])
    · exact hnet.leader T x (by simpa [hne] using hx)
  refine ⟨_, hahead.steps, fun x => ?_, { hnet.ahead hahead hleader with }⟩
  · rcases eq_or_ne x id with rfl | hne
    · simp only [setNode_self]
      exact { hn with
        leading := fun _ => by simp
        member := fun _ => hn.member (by simp [hrole])
        bid := fun hcandidate => by cases hcandidate
        next := fun _ peer => ⟨Nat.succ_pos _, by rw [hn.indexed.lastIndex_eq]⟩
        matched := fun _ peer => .inl rfl
        committed := hahead.knows hn.committed
        applying := fun idx c ha =>
          ⟨(hn.applying idx c ha).1, hahead.knows (hn.applying idx c ha).2⟩ }
    · simp only [setNode_ne hne]
      exact (h.nodes x).other hahead hne

/-- A request carries the entries from the next index on. -/
theorem Node.replicateArgs_spec {n : Node} (hindexed : n.log.Indexed) {peer : Bytes}
    (hpos : 0 < (n.peerStates peer).nextIndex) :
    n.log.view.drop ((n.peerStates peer).nextIndex - 1) =
        ((n.replicateArgs peer).2).map (fun e => ⟨e.term, e.command⟩) ∧
      (n.replicateArgs peer).1.entries =
        (n.log.view.drop ((n.peerStates peer).nextIndex - 1)).map Replication.Entry.command := by
  have hsources : (n.replicateArgs peer).2 =
      n.log.entries.drop ((n.peerStates peer).nextIndex - 1) := hindexed.getRange_eq hpos
  have hview : n.log.view.drop ((n.peerStates peer).nextIndex - 1) =
      ((n.replicateArgs peer).2).map fun e => ⟨e.term, e.command⟩ := by
    rw [hsources, RaftLog.view, List.map_drop]
  refine ⟨hview, ?_⟩
  rw [hview, List.map_map]
  rfl

/-- A request of a leader with entries of its own term is one of the protocol. -/
theorem NodeSim.sendAppend (h : NodeSim m t id n) (peer : Bytes) (hrole : n.role = .leader)
    (hown : ∀ e ∈ (n.replicateArgs peer).2, e.term = n.ps.currentTerm) :
    ∃ t', Later m id t t' ∧ NodeSim m t' id n ∧
      t'.sent (AppendMessage.request
        ⟨peer, (n.replicateArgs peer).1, (n.replicateArgs peer).2, true⟩) := by
  rcases h.next hrole peer with ⟨hpos, hle⟩
  rcases Node.replicateArgs_spec h.indexed hpos with ⟨hview, hcommands⟩
  rw [← h.log] at hview hcommands
  have hterms : ∀ e ∈ (t.log id).drop ((n.peerStates peer).nextIndex - 1), e.term = t.term id := by
    intro e he
    rw [hview] at he
    rcases List.mem_map.1 he with ⟨source, hsource, rfl⟩
    rw [h.term]
    exact hown source hsource
  -- the next index is at most one past the end of the log
  have hprev : (n.peerStates peer).nextIndex - 1 ≤ (t.log id).length := by
    rw [h.log]
    omega
  have hl : Later m id t _ :=
    { steps := .single (.send id _ n.committedIndex (h.leading hrole) hprev hterms h.committed)
      sent := fun r hr => .inl hr }
  refine ⟨_, hl, { h with }, .inr ?_⟩
  have hterm := h.indexed.termAt_eq ((n.peerStates peer).nextIndex - 1)
  simp only [AppendMessage.request, hcommands]
  simp [Node.replicateArgs, h.term, h.log, hterm]

theorem Sim.sendAppend (h : Sim m s t) (hvotes : VoteInv m s) (peer : Bytes)
    (replicating : List Bytes) :
    ∃ t', Later m id t t' ∧ Sim m { s.setNode id { s.nodes id with replicating } with
      appendRequests := s.appendRequests ++
        [{ peer
           args := ((s.nodes id).replicateArgs peer).1
           sources := ((s.nodes id).replicateArgs peer).2
           led := decide ((s.nodes id).role = .leader) }] } t' := by
  have hn := h.nodes id
  have hknows : ∀ {t'}, Later m id t t' → t'.Knows ((s.nodes id).replicateArgs peer).1.leaderId
      ((s.nodes id).replicateArgs peer).1.leaderCommit := by
    intro t' hl
    have hself := (hvotes.wired id).1
    simpa only [Node.replicateArgs, hself] using hl.knows hn.committed
  -- the protocol sends something only if the request is clean
  have hsend : ∃ t', Later m id t t' ∧ NodeSim m t' id (s.nodes id) ∧
      (decide ((s.nodes id).role = .leader) = true →
        (∀ e ∈ ((s.nodes id).replicateArgs peer).2, e.term = (s.nodes id).ps.currentTerm) →
        t'.sent (AppendMessage.request ⟨peer, ((s.nodes id).replicateArgs peer).1,
          ((s.nodes id).replicateArgs peer).2, true⟩)) := by
    by_cases hclean : (s.nodes id).role = .leader ∧
        ∀ e ∈ ((s.nodes id).replicateArgs peer).2, e.term = (s.nodes id).ps.currentTerm
    · rcases hn.sendAppend peer hclean.1 hclean.2 with ⟨t', hl, hn', hsent⟩
      exact ⟨t', hl, hn', fun _ _ => hsent⟩
    · exact ⟨t, .refl id t, hn, fun hled hown => absurd ⟨of_decide_eq_true hled, hown⟩ hclean⟩
  rcases hsend with ⟨t', hl, hn', hsent⟩
  have hset : Sim m (s.setNode id { s.nodes id with replicating }) t' := h.setNode hl { hn' with }
  refine ⟨t', hl, hset.nodes, { hset.net with sent := ?_, acked := ?_ }⟩
  · intro msg hmsg
    rcases List.mem_append.1 hmsg with hold | hnew
    · exact hset.net.sent msg hold
    · rw [List.mem_singleton.1 hnew]
      exact ⟨fun hclean => hsent hclean.1 hclean.2, hknows hl⟩
  · intro msg reply hmsg
    exact ⟨List.mem_append_left _ (hset.net.acked msg reply hmsg).1,
      (hset.net.acked msg reply hmsg).2⟩

theorem Sim.deliverAppend (h : Sim m s t) (ht : Replication.Reached m.nodes t)
    {msg : AppendMessage} (hmsg : msg ∈ s.appendRequests)
    (hsound : (s.nodes msg.peer).Considers msg.args → msg.Clean) :
    ∃ t', Later m msg.peer t t' ∧
      Sim m { s.setNode msg.peer ((s.nodes msg.peer).handleAppendEntries msg.args).1 with
        appendReplies := s.appendReplies ++
          [(msg, ((s.nodes msg.peer).handleAppendEntries msg.args).2)] } t' := by
  have hn := h.nodes msg.peer
  -- a request that the node would look at is one of the protocol
  have haccountable : (s.nodes msg.peer).ps.currentTerm ≤ msg.args.term →
      Accountable t (s.nodes msg.peer) msg := fun hterm hle =>
    (h.net.sent msg hmsg).1 (hsound ⟨hterm, hn.indexed.lastIndex_eq ▸ hle⟩)
  rcases hn.handleAppendEntries ht haccountable with ⟨t', hl, hn', hacked⟩
  have hset : Sim m (s.setNode msg.peer
      ((s.nodes msg.peer).handleAppendEntries msg.args).1) t' := h.setNode hl hn'
  refine ⟨t', hl, hset.nodes, { hset.net with acked := ?_ }⟩
  intro msg' reply hreply
  rcases List.mem_append.1 hreply with hold | hnew
  · exact hset.net.acked msg' reply hold
  · rcases Prod.mk.inj (List.mem_singleton.1 hnew) with ⟨rfl, rfl⟩
    exact ⟨hmsg, hacked⟩

/-! ## Every sound action -/

theorem sim_init (m : Members) :
    Sim m (Cluster.init m) (Replication.State.start Bytes Bytes) where
  nodes := by
    intro id
    constructor <;> simp [Cluster.init, Replication.State.start, RaftLog.indexed_empty,
      RaftLog.view, Replication.State.Knows]
  net := by
    constructor <;> simp [Cluster.init, Replication.State.start, Cluster.Granted]

/-- The protocol can follow every sound action. -/
theorem Sim.step (h : Sim m s t) (ht : Replication.Reached m.nodes t) (hvotes : VoteInv m s)
    (hstored : m.Storable → ∀ id, (s.nodes id).Stored m) {a : Action} {s' : Cluster}
    (hsound : s.Sound m a) (hstep : s.step m a = some s') :
    ∃ t', Relation.ReflTransGen (Replication.Step m.nodes) t t' ∧ Sim m s' t' := by
  have hset : ∀ {id n'}, (∃ t', Later m id t t' ∧ NodeSim m t' id n') →
      ∃ t', Relation.ReflTransGen (Replication.Step m.nodes) t t' ∧ Sim m (s.setNode id n') t' := by
    rintro id n' ⟨t', hl, hn⟩
    exact ⟨t', hl.steps, h.setNode hl hn⟩
  have hsame : ∀ {id n'}, NodeSim m t id n' →
      ∃ t', Relation.ReflTransGen (Replication.Step m.nodes) t t' ∧ Sim m (s.setNode id n') t' :=
    fun {id _} hn => hset ⟨t, .refl id t, hn⟩
  have hnext : ∀ {id s'}, (∃ t', Later m id t t' ∧ Sim m s' t') →
      ∃ t', Relation.ReflTransGen (Replication.Step m.nodes) t t' ∧ Sim m s' t' := by
    rintro id s' ⟨t', hl, hs'⟩
    exact ⟨t', hl.steps, hs'⟩
  cases Cluster.transition_of_step hstep with
  | startElection hid _ _ => exact hnext (h.startElection ht hvotes hid)
  | deliverVote hrequest => exact hnext (h.deliverVote hrequest)
  | @collectVote id k msg e _ _ _ _ => exact hset ((h.nodes id).collectVote e _ _)
  | @loseVote id peer e _ => exact hset ((h.nodes id).collectVote e peer none)
  | @endElection id e _ _ => exact hsame { h.nodes id with }
  | winElection he hrole hquorum => exact h.winElection hvotes he hrole hquorum
  | @loseElection id e _ _ =>
      exact hsame ((h.nodes id).follower rfl rfl rfl (.inl rfl) (.inl rfl) rfl)
  | @propose id command _ => exact hsame { h.nodes id with }
  | @proposeAppend id command _ => exact hset ((h.nodes id).proposeAppend hsound command)
  | @proposeEnd id command logIndex _ => exact hsame { h.nodes id with }
  | @replicate id peer _ _ => exact hsame { h.nodes id with }
  | @sendAppend id peer _ => exact hnext (h.sendAppend hvotes peer _)
  | @deliverAppend k msg hget =>
      simp only [Cluster.Sound, hget] at hsound
      exact hnext (h.deliverAppend ht (List.mem_of_getElem? hget) hsound)
  | @deliverAppendReply k msg reply hget =>
      simp only [Cluster.Sound, hget] at hsound
      rcases h.net.acked msg reply (List.mem_of_getElem? hget) with ⟨hmsg, hacked⟩
      exact hset ((h.nodes _).handleAppendReply ht (hvotes.wired _).2 (h.net.sent msg hmsg).2
        hacked hsound)
  | @readCommitted id _ =>
      have hn := h.nodes id
      refine hsame { hn with applying := ?_ }
      rintro idx c ⟨⟩
      exact ⟨Nat.succ_pos _, hn.committed⟩
  | @applyNext id idx committed happlying hle =>
      exact hset ((h.nodes id).applyEntry happlying hle fun entry hentry => hentry)
  | @applyMiss id idx committed happlying hle =>
      exact hset ((h.nodes id).applyEntry happlying hle fun entry hentry => by cases hentry)
  | @restart id _ =>
      have hload := (hstored hsound id).load
      exact hsame ((h.nodes id).follower rfl rfl
        (by simp [Node.restart, hload]) (.inr rfl) (.inr rfl) rfl)

end Sim

/-! ## State machine safety -/

/-- No two nodes have called `apply_fn` with different commands for one index. -/
def Cluster.AppliedAgree (s : Cluster) : Prop :=
  ∀ a b i c c', (i, c) ∈ (s.nodes a).applied → (i, c') ∈ (s.nodes b).applied → c = c'

section Runs

variable {m : Members} {s : Cluster}

theorem restartable_of_sound {a : Action} (h : s.Sound m a) : Restartable m s a := by
  by_cases hrestart : ∃ id, a = .restart id
  · rcases hrestart with ⟨id, rfl⟩
    exact .inl h
  · exact .inr fun id ha => hrestart ⟨id, ha⟩

/-- In every run of sound actions the nodes apply the same commands. -/
theorem appliedAgree_of_sound (hnamed : ∀ id ∈ m.ids, id ≠ [])
    (h : Reach (Cluster.step m) (Cluster.Sound m) (Cluster.init m) s) : s.AppliedAgree := by
  have hsim : ∃ t, Replication.Reached m.nodes t ∧ Sim m s t := by
    refine Reach.simulated (sim_init m) ?_ h
    intro s s' a t hs ht hsim hsound hstep
    have hvotes := votes_of_reach hnamed (hs.mono restartable_of_sound)
    exact hsim.step ht hvotes.1 hvotes.2 hsound hstep
  rcases hsim with ⟨t, ht, hsim⟩
  intro a b i c c' ha hb
  exact ht.applied_agree ((hsim.nodes a).applied i c ha) ((hsim.nodes b).applied i c' hb)

end Runs

/-! ### Two runs -/

namespace SafetyExample

open Trio

/-- `id` is elected with the vote that the `k`-th request asks for; the call to `other` throws. -/
def elect (id other : Bytes) (k reply : Nat) : List Action :=
  [.startElection id, .deliverVote k, .collectVote id reply, .loseVote id other,
    .decideElection id]

/-- `id` commits a command with the `k`-th append request, which it sends to `peer`, and applies
it. -/
def commitWith (id peer command : Bytes) (k reply : Nat) : List Action :=
  [.propose id command, .proposeAppend id command, .replicate id peer, .sendAppend id peer,
    .deliverAppend k, .deliverAppendReply reply, .readCommitted id, .applyNext id]

/-- Two leaders, one after the other, each of which commits a command. -/
def steady : List Action :=
  elect a c 0 0 ++ commitWith a b (bytes "x") 0 0 ++
    [.replicate a b, .sendAppend a b, .deliverAppend 1, .readCommitted b, .applyNext b] ++
    elect b a 3 1 ++ commitWith b a (bytes "y") 2 2

def steadyOutcome : Option Cluster :=
  run (Cluster.step trio) (Cluster.Sound trio) (Cluster.init trio) steady

theorem steadyOutcome_isSome : steadyOutcome.isSome = true := by
  decide +kernel

/-- `a` leads term 1 and proposes `x`, hears of term 2 from `b`, and leads term 3.  Its request with
`x` and `y` is relabelled to term 3 by `b`, acknowledged and committed; then a heartbeat it sent
before arrives at `b`, which finds term 3 instead of term 1 at index 1 and drops both entries. -/
def relabelled : List Action :=
  elect a c 0 0 ++ [.propose a (bytes "x"), .proposeAppend a (bytes "x")] ++
    [.startElection b, .deliverVote 2, .loseVote b a, .loseVote b c, .decideElection b] ++
    elect a c 4 2 ++
    [.replicate a b, .sendAppend a b, .replicate a b, .sendAppend a b, .deliverAppend 1,
      .deliverAppendReply 0] ++
    commitWith a b (bytes "y") 2 1 ++ [.deliverAppend 0] ++
    elect b a 7 3 ++ commitWith b c (bytes "z") 3 3

def relabelledOutcome : Option Cluster :=
  run (Cluster.step trio) (fun _ _ => True) (Cluster.init trio) relabelled

theorem relabelledOutcome_isSome : relabelledOutcome.isSome = true := by
  decide +kernel

end SafetyExample

open SafetyExample Trio in
theorem appliedAgree_of_sound_steady :
    (steadyOutcome.get steadyOutcome_isSome).AppliedAgree :=
  appliedAgree_of_sound (by decide) (reach_of_run (Option.some_get steadyOutcome_isSome).symm)

open SafetyExample Trio in
/-- Without the conditions a committed and applied entry can be lost. -/
theorem appliedAgree_fails_relabelled :
    ∃ s, Reach (Cluster.step trio) (fun _ _ => True) (Cluster.init trio) s ∧ ¬ s.AppliedAgree := by
  refine ⟨_, reach_of_run (Option.some_get relabelledOutcome_isSome).symm, fun hagree => ?_⟩
  have hx : (1, bytes "x") ∈
      ((relabelledOutcome.get relabelledOutcome_isSome).nodes a).applied := by
    decide +kernel
  have hz : (1, bytes "z") ∈
      ((relabelledOutcome.get relabelledOutcome_isSome).nodes b).applied := by
    decide +kernel
  exact absurd (hagree a b 1 _ _ hx hz) (by decide)

end Raft
end ControlDB
