import ControlDB.Raft.LogMatching

/-!
# What a leader knows of its peers

A leader's `match_index` says how much of its log a peer has.  The commit rule rests on it.  It is
true in every run in which no entry gets a term that is not its own, no node takes an append request
of a sender that did not lead, and no leader counts a reply to a request of an earlier term.
-/

namespace ControlDB
namespace Raft

open Library
open Library.Replication (Entry Matches Segment)
open Function (update)

/-- Every peer that is not in a later term holds the leader's commands up to its match index. -/
def Cluster.MatchSound (s : Cluster) : Prop :=
  ∀ id, (s.nodes id).role = .leader → ∀ peer ∈ (s.nodes id).peers,
    (s.nodes peer).ps.currentTerm ≤ (s.nodes id).ps.currentTerm →
      ((s.nodes id).peerStates peer).matchIndex ≤ (s.nodes peer).log.entries.length ∧
        ((s.nodes peer).log.entries.take ((s.nodes id).peerStates peer).matchIndex).map
            LogEntry.command =
          ((s.nodes id).log.entries.take ((s.nodes id).peerStates peer).matchIndex).map
            LogEntry.command

/-! ## Actions that keep match indexes true -/

/-- A request that a node considers was built by a leader, and a leader counts a success only for a
request of its present term. -/
def Cluster.HearsLeaders (s : Cluster) : Action → Prop
  | .deliverAppend k =>
      match s.appendRequests[k]? with
      | some msg => (s.nodes msg.peer).Considers msg.args → msg.led = true
      | none => True
  | .deliverAppendReply k =>
      match s.appendReplies[k]? with
      | some (msg, reply) => reply.success = true →
          (s.nodes msg.args.leaderId).role = .leader →
          msg.args.term = (s.nodes msg.args.leaderId).ps.currentTerm
      | none => True
  | _ => True

theorem hearsLeaders_noReply {s : Cluster} {k : Nat} (h : s.appendReplies[k]? = none) :
    s.HearsLeaders (.deliverAppendReply k) := by
  simp [Cluster.HearsLeaders, h]

instance (s : Cluster) : (a : Action) → Decidable (s.HearsLeaders a)
  | .deliverAppend k =>
      match h : s.appendRequests[k]? with
      | some msg => decidable_of_iff ((s.nodes msg.peer).Considers msg.args → msg.led = true)
          (by simp [Cluster.HearsLeaders, h])
      | none => .isTrue (by simp [Cluster.HearsLeaders, h])
  | .deliverAppendReply k =>
      match h : s.appendReplies[k]? with
      | some (msg, reply) => decidable_of_iff (reply.success = true →
          (s.nodes msg.args.leaderId).role = .leader →
          msg.args.term = (s.nodes msg.args.leaderId).ps.currentTerm)
          (by simp [Cluster.HearsLeaders, h])
      | none => .isTrue (hearsLeaders_noReply h)
  | .startElection _ | .deliverVote _ | .collectVote _ _ | .loseVote _ _ | .decideElection _
  | .propose _ _ | .proposeAppend _ _ | .proposeEnd _ _ _ | .replicate _ _ | .sendAppend _ _
  | .readCommitted _ | .applyNext _ | .applyMiss _ | .restart _ => .isTrue trivial

/-- Besides, no entry gets a term that is not its own. -/
def Cluster.KeepsMatch (m : Members) (s : Cluster) (a : Action) : Prop :=
  s.KeepsTerms m a ∧ s.HearsLeaders a

instance (m : Members) (s : Cluster) (a : Action) : Decidable (s.KeepsMatch m a) :=
  inferInstanceAs (Decidable (_ ∧ _))

/-! ## Acknowledgements -/

/-- As long as the node is in the term, its log agrees with the log `l` of the term's leader up to an
index; and it has reached the term. -/
structure Node.Acked (n : Node) (l : List (Entry Bytes)) (T k : Nat) : Prop where
  bound : k ≤ l.length
  reached : T ≤ n.ps.currentTerm
  agrees : n.ps.currentTerm = T → n.log.view.take k = l.take k

namespace Node

variable {n n' : Node} {l l' : List (Entry Bytes)} {T k : Nat}

/-- An acknowledgement stays true when the leader's log grows and the node keeps what agrees. -/
theorem Acked.mono (h : n.Acked l T k) (hgrows : l <+: l')
    (hterm : n.ps.currentTerm ≤ n'.ps.currentTerm)
    (hkeeps : n.ps.currentTerm = T → n'.ps.currentTerm = T → n.log.view.take k = l.take k →
      n'.log.view.take k = l.take k) : n'.Acked l' T k where
  bound := h.bound.trans hgrows.length_le
  reached := h.reached.trans hterm
  agrees := by
    intro hsame
    have hbefore : n.ps.currentTerm = T := le_antisymm (hsame ▸ hterm) h.reached
    rw [Replication.take_of_prefix hgrows h.bound]
    exact hkeeps hbefore hsame (h.agrees hbefore)

theorem Acked.of_log (h : n.Acked l T k) (hgrows : l <+: l')
    (hterm : n.ps.currentTerm ≤ n'.ps.currentTerm) (hlog : n'.log = n.log) : n'.Acked l' T k :=
  h.mono hgrows hterm fun _ _ hagrees => hlog ▸ hagrees

end Node

/-- A request of the leader of its term: it follows an index of that leader's log. -/
def Led (L : Nat → List (Entry Bytes)) (args : AppendEntriesArgs) : Prop :=
  args.prevLogIndex ≤ (L args.term).length ∧
    Replication.termAt (L args.term) args.prevLogIndex = args.prevLogTerm

theorem Led.mono {L L' : Nat → List (Entry Bytes)} {args : AppendEntriesArgs} (h : Led L args)
    (hgrows : ∀ T, L T <+: L' T) : Led L' args where
  left := h.1.trans (hgrows _).length_le
  right := by
    rw [← h.2]
    exact Replication.termAt_of_take_eq (Replication.take_of_prefix (hgrows _) h.1) le_rfl

/-! ## Requests -/

/-- Whoever looks at a request follows its sender. -/
theorem Node.handleAppendEntries_leader {n : Node} {args : AppendEntriesArgs}
    (hleader : (n.handleAppendEntries args).1.role = .leader) :
    (n.handleAppendEntries args).1 = n := by
  have hfollows : ∀ (n : Node) (replyTerm : Nat),
      (n.followLeader replyTerm args).1.role = .follower := by
    intro n replyTerm
    rcases n.followLeader_eq replyTerm args with ⟨log, k, hnode⟩
    rw [hnode]
  unfold handleAppendEntries at hleader ⊢
  split_ifs at hleader ⊢
  · rfl
  · rw [hfollows] at hleader
    cases hleader
  · rw [hfollows] at hleader
    cases hleader

section Requests

variable {L : Nat → List (Entry Bytes)} {n : Node} {args : AppendEntriesArgs}

section Following

variable (hindexed : n.log.Indexed) (hlog : Matches L n.log.view)
  (hleader : Matches L (L args.term))
  (hled : args.prevLogIndex ≤ n.log.view.length → Led L args)
  (hsegment : args.prevLogIndex ≤ n.log.view.length →
    (0 < args.prevLogIndex → Replication.termAt n.log.view args.prevLogIndex = args.prevLogTerm) →
    Segment args.term (L args.term) args.prevLogIndex args.entries)

include hindexed hlog hleader hled hsegment

/-- A node that follows the leader of its term keeps all agreement with that leader's log, and
agrees with it to the end of the entries it takes. -/
theorem followLeader_agrees (replyTerm : Nat) :
    (∀ k, n.log.view.take k = (L args.term).take k →
      (n.followLeader replyTerm args).1.log.view.take k = (L args.term).take k) ∧
    ((n.followLeader replyTerm args).2.success = true →
      args.prevLogIndex + args.entries.length ≤ (L args.term).length ∧
        (n.followLeader replyTerm args).1.log.view.take
            (args.prevLogIndex + args.entries.length) =
          (L args.term).take (args.prevLogIndex + args.entries.length)) := by
  rcases Node.followLeader_cases hindexed replyTerm args with
    ⟨_, hnode, hfails⟩ | ⟨hpos, hle, hdiffers, hnode, hfails⟩ |
    ⟨hle, hprev, log, _, hview, hnode, _⟩
  · rw [hnode, hfails]
    exact ⟨fun k hk => hk, fun hsuccess => by cases hsuccess⟩
  · -- what agreed lies before the index where the terms differ
    rw [hnode, hfails]
    refine ⟨fun k hk => ?_, fun hsuccess => by cases hsuccess⟩
    have hcut := Replication.cut_keeps (i := args.prevLogIndex) ((hled hle).2 ▸ hdiffers) hk
    simpa [RaftLog.view, List.map_take] using hcut
  · have hseg := hsegment hle hprev
    have hsame : Replication.termAt n.log.view args.prevLogIndex =
        Replication.termAt (L args.term) args.prevLogIndex := by
      rcases Nat.eq_zero_or_pos args.prevLogIndex with hzero | hpos
      · rw [hzero]
        rfl
      · exact (hprev hpos).trans (hled hle).2.symm
    have htake := hlog.take_eq hleader hle (hled hle).1 hsame
    have hview' : (n.followLeader replyTerm args).1.log.view =
        Replication.splice args.term n.log.view args.prevLogIndex args.entries := by
      rw [hnode, Node.tryAdvanceCommit_eq]
      exact hview
    rw [hview']
    exact ⟨fun k hk => Replication.splice_keeps (hlog.follows _) hseg htake hk,
      fun _ => ⟨hseg.bound, Replication.splice_take (hlog.follows _) hseg htake⟩⟩

/-- In the term of the request, a node that follows keeps what it has acknowledged, and acknowledges
what it takes. -/
theorem followLeader_acked (hterm : n.ps.currentTerm = args.term) (replyTerm : Nat) :
    (∀ T k, n.Acked (L T) T k → (n.followLeader replyTerm args).1.Acked (L T) T k) ∧
    ((n.followLeader replyTerm args).2.success = true →
      (n.followLeader replyTerm args).1.Acked (L args.term) args.term
        (args.prevLogIndex + args.entries.length)) := by
  rcases followLeader_agrees hindexed hlog hleader hled hsegment replyTerm with ⟨hkeeps, htaken⟩
  have hsame : (n.followLeader replyTerm args).1.ps = n.ps := by
    rcases n.followLeader_eq replyTerm args with ⟨log, k, hnode⟩
    rw [hnode]
  constructor
  · intro T k h
    refine h.mono List.prefix_rfl (by rw [hsame]) fun hT _ hagrees => ?_
    obtain rfl : args.term = T := hterm.symm.trans hT
    exact hkeeps k hagrees
  · intro hsuccess
    exact ⟨(htaken hsuccess).1, by rw [hsame, hterm], fun _ => (htaken hsuccess).2⟩

end Following

theorem handleAppendEntries_acked (hindexed : n.log.Indexed) (hlog : Matches L n.log.view)
    (hleader : Matches L (L args.term)) (hled : n.Considers args → Led L args)
    (hsegment : n.Accepts args →
      Segment args.term (L args.term) args.prevLogIndex args.entries) :
    (∀ T k, n.Acked (L T) T k → (n.handleAppendEntries args).1.Acked (L T) T k) ∧
    ((n.handleAppendEntries args).2.success = true →
      (n.handleAppendEntries args).1.Acked (L args.term) args.term
        (args.prevLogIndex + args.entries.length)) := by
  -- the request is looked at if its term is not over
  have hconsiders : n.ps.currentTerm ≤ args.term → args.prevLogIndex ≤ n.log.view.length →
      n.Considers args := fun hterm hle => ⟨hterm, hindexed.lastIndex_eq ▸ hle⟩
  have haccepts : n.ps.currentTerm ≤ args.term → args.prevLogIndex ≤ n.log.view.length →
      (0 < args.prevLogIndex →
        Replication.termAt n.log.view args.prevLogIndex = args.prevLogTerm) →
      n.Accepts args := fun hterm hle hprev =>
    ⟨hconsiders hterm hle, fun hpos => (hindexed.termAt_eq _).trans (hprev hpos)⟩
  unfold Node.handleAppendEntries
  split_ifs with hlow hhigh
  · exact ⟨fun T k h => h, fun hsuccess => by cases hsuccess⟩
  · rcases @followLeader_acked L (n.becomeFollower args.term) args hindexed hlog hleader
      (fun hle => hled (hconsiders hhigh.le hle))
      (fun hle hprev => hsegment (haccepts hhigh.le hle hprev)) rfl n.ps.currentTerm with
      ⟨hkeeps, htaken⟩
    refine ⟨fun T k h => hkeeps T k (h.of_log List.prefix_rfl hhigh.le rfl), htaken⟩
  · have hterm : n.ps.currentTerm = args.term := by omega
    exact followLeader_acked hindexed hlog hleader
      (fun hle => hled (hconsiders hterm.le hle))
      (fun hle hprev => hsegment (haccepts hterm.le hle hprev)) hterm n.ps.currentTerm

end Requests

/-! ## The invariant -/

/-- Leaders ask for indexes within their logs and count what was acknowledged in their term; requests
that leaders built are of their logs; and a reply of success is an acknowledgement. -/
structure MatchInv (s : Cluster) (L : Nat → List (Entry Bytes)) : Prop where
  next : ∀ id, (s.nodes id).role = .leader → ∀ peer,
    ((s.nodes id).peerStates peer).nextIndex ≤ (s.nodes id).log.view.length + 1
  matched : ∀ id, (s.nodes id).role = .leader → ∀ peer,
    ((s.nodes id).peerStates peer).matchIndex = 0 ∨
      (s.nodes peer).Acked (L (s.nodes id).ps.currentTerm) (s.nodes id).ps.currentTerm
        ((s.nodes id).peerStates peer).matchIndex
  sent : ∀ msg ∈ s.appendRequests, msg.led = true → Led L msg.args
  replied : ∀ p ∈ s.appendReplies, p.2.success = true →
    (s.nodes p.1.peer).Acked (L p.1.args.term) p.1.args.term
      (p.1.args.prevLogIndex + p.1.args.entries.length)

section Steps

variable {m : Members} {s s' : Cluster} {L L' : Nat → List (Entry Bytes)} {id : Bytes} {n' : Node}

theorem matchInv_init (m : Members) (L : Nat → List (Entry Bytes)) :
    MatchInv (Cluster.init m) L := by
  constructor <;> simp [Cluster.init]

/-- One node moves on, and the logs of leaders grow. -/
theorem MatchInv.setNode (h : MatchInv s L) (hgrows : ∀ T, L T <+: L' T)
    (hacked : ∀ T k, (s.nodes id).Acked (L T) T k → n'.Acked (L' T) T k)
    (hleads : n'.role = .leader → ∀ peer,
      (n'.peerStates peer).nextIndex ≤ n'.log.view.length + 1 ∧
        ((n'.peerStates peer).matchIndex = 0 ∨
          (s.nodes peer).Acked (L n'.ps.currentTerm) n'.ps.currentTerm
            (n'.peerStates peer).matchIndex)) :
    MatchInv (s.setNode id n') L' := by
  have hall : ∀ {x T k}, (s.nodes x).Acked (L T) T k →
      ((s.setNode id n').nodes x).Acked (L' T) T k := by
    intro x T k hx
    rcases eq_or_ne x id with rfl | hne
    · rw [setNode_self]
      exact hacked T k hx
    · rw [setNode_ne hne]
      exact hx.of_log (hgrows T) le_rfl rfl
  refine ⟨fun x => ?_, fun x => ?_, fun msg hmsg hled => ?_, fun p hp hsuccess => ?_⟩
  · rcases eq_or_ne x id with rfl | hne
    · rw [setNode_self]
      exact fun hleader peer => (hleads hleader peer).1
    · rw [setNode_ne hne]
      exact h.next x
  · rcases eq_or_ne x id with rfl | hne
    · rw [setNode_self]
      exact fun hleader peer => (hleads hleader peer).2.imp_right hall
    · rw [setNode_ne hne]
      exact fun hleader peer => (h.matched x hleader peer).imp_right hall
  · exact (h.sent msg hmsg hled).mono hgrows
  · exact hall (h.replied p hp hsuccess)

theorem MatchInv.steady (h : MatchInv s L) (hgrows : ∀ T, L T <+: L' T)
    (hn : Steady (s.nodes id) n') : MatchInv (s.setNode id n') L' := by
  refine h.setNode hgrows (fun T k hacked => hacked.of_log (hgrows T) hn.term hn.log) ?_
  intro hleader peer
  rcases hn.leads hleader with ⟨hrole, hterm⟩
  rw [hn.peerStates, hn.log, hterm]
  exact ⟨h.next id hrole peer, h.matched id hrole peer⟩

theorem MatchInv.proposeAppend (h : MatchInv s L) (hgrows : ∀ T, L T <+: L' T)
    (hindexed : (s.nodes id).log.Indexed) (command : Bytes) :
    MatchInv (s.setNode id ((s.nodes id).proposeAppend command)) L' := by
  have hview : ((s.nodes id).proposeAppend command).log.view =
      (s.nodes id).log.view ++ [⟨(s.nodes id).ps.currentTerm, command⟩] := by
    simp [Node.proposeAppend, hindexed.append_eq, RaftLog.view]
  refine h.setNode hgrows (fun T k hacked => ?_) fun hleader peer => ?_
  · refine hacked.mono (hgrows T) le_rfl fun _ _ hagrees => ?_
    have hle := Replication.le_length_of_take_eq hagrees hacked.bound
    rw [hview, Replication.take_append_of_le hle, hagrees]
  · refine ⟨?_, h.matched id hleader peer⟩
    rw [hview, List.length_append]
    exact (h.next id hleader peer).trans (Nat.add_le_add_right (Nat.le_add_right _ _) 1)

/-- A leader counts an acknowledgement of its term, or backs off. -/
theorem MatchInv.handleAppendReply (h : MatchInv s L) (hgrows : ∀ T, L T <+: L' T) {peer : Bytes}
    {args : AppendEntriesArgs} {reply : AppendEntriesReply}
    (hled : (s.nodes id).role = .leader →
      L (s.nodes id).ps.currentTerm = (s.nodes id).log.view)
    (hacked : reply.success = true → (s.nodes peer).Acked (L args.term) args.term
      (args.prevLogIndex + args.entries.length))
    (hterm : reply.success = true → (s.nodes id).role = .leader →
      args.term = (s.nodes id).ps.currentTerm) :
    MatchInv (s.setNode id ((s.nodes id).handleAppendReply peer args reply)) L' := by
  -- what is known of the other peers stays
  have hmoved : ∀ (ps : PeerState) (c : Nat), ((s.nodes id).role = .leader →
      ps.nextIndex ≤ (s.nodes id).log.view.length + 1 ∧ (ps.matchIndex = 0 ∨
        (s.nodes peer).Acked (L (s.nodes id).ps.currentTerm) (s.nodes id).ps.currentTerm
          ps.matchIndex)) →
      MatchInv (s.setNode id { s.nodes id with
        peerStates := update (s.nodes id).peerStates peer ps
        committedIndex := c }) L' := by
    intro ps c hps
    refine h.setNode hgrows (fun T k hk => hk.of_log (hgrows T) le_rfl rfl) fun hleader x => ?_
    rcases eq_or_ne x peer with rfl | hne
    · simpa using hps hleader
    · simpa [hne] using And.intro (h.next id hleader x) (h.matched id hleader x)
  unfold Node.handleAppendReply
  dsimp only
  split_ifs with hhigh hsuccess hback
  · exact h.steady hgrows (.becomeFollower hhigh.le)
  · rw [Node.tryAdvanceCommit_eq]
    refine hmoved _ _ fun hleader => ?_
    have hcounted := hterm hsuccess hleader ▸ hacked hsuccess
    refine ⟨?_, .inr hcounted⟩
    have hbound := hcounted.bound
    rw [hled hleader] at hbound
    exact Nat.succ_le_succ hbound
  · refine hmoved _ (s.nodes id).committedIndex fun hleader => ?_
    exact ⟨(Nat.sub_le _ _).trans (h.next id hleader peer), h.matched id hleader peer⟩
  · exact h.steady hgrows (.of_same rfl rfl rfl rfl rfl rfl)

theorem MatchInv.sendAppend (h : MatchInv s L) (hgrows : ∀ T, L T <+: L' T)
    (hindexed : (s.nodes id).log.Indexed)
    (hled : (s.nodes id).role = .leader →
      L (s.nodes id).ps.currentTerm = (s.nodes id).log.view)
    (peer : Bytes) (replicating : List Bytes) :
    MatchInv { s.setNode id { s.nodes id with replicating } with
      appendRequests := s.appendRequests ++
        [{ peer
           args := ((s.nodes id).replicateArgs peer).1
           sources := ((s.nodes id).replicateArgs peer).2
           led := decide ((s.nodes id).role = .leader) }] } L' := by
  have hset : MatchInv (s.setNode id { s.nodes id with replicating }) L' :=
    h.steady hgrows (.of_same rfl rfl rfl rfl rfl rfl)
  refine { hset with sent := fun msg hmsg hmsgled => ?_ }
  rcases List.mem_append.1 hmsg with hold | hnew
  · exact hset.sent msg hold hmsgled
  · -- the next index is at most one past the end of the leader's log
    rw [List.mem_singleton.1 hnew] at hmsgled ⊢
    have hleader := of_decide_eq_true hmsgled
    have hnext := h.next id hleader peer
    have hargs : Led L ((s.nodes id).replicateArgs peer).1 := by
      refine ⟨?_, ?_⟩
      · simp only [Node.replicateArgs, hled hleader]
        omega
      · simp only [Node.replicateArgs, hled hleader, hindexed.termAt_eq]
    exact hargs.mono hgrows

theorem MatchInv.deliverAppend (h : MatchInv s L) (hlogs : LogsInv s L) {msg : AppendMessage}
    (hmsg : msg ∈ s.appendRequests)
    (hhears : (s.nodes msg.peer).Considers msg.args → msg.led = true)
    (hterms : (s.nodes msg.peer).Accepts msg.args → ∀ e ∈ msg.sources, e.term = msg.args.term)
    (hgrows : ∀ T, L T <+: L' T) :
    MatchInv { s.setNode msg.peer ((s.nodes msg.peer).handleAppendEntries msg.args).1 with
      appendReplies := s.appendReplies ++
        [(msg, ((s.nodes msg.peer).handleAppendEntries msg.args).2)] } L' := by
  have hn := hlogs.nodes msg.peer
  have hled : (s.nodes msg.peer).Considers msg.args → Led L msg.args :=
    fun hconsiders => h.sent msg hmsg (hhears hconsiders)
  -- what is accepted is a part of the log of the term's leader
  have hsegment : (s.nodes msg.peer).Accepts msg.args →
      Segment msg.args.term (L msg.args.term) msg.args.prevLogIndex msg.args.entries := by
    intro haccepts
    rcases eq_or_ne msg.sources [] with hnil | hne
    · have hempty : msg.args.entries = [] := by rw [hlogs.commands msg hmsg, hnil, List.map_nil]
      rw [hempty]
      exact ⟨(hled haccepts.1).1, rfl⟩
    · exact (hlogs.sent msg hmsg hne (hterms haccepts)).1
  rcases handleAppendEntries_acked hn.indexed hn.log (hlogs.leaderLog _) hled hsegment with
    ⟨hkeeps, htaken⟩
  have hset : MatchInv (s.setNode msg.peer
      ((s.nodes msg.peer).handleAppendEntries msg.args).1) L' := by
    refine h.setNode hgrows
      (fun T k hacked => (hkeeps T k hacked).of_log (hgrows T) le_rfl rfl) fun hleader => ?_
    -- a node that leads afterwards has not looked at the request
    have hsame := Node.handleAppendEntries_leader hleader
    rw [hsame] at hleader ⊢
    exact fun peer => ⟨h.next _ hleader peer, h.matched _ hleader peer⟩
  refine { hset with replied := fun p hp hsuccess => ?_ }
  rcases List.mem_append.1 hp with hold | hnew
  · exact hset.replied p hold hsuccess
  · rw [List.mem_singleton.1 hnew] at hsuccess ⊢
    have hacked := (htaken hsuccess).of_log (hgrows _) le_rfl rfl
    simpa only [setNode_self] using hacked

/-- Every action that meets the conditions keeps the invariant. -/
theorem MatchInv.step (h : MatchInv s L) (hlogs : LogsInv s L) (hgrows : ∀ T, L T <+: L' T)
    {a : Action} (hload : ∀ id, a = .restart id →
      PersistentState.load (s.nodes id).stateFile = (s.nodes id).ps)
    (hkeeps : s.KeepsMatch m a) (hstep : s.step m a = some s') : MatchInv s' L' := by
  have hsteady : ∀ {id n'}, Steady (s.nodes id) n' → MatchInv (s.setNode id n') L' :=
    fun hn => h.steady hgrows hn
  rcases hkeeps with ⟨hterms, hhears⟩
  cases Cluster.transition_of_step hstep with
  | @startElection id _ _ _ =>
      have hset := hsteady (.startElection (s.nodes id))
      exact { hset with }
  | @deliverVote k id args _ =>
      have hset := hsteady (.handleRequestVote (s.nodes id) args)
      exact { hset with }
  | collectVote _ _ _ _ => exact hsteady (.collectVote _ _ _ _)
  | loseVote _ => exact hsteady (.collectVote _ _ _ _)
  | endElection _ _ => exact hsteady (.of_same rfl rfl rfl rfl rfl rfl)
  | @winElection id e _ _ _ =>
      -- a new leader knows nothing of its peers
      have hset : MatchInv (s.setNode id
          { s.nodes id with
            role := .leader
            leaderId := (s.nodes id).nodeId
            peerStates := fun _ =>
              { nextIndex := (s.nodes id).log.lastIndex + 1, matchIndex := 0 }
            election := none }) L' := by
        refine h.setNode hgrows (fun T k hk => hk.of_log (hgrows T) le_rfl rfl) fun _ peer => ?_
        exact ⟨by rw [(hlogs.nodes id).indexed.lastIndex_eq], .inl rfl⟩
      exact { hset with }
  | loseElection _ _ => exact hsteady (.loseElection _)
  | propose _ => exact hsteady (.of_same rfl rfl rfl rfl rfl rfl)
  | @proposeAppend id command _ => exact h.proposeAppend hgrows (hlogs.nodes id).indexed command
  | proposeEnd _ => exact hsteady (.of_same rfl rfl rfl rfl rfl rfl)
  | replicate _ _ => exact hsteady (.of_same rfl rfl rfl rfl rfl rfl)
  | @sendAppend id peer _ =>
      exact h.sendAppend hgrows (hlogs.nodes id).indexed
        (fun hleader => ((hlogs.nodes id).leads hleader).2) peer _
  | @deliverAppend k msg hget =>
      simp only [Cluster.KeepsTerms, hget] at hterms
      simp only [Cluster.HearsLeaders, hget] at hhears
      exact h.deliverAppend hlogs (List.mem_of_getElem? hget) hhears hterms hgrows
  | @deliverAppendReply k msg reply hget =>
      simp only [Cluster.HearsLeaders, hget] at hhears
      exact h.handleAppendReply hgrows (fun hleader => ((hlogs.nodes _).leads hleader).2)
        (h.replied _ (List.mem_of_getElem? hget)) hhears
  | readCommitted _ => exact hsteady (.of_same rfl rfl rfl rfl rfl rfl)
  | applyNext _ _ => exact hsteady (.applyEntry _ _ _ _)
  | applyMiss _ _ => exact hsteady (.applyEntry _ _ _ _)
  | @restart id _ =>
      -- the state file has the term, and the node follows
      have hterm : (s.nodes id).restart.ps.currentTerm = (s.nodes id).ps.currentTerm := by
        simp only [Node.restart, hload id rfl]
      exact h.setNode hgrows (fun T k hk => hk.of_log (hgrows T) hterm.ge rfl)
        fun hleader => by cases hleader

/-- What a leader has counted is there. -/
theorem MatchInv.matchSound (h : MatchInv s L) (hlogs : LogsInv s L) : s.MatchSound := by
  intro id hleader peer _ hterm
  rcases h.matched id hleader peer with hzero | hacked
  · simp [hzero]
  · have hagrees := hacked.agrees (le_antisymm hterm hacked.reached)
    have hle := Replication.le_length_of_take_eq hagrees hacked.bound
    rw [((hlogs.nodes id).leads hleader).2] at hagrees
    have hcommands := congrArg (List.map Entry.command) hagrees
    refine ⟨by simpa using hle, ?_⟩
    simpa [RaftLog.view, List.map_take, Function.comp_def] using hcommands

end Steps

/-! ## Every run -/

section Runs

variable {m : Members} {s : Cluster}

/-- In every run that meets the conditions, the match indexes of leaders are true. -/
theorem matchSound_of_keepsMatch (hnamed : ∀ id ∈ m.ids, id ≠ [])
    (h : Reach (Cluster.step m) (Cluster.KeepsMatch m) (Cluster.init m) s) : s.MatchSound := by
  have hinv : ∃ L, LogsInv s L ∧ MatchInv s L := by
    refine Reach.invariant (P := fun s => ∃ L, LogsInv s L ∧ MatchInv s L)
      ⟨_, logsInv_init m, matchInv_init m _⟩ ?_ h
    rintro s s' a hs ⟨L, hlogs, hmatch⟩ hkeeps hstep
    have hvotes := votes_of_reach hnamed (hs.mono fun hok => restartable_of_keepsTerms hok.1)
    rcases hlogs.step hvotes.1 hkeeps.1 hstep with ⟨L', hlogs', hgrows⟩
    refine ⟨L', hlogs', hmatch.step hlogs hgrows (fun id hrestart => ?_) hkeeps hstep⟩
    subst hrestart
    exact (hvotes.2 hkeeps.1 id).load
  rcases hinv with ⟨L, hlogs, hmatch⟩
  exact hmatch.matchSound hlogs

end Runs

/-! ### Two runs -/

namespace MatchExample

open Trio SafetyExample

/-- Two leaders, one after the other, each of which commits a command. -/
def counted : Option Cluster :=
  run (Cluster.step trio) (Cluster.KeepsMatch trio) (Cluster.init trio) steady

theorem counted_isSome : counted.isSome = true := by
  decide +kernel

/-- `a` leads term 1 and proposes `x`, hears of term 2 from `b`, and leads term 3.  It sends a
heartbeat that asks for term 1 at index 1, and then `x`, which `b` writes under term 3 and
acknowledges; the heartbeat arrives afterwards. -/
def dropped : List Action :=
  elect a c 0 0 ++ [.propose a (bytes "x"), .proposeAppend a (bytes "x")] ++
    [.startElection b, .deliverVote 2, .loseVote b a, .loseVote b c, .decideElection b] ++
    elect a c 4 2 ++
    [.replicate a b, .sendAppend a b, .replicate a b, .sendAppend a b, .deliverAppend 1,
      .deliverAppendReply 0, .replicate a b, .sendAppend a b, .deliverAppend 2,
      .deliverAppendReply 1, .deliverAppend 0]

def droppedOutcome : Option Cluster :=
  run (Cluster.step trio) (fun _ _ => True) (Cluster.init trio) dropped

theorem droppedOutcome_isSome : droppedOutcome.isSome = true := by
  decide +kernel

end MatchExample

open MatchExample SafetyExample Trio in
theorem matchSound_of_keepsMatch_steady : (counted.get counted_isSome).MatchSound :=
  matchSound_of_keepsMatch (by decide) (reach_of_run (Option.some_get counted_isSome).symm)

open MatchExample Trio in
/-- A follower can drop what it has acknowledged to the leader it still follows. -/
theorem matchSound_fails_dropped :
    ∃ s, Reach (Cluster.step trio) (fun _ _ => True) (Cluster.init trio) s ∧ ¬ s.MatchSound := by
  refine ⟨_, reach_of_run (Option.some_get droppedOutcome_isSome).symm, fun hsound => ?_⟩
  have hleader : ((droppedOutcome.get droppedOutcome_isSome).nodes a).role = .leader := by
    decide +kernel
  have hpeer : b ∈ ((droppedOutcome.get droppedOutcome_isSome).nodes a).peers := by
    decide +kernel
  have hterm : ((droppedOutcome.get droppedOutcome_isSome).nodes b).ps.currentTerm ≤
      ((droppedOutcome.get droppedOutcome_isSome).nodes a).ps.currentTerm := by
    decide +kernel
  have hmatch : (((droppedOutcome.get droppedOutcome_isSome).nodes a).peerStates b).matchIndex = 1 := by
    decide +kernel
  have hempty : ((droppedOutcome.get droppedOutcome_isSome).nodes b).log.entries = [] := by
    decide +kernel
  have hreaches := (hsound a hleader b hpeer hterm).1
  rw [hmatch, hempty] at hreaches
  exact absurd hreaches (by decide)

end Raft
end ControlDB
