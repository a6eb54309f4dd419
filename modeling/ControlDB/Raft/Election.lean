import ControlDB.Raft.Cluster

/-!
# Election safety

At most one node becomes leader in a term.  A candidate that loses clears its vote and may then vote
again in the term it stood in, so a node can support two candidates; but its own candidacy is
over by then, and it grants at most one vote to another node in a term.
-/

namespace ControlDB
namespace Raft

open Library
open Function (update)

/-! ## The state file -/

theorem isSpace_of_isDigit {b : UInt8} (h : isDigit b = true) : isSpace b = false := by
  simp only [isDigit, Bool.and_eq_true, decide_eq_true_eq] at h
  rcases h with ⟨hlo, _⟩
  have hne : b ≠ 0x20 := by
    rintro rfl
    revert hlo
    decide
  have hnot : ¬ b ≤ 0x0d := fun hle => absurd (UInt8.le_trans hlo hle) (by decide)
  simp [isSpace, hne, hnot]

theorem isDigit_of_mem_decimal {k : Nat} {b : UInt8} (h : b ∈ decimal k) : isDigit b = true := by
  rcases Library.isDigit_of_mem_decimal h with ⟨hlo, hhi⟩
  simp [isDigit, hlo, hhi]

/-- What is loaded from a saved state: the term, and the first word of the vote. -/
theorem PersistentState.load_saved (ps : PersistentState) :
    load (some ps.save) =
      { ps with votedFor := (ps.votedFor.dropWhile isSpace).takeWhile fun b => !isSpace b } := by
  have hdigits : ∀ b ∈ decimal ps.currentTerm, isDigit b = true := fun b hb =>
    isDigit_of_mem_decimal hb
  have hstart : ps.save.dropWhile isSpace = ps.save := by
    rcases hdecimal : decimal ps.currentTerm with _ | ⟨d, rest⟩
    · exact absurd hdecimal (decimal_ne_nil _)
    · have hd := isSpace_of_isDigit (hdigits d (by simp [hdecimal]))
      simp [save, hdecimal, hd]
  have hnewline : isDigit 0x0a = false := by decide
  have htake : ps.save.takeWhile isDigit = decimal ps.currentTerm := by
    unfold save
    rw [List.append_assoc, List.takeWhile_append_of_pos hdigits]
    simp [hnewline]
  have hdrop : ps.save.dropWhile isDigit = 0x0a :: ps.votedFor ++ [0x0a] := by
    unfold save
    rw [List.append_assoc, List.dropWhile_append_of_pos hdigits]
    simp [hnewline]
  have hblank : isSpace 0x0a = true := by decide
  -- the blanks before the vote are skipped, and the newline after it ends its last word
  have hrest : ((0x0a :: ps.votedFor ++ [0x0a]).dropWhile isSpace).takeWhile
      (fun b => !isSpace b) =
        (ps.votedFor.dropWhile isSpace).takeWhile fun b => !isSpace b := by
    have hword : ∀ l : Bytes, ((l ++ [0x0a]).dropWhile isSpace).takeWhile (fun b => !isSpace b) =
        (l.dropWhile isSpace).takeWhile fun b => !isSpace b := by
      intro l
      rw [List.dropWhile_append]
      split_ifs with hempty
      · simp [List.isEmpty_iff.1 hempty, hblank]
      · rw [List.takeWhile_append]
        split_ifs with hall
        · rw [((List.takeWhile_prefix _).eq_of_length hall)]
          simp [hblank]
        · rfl
    simpa [hblank] using hword ps.votedFor
  simp only [load, hstart, htake, hdrop, hrest, ofDecimal_decimal, if_neg (decimal_ne_nil _)]

/-- What is saved is loaded again, if the vote is for an id without blanks. -/
theorem PersistentState.load_save (ps : PersistentState)
    (hvote : ∀ b ∈ ps.votedFor, isSpace b = false) : load (some ps.save) = ps := by
  have hword : ∀ b ∈ ps.votedFor, (!isSpace b) = true := fun b hb => by simp [hvote b hb]
  have hstart : ps.votedFor.dropWhile isSpace = ps.votedFor := by
    rcases hvoted : ps.votedFor with _ | ⟨c, cs⟩
    · rfl
    · simp [hvote c (by simp [hvoted])]
  rw [load_saved, hstart, List.takeWhile_eq_self_iff.2 hword]

/-! ## Members -/

theorem Members.mem_peersOf {m : Members} {id peer : Bytes} :
    peer ∈ m.peersOf id ↔ peer ∈ m.ids ∧ peer ≠ id := by
  simp [peersOf]

theorem Members.nodup_peersOf (m : Members) (id : Bytes) : (m.peersOf id).Nodup :=
  m.nodup.filter _

theorem Members.length_peersOf {m : Members} {id : Bytes} (hid : id ∈ m.ids) :
    (m.peersOf id).length + 1 = m.ids.length := by
  have herase : m.peersOf id = m.ids.erase id := by
    rw [peersOf, m.nodup.erase_eq_filter]
    exact List.filter_congr fun peer _ => by by_cases h : peer = id <;> simp [bne, h]
  rw [herase, List.length_erase_add_one hid]

def Members.nodes (m : Members) : Finset Bytes :=
  m.ids.toFinset

theorem Members.card_nodes (m : Members) : m.nodes.card = m.ids.length :=
  List.toFinset_card_of_nodup m.nodup

/-! ## Steps that neither vote nor stand -/

/-- The node keeps its term and vote, or it follows in a higher term without a vote yet; an election
that goes on has the votes it had. -/
structure Calm (n n' : Node) : Prop where
  nodeId : n'.nodeId = n.nodeId
  peers : n'.peers = n.peers
  election : ∀ e', n'.election = some e' → ∃ e, n.election = some e ∧
    e'.awaited.Sublist e.awaited ∧ e' = { e with awaited := e'.awaited }
  standing : n'.role = .candidate → n.election ≠ none → n'.election ≠ none
  state : (n'.ps = n.ps ∧ (n'.role = n.role ∨ n'.role = .follower)) ∨
    (n.ps.currentTerm < n'.ps.currentTerm ∧ n'.ps.votedFor = [] ∧ n'.role = .follower)

namespace Calm

variable {n n' n'' : Node}

/-- Only the fields that voting does not look at differ. -/
theorem of_same (hid : n'.nodeId = n.nodeId) (hpeers : n'.peers = n.peers)
    (helection : n'.election = n.election) (hps : n'.ps = n.ps)
    (hrole : n'.role = n.role ∨ n'.role = .follower) : Calm n n' where
  nodeId := hid
  peers := hpeers
  election := by
    intro e' he'
    exact ⟨e', helection ▸ he', List.Sublist.refl _, rfl⟩
  standing := by
    intro _ hsome
    rwa [helection]
  state := .inl ⟨hps, hrole⟩

theorem refl (n : Node) : Calm n n :=
  of_same rfl rfl rfl rfl (.inl rfl)

theorem trans (h : Calm n n') (h' : Calm n' n'') : Calm n n'' where
  nodeId := h'.nodeId.trans h.nodeId
  peers := h'.peers.trans h.peers
  election := by
    intro e'' he''
    rcases h'.election e'' he'' with ⟨e', he', hsub', hsame'⟩
    rcases h.election e' he' with ⟨e, he, hsub, hsame⟩
    refine ⟨e, he, hsub'.trans hsub, ?_⟩
    rw [hsame', hsame]
  standing := by
    intro hrole hsome
    rcases h'.state with ⟨_, hsame | hfollower⟩ | ⟨_, _, hfollower⟩
    · exact h'.standing hrole (h.standing (hsame ▸ hrole) hsome)
    · simp [hfollower] at hrole
    · simp [hfollower] at hrole
  state := by
    -- either term was raised, or neither and the vote stays
    rcases h'.state with ⟨hps', hrole'⟩ | ⟨hterm', hvote', hrole'⟩
    · rcases h.state with ⟨hps, hrole⟩ | ⟨hterm, hvote, hrole⟩
      · refine .inl ⟨hps'.trans hps, ?_⟩
        rcases hrole' with hsame | hfollower
        · rwa [hsame]
        · exact .inr hfollower
      · refine .inr ⟨by rwa [hps'], by rwa [hps'], ?_⟩
        rcases hrole' with hsame | hfollower
        · rwa [hsame]
        · exact hfollower
    · have hle : n.ps.currentTerm ≤ n'.ps.currentTerm := by
        rcases h.state with ⟨hps, _⟩ | ⟨hterm, _⟩
        · exact hps ▸ le_rfl
        · exact hterm.le
      exact .inr ⟨by omega, hvote', hrole'⟩

theorem term_le (h : Calm n n') : n.ps.currentTerm ≤ n'.ps.currentTerm := by
  rcases h.state with ⟨hps, _⟩ | ⟨hterm, _⟩
  · exact hps ▸ le_rfl
  · exact hterm.le

end Calm

namespace Node

variable (n : Node)

theorem becomeFollower_calm {term : Nat} (h : n.ps.currentTerm < term) :
    Calm n (n.becomeFollower term) where
  nodeId := rfl
  peers := rfl
  election := fun e' he' => ⟨e', he', List.Sublist.refl _, rfl⟩
  standing := fun _ hsome => hsome
  state := .inr ⟨h, rfl, rfl⟩

theorem followLeader_calm (replyTerm : Nat) (args : AppendEntriesArgs) :
    Calm n (n.followLeader replyTerm args).1 := by
  rcases n.followLeader_eq replyTerm args with ⟨log, k, heq⟩
  rw [heq]
  exact .of_same rfl rfl rfl rfl (.inr rfl)

theorem handleAppendEntries_calm (args : AppendEntriesArgs) :
    Calm n (n.handleAppendEntries args).1 := by
  unfold handleAppendEntries
  split_ifs with hlow hhigh
  · exact .refl n
  · exact (n.becomeFollower_calm hhigh).trans (followLeader_calm _ _ _)
  · exact followLeader_calm _ _ _

theorem handleAppendReply_calm (peer : Bytes) (args : AppendEntriesArgs)
    (reply : AppendEntriesReply) : Calm n (n.handleAppendReply peer args reply) := by
  unfold handleAppendReply
  dsimp only
  split_ifs with hhigh hsuccess hback
  · exact n.becomeFollower_calm hhigh
  · rw [tryAdvanceCommit_eq]
    exact .of_same rfl rfl rfl rfl (.inl rfl)
  · exact .of_same rfl rfl rfl rfl (.inl rfl)
  · exact .refl n

theorem restart_calm (hload : PersistentState.load n.stateFile = n.ps) : Calm n n.restart where
  nodeId := rfl
  peers := rfl
  election := fun e' he' => by simp [restart] at he'
  standing := fun hrole => by simp [restart] at hrole
  state := .inl ⟨hload, .inr rfl⟩

/-- An election that counts no vote. -/
theorem awaited_erase_calm {e : Election} (helection : n.election = some e) (peer : Bytes) :
    Calm n { n with election := some { e with awaited := e.awaited.erase peer } } where
  nodeId := rfl
  peers := rfl
  election := by
    rintro e' ⟨rfl⟩
    exact ⟨e, helection, List.erase_sublist, rfl⟩
  standing := fun _ _ => by simp
  state := .inl ⟨rfl, .inl rfl⟩

/-- A vote thread counts a vote that was granted in the node's term or an earlier one, or none. -/
theorem collectVote_cases {e : Election} (helection : n.election = some e) (peer : Bytes)
    (reply : Option RequestVoteReply) :
    Calm n (n.collectVote e peer reply) ∨
    (∃ r, reply = some r ∧ r.voteGranted = true ∧ n.collectVote e peer reply =
      { n with
        election := some { e with votes := e.votes + 1, awaited := e.awaited.erase peer } }) := by
  cases reply with
  | none => exact .inl (n.awaited_erase_calm helection peer)
  | some r =>
      unfold collectVote
      dsimp only
      -- a higher term ends the candidacy, whatever the vote
      split_ifs with hhigh hgranted
      · have hfollower := n.becomeFollower_calm hhigh
        exact .inl (hfollower.trans ((n.becomeFollower r.term).awaited_erase_calm helection peer))
      · exact .inr ⟨r, rfl, hgranted, rfl⟩
      · exact .inl (n.awaited_erase_calm helection peer)

/-- The node as it was, or a follower in the higher term it has heard of. -/
def Raised (n : Node) (term : Nat) (n₁ : Node) : Prop :=
  n₁ = n ∨ n.ps.currentTerm < term ∧ n₁ = n.becomeFollower term

theorem Raised.calm {n n₁ : Node} {term : Nat} (h : n.Raised term n₁) : Calm n n₁ := by
  rcases h with rfl | ⟨hlt, rfl⟩
  · exact .refl _
  · exact n.becomeFollower_calm hlt

/-- `handle_request_vote` raises the term if it must, and then refuses or grants. -/
theorem handleRequestVote_cases (args : RequestVoteArgs) :
    ∃ n₁, n.Raised args.term n₁ ∧
      ((n.handleRequestVote args).1 = n₁ ∧ (n.handleRequestVote args).2.voteGranted = false ∨
        n₁.ps.currentTerm = args.term ∧
        (n₁.ps.votedFor = [] ∨ n₁.ps.votedFor = args.candidateId) ∧
        n₁.log.isUpToDate args.lastLogTerm args.lastLogIndex = true ∧
        (n.handleRequestVote args).1 =
          persist { n₁ with ps := { n₁.ps with votedFor := args.candidateId } }) := by
  rcases hraised : (if args.term > n.ps.currentTerm then n.becomeFollower args.term else n) with n₁
  -- the term is caught up with before the vote is considered
  have hfirst : n.Raised args.term n₁ ∧
      (¬ args.term < n₁.ps.currentTerm → n₁.ps.currentTerm = args.term) := by
    rw [← hraised]
    split_ifs with hhigh
    · exact ⟨.inr ⟨hhigh, rfl⟩, fun _ => rfl⟩
    · exact ⟨.inl rfl, fun hlow => by omega⟩
  refine ⟨n₁, hfirst.1, ?_⟩
  unfold handleRequestVote tryGrantVote
  simp only [hraised]
  split_ifs with hlow hother hstale
  · exact .inl ⟨rfl, rfl⟩
  · exact .inl ⟨rfl, rfl⟩
  · exact .inl ⟨rfl, rfl⟩
  · refine .inr ⟨hfirst.2 hlow, ?_, ?_, rfl⟩
    · rcases eq_or_ne n₁.ps.votedFor [] with hnone | hvoted
      · exact .inl hnone
      · exact .inr (not_not.1 fun hne => hother ⟨hvoted, hne⟩)
    · simpa using hstale

end Node

/-! ## The invariant -/

namespace Cluster

def Granted (s : Cluster) (msg : VoteMessage) : Prop :=
  msg ∈ s.voteReplies ∧ msg.reply.voteGranted = true

/-- A majority of the members gave the node their vote in the term. -/
def Supported (m : Members) (s : Cluster) (T : Nat) (id : Bytes) : Prop :=
  ∃ Q, IsQuorum m.nodes Q ∧ ∀ v ∈ Q, v = id ∨ ∃ msg, s.Granted msg ∧ msg.voter = v ∧
    msg.args.candidateId = id ∧ msg.args.term = T

end Cluster

structure VoteInv (m : Members) (s : Cluster) : Prop where
  wired : ∀ id, (s.nodes id).nodeId = id ∧ (s.nodes id).peers = m.peersOf id
  request : ∀ peer args, (peer, args) ∈ s.voteRequests →
    args.candidateId ∈ m.ids ∧ peer ∈ m.peersOf args.candidateId
  granted : ∀ msg, s.Granted msg →
    msg.args.candidateId ∈ m.ids ∧ msg.voter ∈ m.peersOf msg.args.candidateId
  /-- A vote for another node stays until the term is over. -/
  lasting : ∀ msg, s.Granted msg → msg.args.term ≤ (s.nodes msg.voter).ps.currentTerm ∧
    (msg.args.term = (s.nodes msg.voter).ps.currentTerm →
      (s.nodes msg.voter).ps.votedFor = msg.args.candidateId)
  single : ∀ msg msg', s.Granted msg → s.Granted msg' → msg.voter = msg'.voter →
    msg.args.term = msg'.args.term → msg.args.candidateId = msg'.args.candidateId
  /-- The votes counted are granted ones, each of a peer that has been heard. -/
  counted : ∀ id e, (s.nodes id).election = some e → id ∈ m.ids ∧ e.awaited.Nodup ∧
    ∃ S : Finset Bytes, S.card + 1 = e.votes ∧ ∀ p ∈ S, p ∉ e.awaited ∧
      ∃ msg, s.Granted msg ∧ msg.voter = p ∧ msg.args = (s.nodes id).voteArgs e
  candidate : ∀ id, (s.nodes id).role = .candidate →
    (s.nodes id).ps.votedFor = id ∧ ((s.nodes id).ps.currentTerm, id) ∉ s.elected ∧
    ∃ e, (s.nodes id).election = some e ∧ e.term = (s.nodes id).ps.currentTerm
  /-- A leader has its own vote and gives none to others, in its term. -/
  elected : ∀ T id, (T, id) ∈ s.elected → T ≤ (s.nodes id).ps.currentTerm ∧
    (T = (s.nodes id).ps.currentTerm → (s.nodes id).ps.votedFor = id) ∧
    (∀ msg, s.Granted msg → msg.voter = id → msg.args.term ≠ T) ∧ s.Supported m T id
  distinct : s.elected.Pairwise fun won won' => won.1 ≠ won'.1

section Steps

variable {m : Members} {s : Cluster}

theorem setNode_self {id : Bytes} {n : Node} : (s.setNode id n).nodes id = n := by
  simp [Cluster.setNode]

theorem setNode_ne {id x : Bytes} {n : Node} (hne : x ≠ id) :
    (s.setNode id n).nodes x = s.nodes x := by
  simp [Cluster.setNode, hne]

theorem VoteInv.not_self (h : VoteInv m s) {msg : VoteMessage} (hmsg : s.Granted msg) :
    msg.args.candidateId ≠ msg.voter :=
  (Members.mem_peersOf.1 (h.granted msg hmsg).2).2.symm

/-- A node that has granted a vote in its term has no candidacy of its own. -/
theorem VoteInv.no_vote (h : VoteInv m s) {id : Bytes} (hvote : (s.nodes id).ps.votedFor = id)
    {msg : VoteMessage} (hmsg : s.Granted msg) (hvoter : msg.voter = id) :
    msg.args.term ≠ (s.nodes id).ps.currentTerm := by
  intro hterm
  subst hvoter
  exact h.not_self hmsg (((h.lasting msg hmsg).2 hterm).symm.trans hvote)

theorem voteInv_init (m : Members) : VoteInv m (Cluster.init m) := by
  constructor <;> simp [Cluster.init, Cluster.Granted]

/-- Calm steps of one node. -/
theorem VoteInv.calm (h : VoteInv m s) {id : Bytes} {n' : Node} (hcalm : Calm (s.nodes id) n') :
    VoteInv m (s.setNode id n') := by
  have hterm : ∀ x, (s.nodes x).ps.currentTerm ≤ ((s.setNode id n').nodes x).ps.currentTerm := by
    intro x
    rcases eq_or_ne x id with rfl | hne
    · rw [setNode_self]
      exact hcalm.term_le
    · rw [setNode_ne hne]
  -- in the term it was in before, a node still has its vote
  have hvote : ∀ x, ((s.setNode id n').nodes x).ps.currentTerm ≤ (s.nodes x).ps.currentTerm →
      ((s.setNode id n').nodes x).ps = (s.nodes x).ps := by
    intro x hle
    rcases eq_or_ne x id with rfl | hne
    · rw [setNode_self] at hle ⊢
      rcases hcalm.state with ⟨hps, _⟩ | ⟨hlt, _⟩
      · exact hps
      · omega
    · rw [setNode_ne hne]
  exact { h with
    wired := by
      intro x
      rcases eq_or_ne x id with rfl | hne
      · rw [setNode_self, hcalm.nodeId, hcalm.peers]
        exact h.wired x
      · rw [setNode_ne hne]
        exact h.wired x
    lasting := by
      intro msg hmsg
      rcases h.lasting msg hmsg with ⟨hle, hvoted⟩
      refine ⟨hle.trans (hterm _), fun hnow => ?_⟩
      have hsame := hvote msg.voter (hnow ▸ hle)
      rw [hsame] at hnow ⊢
      exact hvoted hnow
    counted := by
      intro x e' he'
      rcases eq_or_ne x id with rfl | hne
      · rw [setNode_self] at he' ⊢
        rcases hcalm.election e' he' with ⟨e, he, hsub, hsame⟩
        rcases h.counted x e he with ⟨hid, hnodup, S, hcard, hS⟩
        refine ⟨hid, hnodup.sublist hsub, S, by rw [hsame]; exact hcard, fun p hp => ?_⟩
        rcases hS p hp with ⟨hheard, msg, hmsg, hvoter, hargs⟩
        refine ⟨fun hp' => hheard (hsub.subset hp'), msg, hmsg, hvoter, ?_⟩
        rw [hargs, hsame]
        simp [Node.voteArgs, hcalm.nodeId]
      · rw [setNode_ne hne] at he' ⊢
        exact h.counted x e' he'
    candidate := by
      intro x hrole
      rcases eq_or_ne x id with rfl | hne
      · rw [setNode_self] at hrole ⊢
        rcases hcalm.state with ⟨hps, hsame | hfollower⟩ | ⟨_, _, hfollower⟩
        · rcases h.candidate x (hsame ▸ hrole) with ⟨hself, hnot, e, he, hcurrent⟩
          rcases Option.ne_none_iff_exists'.1
            (hcalm.standing hrole (by simp [he])) with ⟨e', he'⟩
          rcases hcalm.election e' he' with ⟨e₁, he₁, _, hsame'⟩
          have hee : e₁ = e := Option.some.inj (he₁.symm.trans he)
          subst hee
          rw [hps]
          exact ⟨hself, hnot, e', he', by rw [hsame']; exact hcurrent⟩
        · simp [hfollower] at hrole
        · simp [hfollower] at hrole
      · rw [setNode_ne hne] at hrole ⊢
        exact h.candidate x hrole
    elected := by
      intro T x hwon
      rcases h.elected T x hwon with ⟨hle, hself, hrest⟩
      refine ⟨hle.trans (hterm x), fun hnow => ?_, hrest⟩
      have hsame := hvote x (hnow ▸ hle)
      rw [hsame] at hnow ⊢
      exact hself hnow }

theorem VoteInv.start (h : VoteInv m s) {id : Bytes} (hid : id ∈ m.ids) :
    VoteInv m { s.setNode id (s.nodes id).startElection with
      voteRequests := s.voteRequests ++
        (s.nodes id).peers.map fun peer => (peer, (s.nodes id).voteArgs (s.nodes id).newElection) } := by
  rcases h.wired id with ⟨hself, hpeers⟩
  exact { h with
    wired := by
      intro x
      rcases eq_or_ne x id with rfl | hne
      · simpa [setNode_self, Node.startElection, Node.persist] using h.wired x
      · simpa [setNode_ne hne] using h.wired x
    request := by
      intro peer args hrequest
      rcases List.mem_append.1 hrequest with hold | hnew
      · exact h.request peer args hold
      · rcases List.mem_map.1 hnew with ⟨p, hp, hpair⟩
        cases hpair
        simp only [Node.voteArgs, hself]
        exact ⟨hid, hpeers ▸ hp⟩
    lasting := by
      intro msg hmsg
      rcases h.lasting msg hmsg with ⟨hle, hvoted⟩
      rcases eq_or_ne msg.voter id with heq | hne
      · -- the node enters a term it has not voted in
        rw [heq] at hle ⊢
        simp only [setNode_self, Node.startElection, Node.persist]
        exact ⟨by omega, fun hnow => by omega⟩
      · simpa [setNode_ne hne] using ⟨hle, hvoted⟩
    -- the new election has heard of nobody yet
    counted := by
      intro x e he
      rcases eq_or_ne x id with rfl | hne
      · simp only [setNode_self, Node.startElection, Node.persist, Option.some.injEq] at he
        subst he
        exact ⟨hid, by simpa [Node.newElection, hpeers] using m.nodup_peersOf x, ∅, rfl, by simp⟩
      · simp only [setNode_ne hne] at he ⊢
        exact h.counted x e he
    candidate := by
      intro x hrole
      rcases eq_or_ne x id with rfl | hne
      · simp only [setNode_self, Node.startElection, Node.persist]
        -- nobody has won the term that the node now enters
        refine ⟨hself, fun hwon => ?_, _, rfl, rfl⟩
        have hle := (h.elected _ x hwon).1
        omega
      · simp only [setNode_ne hne] at hrole ⊢
        exact h.candidate x hrole
    elected := by
      intro T x hwon
      rcases h.elected T x hwon with ⟨hle, hvoted, hrest⟩
      rcases eq_or_ne x id with rfl | hne
      · simp only [setNode_self, Node.startElection, Node.persist]
        exact ⟨by omega, fun hnow => by omega, hrest⟩
      · simp only [setNode_ne hne]
        exact ⟨hle, hvoted, hrest⟩ }

/-- A reply that grants no vote. -/
theorem VoteInv.refuse (h : VoteInv m s) {msg : VoteMessage}
    (hrefused : msg.reply.voteGranted = false) :
    VoteInv m { s with voteReplies := s.voteReplies ++ [msg] } := by
  -- a refusal is no grant, so nothing that counts has changed
  have hsame : ∀ msg', Cluster.Granted { s with voteReplies := s.voteReplies ++ [msg] } msg' ↔
      s.Granted msg' := by
    intro msg'
    refine ⟨fun hmsg' => ?_, fun hmsg' => ⟨List.mem_append_left _ hmsg'.1, hmsg'.2⟩⟩
    rcases hmsg' with ⟨hmem, hgranted⟩
    rcases List.mem_append.1 hmem with hold | hnew
    · exact ⟨hold, hgranted⟩
    · rw [List.mem_singleton.1 hnew, hrefused] at hgranted
      cases hgranted
  exact { h with
    granted := fun msg' hmsg' => h.granted msg' ((hsame msg').1 hmsg')
    lasting := fun msg' hmsg' => h.lasting msg' ((hsame msg').1 hmsg')
    single := fun msg₁ msg₂ h₁ h₂ => h.single msg₁ msg₂ ((hsame msg₁).1 h₁) ((hsame msg₂).1 h₂)
    counted := by simpa only [hsame] using h.counted
    elected := by simpa only [hsame, Cluster.Supported] using h.elected }

/-- A node in the term of a request grants it its vote. -/
theorem VoteInv.grant (h : VoteInv m s) (hnamed : ∀ id ∈ m.ids, id ≠ []) {id : Bytes}
    {args : RequestVoteArgs} (hrequest : (id, args) ∈ s.voteRequests)
    (hterm : (s.nodes id).ps.currentTerm = args.term)
    (hfree : (s.nodes id).ps.votedFor = [] ∨ (s.nodes id).ps.votedFor = args.candidateId)
    (reply : RequestVoteReply) :
    VoteInv m { s.setNode id ((Node.persist { s.nodes id with
        ps := { (s.nodes id).ps with votedFor := args.candidateId } })) with
      voteReplies := s.voteReplies ++ [{ voter := id, args, reply }] } := by
  rcases h.request id args hrequest with ⟨hcandidate, hpeer⟩
  have hother : args.candidateId ≠ id := (Members.mem_peersOf.1 hpeer).2.symm
  -- a vote the node has already given in its term went to the same candidate
  have hvoted : ∀ {x}, (s.nodes id).ps.votedFor = x → x ≠ [] → x = args.candidateId := by
    rintro x rfl hx
    exact hfree.resolve_left hx
  have hnew : ∀ {msg}, Cluster.Granted { s with
      voteReplies := s.voteReplies ++ [{ voter := id, args, reply }] } msg →
      s.Granted msg ∨ msg = { voter := id, args, reply } := by
    rintro msg ⟨hmem, hgranted⟩
    rcases List.mem_append.1 hmem with hold | hlast
    · exact .inl ⟨hold, hgranted⟩
    · exact .inr (List.mem_singleton.1 hlast)
  have hmono : ∀ {msg}, s.Granted msg → Cluster.Granted { s with
      voteReplies := s.voteReplies ++ [{ voter := id, args, reply }] } msg :=
    fun hmsg => ⟨List.mem_append_left _ hmsg.1, hmsg.2⟩
  have hbefore : ∀ {msg}, s.Granted msg → msg.voter = id → msg.args.term = args.term →
      msg.args.candidateId = args.candidateId := by
    intro msg hmsg hvoter hsame
    have hlasting := (h.lasting msg hmsg).2 (by rw [hvoter, hterm, hsame])
    rw [hvoter] at hlasting
    exact hvoted hlasting (hnamed _ (h.granted msg hmsg).1)
  have hnodes : ∀ x, ((s.setNode id (Node.persist { s.nodes id with
      ps := { (s.nodes id).ps with votedFor := args.candidateId } })).nodes x).ps.currentTerm =
      (s.nodes x).ps.currentTerm := by
    intro x
    rcases eq_or_ne x id with rfl | hne
    · simp [setNode_self, Node.persist]
    · simp [setNode_ne hne]
  exact { h with
    wired := by
      intro x
      rcases eq_or_ne x id with rfl | hne
      · simpa [setNode_self, Node.persist] using h.wired x
      · simpa [setNode_ne hne] using h.wired x
    granted := by
      intro msg hmsg
      rcases hnew hmsg with hold | rfl
      · exact h.granted msg hold
      · exact ⟨hcandidate, hpeer⟩
    lasting := by
      intro msg hmsg
      dsimp only
      rw [hnodes]
      rcases hnew hmsg with hold | rfl
      · refine ⟨(h.lasting msg hold).1, fun hnow => ?_⟩
        rcases eq_or_ne msg.voter id with heq | hne
        · rw [heq, hterm] at hnow
          simpa [heq, setNode_self, Node.persist] using (hbefore hold heq hnow).symm
        · rw [setNode_ne hne]
          exact (h.lasting msg hold).2 hnow
      · exact ⟨hterm.ge, fun _ => by simp [setNode_self, Node.persist]⟩
    single := by
      intro msg msg' hmsg hmsg' hvoter hsame
      rcases hnew hmsg with hold | rfl
      · rcases hnew hmsg' with hold' | rfl
        · exact h.single msg msg' hold hold' hvoter hsame
        · exact hbefore hold hvoter hsame
      · rcases hnew hmsg' with hold' | rfl
        · exact (hbefore hold' hvoter.symm hsame.symm).symm
        · rfl
    counted := by
      intro x e he
      have hsame : (s.nodes x).election = some e ∧
          (∀ e', ((s.setNode id (Node.persist { s.nodes id with
            ps := { (s.nodes id).ps with votedFor := args.candidateId } })).nodes x).voteArgs e' =
            (s.nodes x).voteArgs e') := by
        rcases eq_or_ne x id with rfl | hne
        · simpa [setNode_self, Node.persist, Node.voteArgs] using he
        · simpa [setNode_ne hne] using he
      rcases h.counted x e hsame.1 with ⟨hid, hnodup, S, hcard, hS⟩
      refine ⟨hid, hnodup, S, hcard, fun p hp => ?_⟩
      rcases hS p hp with ⟨hheard, msg, hmsg, hvoter, hargs⟩
      exact ⟨hheard, msg, hmono hmsg, hvoter, hargs.trans (hsame.2 e).symm⟩
    candidate := by
      intro x hrole
      rcases eq_or_ne x id with rfl | hne
      · -- a candidate has voted for itself
        simp only [setNode_self, Node.persist] at hrole
        rcases h.candidate x hrole with ⟨hself, _⟩
        exact absurd (hvoted hself (hnamed x (Members.mem_peersOf.1 hpeer).1)).symm hother
      · simp only [setNode_ne hne] at hrole ⊢
        exact h.candidate x hrole
    elected := by
      intro T x hwon
      rcases h.elected T x hwon with ⟨hle, hself, hnone, Q, hQ, hsupport⟩
      have hpast : x = id → T ≠ args.term := by
        rintro rfl rfl
        have hmine := hself hterm.symm
        exact hother (hvoted hmine (hnamed x (Members.mem_peersOf.1 hpeer).1)).symm
      dsimp only
      rw [hnodes]
      refine ⟨hle, fun hnow => ?_, fun msg hmsg hvoter => ?_, Q, hQ, fun v hv => ?_⟩
      · rcases eq_or_ne x id with rfl | hne
        · exact absurd (hnow.trans hterm) (hpast rfl)
        · rw [setNode_ne hne]
          exact hself hnow
      · rcases hnew hmsg with hold | rfl
        · exact hnone msg hold hvoter
        · exact fun hsame => hpast hvoter.symm hsame.symm
      · rcases hsupport v hv with hown | ⟨msg, hmsg, hrest⟩
        · exact .inl hown
        · exact .inr ⟨msg, hmono hmsg, hrest⟩ }

/-- A vote thread counts a granted vote. -/
theorem VoteInv.count (h : VoteInv m s) {id : Bytes} {e : Election} {msg : VoteMessage}
    (helection : (s.nodes id).election = some e) (hmsg : s.Granted msg)
    (hargs : msg.args = (s.nodes id).voteArgs e) (hawaited : msg.voter ∈ e.awaited) :
    VoteInv m (s.setNode id { s.nodes id with
      election := some { e with votes := e.votes + 1, awaited := e.awaited.erase msg.voter } }) := by
  have hnodes : ∀ x, ((s.setNode id { s.nodes id with
      election := some { e with votes := e.votes + 1
                                awaited := e.awaited.erase msg.voter } }).nodes x).ps =
      (s.nodes x).ps := by
    intro x
    rcases eq_or_ne x id with rfl | hne
    · simp [setNode_self]
    · simp [setNode_ne hne]
  exact { h with
    wired := by
      intro x
      rcases eq_or_ne x id with rfl | hne
      · simpa [setNode_self] using h.wired x
      · simpa [setNode_ne hne] using h.wired x
    lasting := by
      intro msg' hmsg'
      rw [hnodes]
      exact h.lasting msg' hmsg'
    counted := by
      intro x e' he'
      rcases eq_or_ne x id with rfl | hne
      · simp only [setNode_self, Option.some.injEq] at he'
        subst he'
        rcases h.counted x e helection with ⟨hid, hnodup, S, hcard, hS⟩
        -- each peer is awaited until it is heard, and so counted once
        have hfresh : msg.voter ∉ S := fun hin => (hS _ hin).1 hawaited
        refine ⟨hid, hnodup.erase _, insert msg.voter S, ?_, fun p hp => ?_⟩
        · simp only [Finset.card_insert_of_notMem hfresh]
          omega
        · rw [setNode_self]
          rcases Finset.mem_insert.1 hp with rfl | hin
          · exact ⟨hnodup.not_mem_erase, msg, hmsg, rfl, hargs⟩
          · rcases hS p hin with ⟨hheard, msg', hmsg', hvoter, hargs'⟩
            exact ⟨fun hp' => hheard (List.mem_of_mem_erase hp'), msg', hmsg', hvoter, hargs'⟩
      · simp only [setNode_ne hne] at he' ⊢
        exact h.counted x e' he'
    candidate := by
      intro x hrole
      rcases eq_or_ne x id with rfl | hne
      · simp only [setNode_self] at hrole ⊢
        rcases h.candidate x hrole with ⟨hself, hnot, e', he', hcurrent⟩
        have hee : e' = e := Option.some.inj (he'.symm.trans helection)
        subst hee
        exact ⟨hself, hnot, _, rfl, hcurrent⟩
      · simp only [setNode_ne hne] at hrole ⊢
        exact h.candidate x hrole
    elected := by
      intro T x hwon
      rw [hnodes]
      exact h.elected T x hwon }

/-- A candidate that loses gives up its vote. -/
theorem VoteInv.lose (h : VoteInv m s) {id : Bytes} (hrole : (s.nodes id).role = .candidate) :
    VoteInv m (s.setNode id
      { (s.nodes id).becomeFollower (s.nodes id).ps.currentTerm with election := none }) := by
  rcases h.candidate id hrole with ⟨hself, hnot, _⟩
  exact { h with
    wired := by
      intro x
      rcases eq_or_ne x id with rfl | hne
      · simpa [setNode_self, Node.becomeFollower, Node.persist] using h.wired x
      · simpa [setNode_ne hne] using h.wired x
    lasting := by
      intro msg hmsg
      rcases eq_or_ne msg.voter id with heq | hne
      · -- it has granted no vote in the term it stood in
        have hnone := h.no_vote hself hmsg heq
        have hle := (h.lasting msg hmsg).1
        rw [heq] at hle ⊢
        simp only [setNode_self, Node.becomeFollower, Node.persist]
        exact ⟨hle, fun hnow => absurd hnow hnone⟩
      · rw [setNode_ne hne]
        exact h.lasting msg hmsg
    counted := by
      intro x e he
      rcases eq_or_ne x id with rfl | hne
      · simp [setNode_self] at he
      · simp only [setNode_ne hne] at he ⊢
        exact h.counted x e he
    candidate := by
      intro x hx
      rcases eq_or_ne x id with rfl | hne
      · simp [setNode_self, Node.becomeFollower] at hx
      · simp only [setNode_ne hne] at hx ⊢
        exact h.candidate x hx
    elected := by
      intro T x hwon
      rcases h.elected T x hwon with ⟨hle, hvoted, hrest⟩
      rcases eq_or_ne x id with rfl | hne
      · simp only [setNode_self, Node.becomeFollower, Node.persist]
        refine ⟨hle, fun hnow => ?_, hrest⟩
        -- the node has not won the term whose vote it clears
        subst hnow
        exact absurd hwon hnot
      · rw [setNode_ne hne]
        exact ⟨hle, hvoted, hrest⟩ }

/-- A candidate with enough votes has a majority of the members behind it. -/
theorem VoteInv.supported (h : VoteInv m s) {id : Bytes} {e : Election}
    (hrole : (s.nodes id).role = .candidate) (helection : (s.nodes id).election = some e)
    (hquorum : (s.nodes id).hasQuorum e.votes = true) :
    s.Supported m (s.nodes id).ps.currentTerm id := by
  rcases h.wired id with ⟨hself, hpeers⟩
  rcases h.counted id e helection with ⟨hid, _, S, hcard, hS⟩
  rcases h.candidate id hrole with ⟨_, _, e', he', hcurrent⟩
  have hee : e' = e := Option.some.inj (he'.symm.trans helection)
  subst hee
  -- the counted votes came from other members
  have hpeer : ∀ p ∈ S, p ∈ m.ids ∧ p ≠ id := by
    intro p hp
    rcases hS p hp with ⟨_, msg, hmsg, rfl, hargs⟩
    have hgranted := Members.mem_peersOf.1 (h.granted msg hmsg).2
    simpa [hargs, Node.voteArgs, hself] using hgranted
  refine ⟨insert id S, ⟨fun v hv => ?_, ?_⟩, fun v hv => ?_⟩
  · rcases Finset.mem_insert.1 hv with rfl | hin
    · exact List.mem_toFinset.2 hid
    · exact List.mem_toFinset.2 (hpeer v hin).1
  · -- more than half of the cluster, itself included
    have hfresh : id ∉ S := fun hin => (hpeer id hin).2 rfl
    have hlength := Members.length_peersOf hid
    simp only [Node.hasQuorum, decide_eq_true_eq, hpeers] at hquorum
    rw [Finset.card_insert_of_notMem hfresh, m.card_nodes]
    omega
  · rcases Finset.mem_insert.1 hv with rfl | hin
    · exact .inl rfl
    · rcases hS v hin with ⟨_, msg, hmsg, hvoter, hargs⟩
      exact .inr ⟨msg, hmsg, hvoter, by simp [hargs, Node.voteArgs, hself],
        by simpa [hargs, Node.voteArgs] using hcurrent⟩

/-- Nobody has won the term in which a candidate finds a majority. -/
theorem VoteInv.unwon (h : VoteInv m s) {id : Bytes} {e : Election}
    (hrole : (s.nodes id).role = .candidate) (helection : (s.nodes id).election = some e)
    (hquorum : (s.nodes id).hasQuorum e.votes = true) (other : Bytes) :
    ((s.nodes id).ps.currentTerm, other) ∉ s.elected := by
  intro hwon
  rcases h.candidate id hrole with ⟨hself, hnot, _⟩
  rcases h.supported hrole helection hquorum with ⟨Q, hQ, hmine⟩
  rcases h.elected _ other hwon with ⟨_, _, hnone, Q', hQ', htheirs⟩
  have hne : other ≠ id := by
    rintro rfl
    exact hnot hwon
  -- both quorums have a voter in common
  rcases hQ.common hQ' with ⟨v, hv, hv'⟩
  rcases hmine v hv with rfl | ⟨msg, hmsg, hvoter, hcandidate, hterm⟩
  · rcases htheirs v hv' with rfl | ⟨msg', hmsg', hvoter', _, hterm'⟩
    · exact hne rfl
    · exact h.no_vote hself hmsg' hvoter' hterm'
  · rcases htheirs v hv' with rfl | ⟨msg', hmsg', hvoter', hcandidate', hterm'⟩
    · exact hnone msg hmsg hvoter hterm
    · -- one node has voted for both
      apply hne
      rw [← hcandidate, ← hcandidate']
      exact h.single msg' msg hmsg' hmsg (hvoter'.trans hvoter.symm) (hterm'.trans hterm.symm)

theorem VoteInv.win (h : VoteInv m s) {id : Bytes} {e : Election}
    (hrole : (s.nodes id).role = .candidate) (helection : (s.nodes id).election = some e)
    (hquorum : (s.nodes id).hasQuorum e.votes = true) (leaderId : Bytes)
    (peerStates : Bytes → PeerState) :
    VoteInv m { s.setNode id { s.nodes id with
        role := .leader, leaderId := leaderId, peerStates := peerStates, election := none } with
      elected := s.elected ++ [((s.nodes id).ps.currentTerm, id)] } := by
  have hunwon := h.unwon hrole helection hquorum
  have hsupported := h.supported hrole helection hquorum
  rcases h.candidate id hrole with ⟨hself, _⟩
  have hnodes : ∀ x, ((s.setNode id { s.nodes id with
      role := .leader, leaderId := leaderId, peerStates := peerStates
      election := none }).nodes x).ps = (s.nodes x).ps := by
    intro x
    rcases eq_or_ne x id with rfl | hne
    · simp [setNode_self]
    · simp [setNode_ne hne]
  exact { h with
    wired := by
      intro x
      rcases eq_or_ne x id with rfl | hne
      · simpa [setNode_self] using h.wired x
      · simpa [setNode_ne hne] using h.wired x
    lasting := by
      intro msg hmsg
      dsimp only
      rw [hnodes]
      exact h.lasting msg hmsg
    counted := by
      intro x e' he'
      rcases eq_or_ne x id with rfl | hne
      · simp [setNode_self] at he'
      · simp only [setNode_ne hne] at he' ⊢
        exact h.counted x e' he'
    candidate := by
      intro x hx
      rcases eq_or_ne x id with rfl | hne
      · simp [setNode_self] at hx
      · simp only [setNode_ne hne] at hx ⊢
        rcases h.candidate x hx with ⟨hvote, hnot, hrest⟩
        refine ⟨hvote, fun hin => ?_, hrest⟩
        rcases List.mem_append.1 hin with hold | hnew
        · exact hnot hold
        · exact hne (Prod.mk.inj (List.mem_singleton.1 hnew)).2
    elected := by
      intro T x hin
      dsimp only
      rw [hnodes]
      rcases List.mem_append.1 hin with hold | hnew
      · exact h.elected T x hold
      · rcases Prod.mk.inj (List.mem_singleton.1 hnew) with ⟨rfl, rfl⟩
        exact ⟨le_rfl, fun _ => hself, fun msg hmsg hvoter => h.no_vote hself hmsg hvoter,
          hsupported⟩
    distinct := by
      refine List.pairwise_append.2 ⟨h.distinct, List.pairwise_singleton _ _, ?_⟩
      rintro ⟨T, x⟩ hold won hnew rfl
      rw [List.mem_singleton.1 hnew] at hold
      exact hunwon x hold }

/-! ## Every step -/

theorem setNode_setNode {id : Bytes} {n n' : Node} :
    (s.setNode id n).setNode id n' = s.setNode id n' := by
  simp [Cluster.setNode]

theorem VoteInv.step (h : VoteInv m s) (hnamed : ∀ id ∈ m.ids, id ≠ []) {a : Action} {s' : Cluster}
    (hload : ∀ id, a = .restart id →
      PersistentState.load (s.nodes id).stateFile = (s.nodes id).ps)
    (hstep : s.step m a = some s') : VoteInv m s' := by
  have hcalm : ∀ {id n'}, Calm (s.nodes id) n' → VoteInv m (s.setNode id n') := fun hn => h.calm hn
  have hsame : ∀ {id n'}, n'.nodeId = (s.nodes id).nodeId → n'.peers = (s.nodes id).peers →
      n'.election = (s.nodes id).election → n'.ps = (s.nodes id).ps →
      n'.role = (s.nodes id).role → VoteInv m (s.setNode id n') :=
    fun h₁ h₂ h₃ h₄ h₅ => hcalm (.of_same h₁ h₂ h₃ h₄ (.inl h₅))
  cases Cluster.transition_of_step hstep with
  | startElection hid _ _ => exact h.start hid
  | @deliverVote k id args hrequest =>
      rcases (s.nodes id).handleRequestVote_cases args with
        ⟨n₁, hn, ⟨heq, hrefused⟩ | ⟨hterm, hfree, _, heq⟩⟩
      · rw [heq]
        exact (hcalm hn.calm).refuse hrefused
      · -- first the term is raised, then the vote is given
        have hraised := (hcalm hn.calm).grant hnamed hrequest
          (by rw [setNode_self]; exact hterm) (by rw [setNode_self]; exact hfree)
          ((s.nodes id).handleRequestVote args).2
        simp only [setNode_self, setNode_setNode] at hraised
        rw [heq]
        exact hraised
  | @collectVote id k msg e hmsg he hargs hawaited =>
      rcases (s.nodes id).collectVote_cases he msg.voter (some msg.reply) with
        hn | ⟨r, hr, hgranted, heq⟩
      · exact hcalm hn
      · rw [heq]
        cases hr
        exact h.count he ⟨hmsg, hgranted⟩ hargs hawaited
  | @loseVote id peer e he =>
      rcases (s.nodes id).collectVote_cases he peer none with hn | ⟨r, hr, _⟩
      · exact hcalm hn
      · cases hr
  | endElection he hrole =>
      exact hcalm
        { nodeId := rfl
          peers := rfl
          election := fun e' he' => by cases he'
          standing := fun hcandidate => absurd hcandidate hrole
          state := .inl ⟨rfl, .inl rfl⟩ }
  | winElection he hrole hquorum => exact h.win hrole he hquorum _ _
  | loseElection he hrole => exact h.lose hrole
  | propose => exact hsame rfl rfl rfl rfl rfl
  | proposeAppend => exact hsame rfl rfl rfl rfl rfl
  | proposeEnd => exact hsame rfl rfl rfl rfl rfl
  | replicate => exact hsame rfl rfl rfl rfl rfl
  | @sendAppend id peer _ =>
      have hold : VoteInv m (s.setNode id { s.nodes id with
          replicating := (s.nodes id).replicating.erase peer }) := hsame rfl rfl rfl rfl rfl
      exact { hold with }
  | @deliverAppend k msg _ =>
      have hold := hcalm ((s.nodes msg.peer).handleAppendEntries_calm msg.args)
      exact { hold with }
  | deliverAppendReply => exact hcalm (Node.handleAppendReply_calm _ _ _ _)
  | readCommitted => exact hsame rfl rfl rfl rfl rfl
  | @applyNext id idx committed _ _ =>
      cases hget : (s.nodes id).log.get idx with
      | none => exact hsame rfl rfl rfl rfl rfl
      | some entry => exact hsame rfl rfl rfl rfl rfl
  | applyMiss => exact hsame rfl rfl rfl rfl rfl
  | @restart id _ => exact hcalm ((s.nodes id).restart_calm (hload id rfl))

end Steps

/-! ## Restarts -/

/-- Ids that `raft_state.txt` can hold: not empty, and without blanks. -/
def Members.Storable (m : Members) : Prop :=
  ∀ id ∈ m.ids, id ≠ [] ∧ ∀ b ∈ id, isSpace b = false

/-- The state file holds the node's term and vote, and the vote is for a member. -/
structure Node.Stored (m : Members) (n : Node) : Prop where
  load : PersistentState.load n.stateFile = n.ps
  vote : n.ps.votedFor = [] ∨ n.ps.votedFor ∈ m.ids

namespace Node.Stored

variable {m : Members} {n n' : Node}

theorem of_same (h : n.Stored m) (hps : n'.ps = n.ps) (hfile : n'.stateFile = n.stateFile) :
    n'.Stored m where
  load := by rw [hps, hfile, h.load]
  vote := by
    rw [hps]
    exact h.vote

theorem of_saved (hm : m.Storable) (hfile : n.stateFile = some n.ps.save)
    (hvote : n.ps.votedFor = [] ∨ n.ps.votedFor ∈ m.ids) : n.Stored m where
  load := by
    rw [hfile]
    apply PersistentState.load_save
    rcases hvote with hnone | hid
    · simp [hnone]
    · exact (hm _ hid).2
  vote := hvote

theorem becomeFollower (hm : m.Storable) (term : Nat) : (n.becomeFollower term).Stored m :=
  of_saved hm rfl (.inl rfl)

theorem followLeader (h : n.Stored m) (replyTerm : Nat) (args : AppendEntriesArgs) :
    (n.followLeader replyTerm args).1.Stored m := by
  rcases n.followLeader_eq replyTerm args with ⟨log, k, heq⟩
  rw [heq]
  exact h.of_same rfl rfl

theorem handleAppendEntries (h : n.Stored m) (hm : m.Storable) (args : AppendEntriesArgs) :
    (n.handleAppendEntries args).1.Stored m := by
  unfold Node.handleAppendEntries
  split_ifs
  · exact h
  · exact (becomeFollower hm args.term).followLeader _ _
  · exact h.followLeader _ _

theorem handleAppendReply (h : n.Stored m) (hm : m.Storable) (peer : Bytes)
    (args : AppendEntriesArgs) (reply : AppendEntriesReply) :
    (n.handleAppendReply peer args reply).Stored m := by
  unfold Node.handleAppendReply
  dsimp only
  split_ifs
  · exact becomeFollower hm reply.term
  · rw [tryAdvanceCommit_eq]
    exact h.of_same rfl rfl
  · exact h.of_same rfl rfl
  · exact h

theorem handleRequestVote (h : n.Stored m) (hm : m.Storable) {args : RequestVoteArgs}
    (hcandidate : args.candidateId ∈ m.ids) : (n.handleRequestVote args).1.Stored m := by
  have hraised : (if args.term > n.ps.currentTerm then n.becomeFollower args.term
      else n).Stored m := by
    split_ifs
    · exact becomeFollower hm args.term
    · exact h
  unfold Node.handleRequestVote tryGrantVote
  dsimp only
  split_ifs
  all_goals first
    | exact becomeFollower hm args.term
    | exact h
    | exact of_saved hm rfl (.inr hcandidate)

theorem collectVote (h : n.Stored m) (hm : m.Storable) (e : Election) (peer : Bytes)
    (reply : Option RequestVoteReply) : (n.collectVote e peer reply).Stored m := by
  cases reply with
  | none => exact h.of_same rfl rfl
  | some r =>
      unfold Node.collectVote
      dsimp only
      split_ifs
      · exact of_saved hm rfl (.inl rfl)
      · exact h.of_same rfl rfl
      · exact h.of_same rfl rfl

end Node.Stored

section Runs

variable {m : Members} {s : Cluster}

theorem stored_setNode (h : ∀ id, (s.nodes id).Stored m) {id : Bytes} {n' : Node}
    (hn : n'.Stored m) (x : Bytes) : ((s.setNode id n').nodes x).Stored m := by
  rcases eq_or_ne x id with rfl | hne
  · rwa [setNode_self]
  · rw [setNode_ne hne]
    exact h x

theorem stored_step (h : ∀ id, (s.nodes id).Stored m) (hvotes : VoteInv m s) (hm : m.Storable)
    {a : Action} {s' : Cluster} (hstep : s.step m a = some s') :
    ∀ id, (s'.nodes id).Stored m := by
  have hset : ∀ {id n'}, n'.Stored m → ∀ x, ((s.setNode id n').nodes x).Stored m :=
    fun hn => stored_setNode h hn
  have hsame : ∀ {id n'}, n'.ps = (s.nodes id).ps → n'.stateFile = (s.nodes id).stateFile →
      ∀ x, ((s.setNode id n').nodes x).Stored m :=
    fun {id _} hps hfile => hset ((h id).of_same hps hfile)
  cases Cluster.transition_of_step hstep with
  | @startElection id hid _ _ =>
      refine hset (.of_saved hm rfl (.inr ?_))
      simpa only [Node.startElection, Node.persist, (hvotes.wired id).1] using hid
  | @deliverVote k id args hrequest =>
      exact hset ((h id).handleRequestVote hm (hvotes.request id args hrequest).1)
  | @collectVote id k msg e _ _ _ _ => exact hset ((h id).collectVote hm e _ _)
  | @loseVote id peer e _ => exact hset ((h id).collectVote hm e _ _)
  | endElection => exact hsame rfl rfl
  | winElection => exact hsame rfl rfl
  | loseElection => exact hset (.of_saved hm rfl (.inl rfl))
  | propose => exact hsame rfl rfl
  | proposeAppend => exact hsame rfl rfl
  | proposeEnd => exact hsame rfl rfl
  | replicate => exact hsame rfl rfl
  | sendAppend => exact hsame rfl rfl
  | @deliverAppend k msg _ => exact hset ((h msg.peer).handleAppendEntries hm msg.args)
  | @deliverAppendReply k msg reply _ => exact hset ((h _).handleAppendReply hm _ _ _)
  | readCommitted => exact hsame rfl rfl
  | @applyNext id idx committed _ _ =>
      cases hget : (s.nodes id).log.get idx with
      | none => exact hsame rfl rfl
      | some entry => exact hsame rfl rfl
  | applyMiss => exact hsame rfl rfl
  | @restart id _ => exact hsame (h id).load rfl

/-- A restart keeps the vote only if the ids can be stored; other actions do not read the file. -/
def Restartable (m : Members) (_ : Cluster) (a : Action) : Prop :=
  m.Storable ∨ ∀ id, a ≠ .restart id

theorem votes_of_reach (hnamed : ∀ id ∈ m.ids, id ≠ [])
    (h : Reach (Cluster.step m) (Restartable m) (Cluster.init m) s) :
    VoteInv m s ∧ (m.Storable → ∀ id, (s.nodes id).Stored m) := by
  refine Reach.invariant (P := fun s =>
    VoteInv m s ∧ (m.Storable → ∀ id, (s.nodes id).Stored m)) ?_ ?_ h
  · exact ⟨voteInv_init m, fun _ id => ⟨rfl, .inl rfl⟩⟩
  · rintro s s' a _ ⟨hvotes, hstored⟩ hok hstep
    refine ⟨hvotes.step hnamed (fun id ha => ?_) hstep, fun hm => ?_⟩
    · rcases hok with hm | hnot
      · exact (hstored hm id).load
      · exact absurd ha (hnot id)
    · exact stored_step (hstored hm) hvotes hm hstep

/-- At most one node has become leader in any term. -/
def Cluster.OneLeader (s : Cluster) : Prop :=
  ∀ T a b, (T, a) ∈ s.elected → (T, b) ∈ s.elected → a = b

theorem VoteInv.oneLeader (h : VoteInv m s) : s.OneLeader := by
  intro T a b ha hb
  have hsymm : Std.Symm fun won won' : Nat × Bytes => won.1 ≠ won'.1 :=
    ⟨fun _ _ hdiffers => hdiffers.symm⟩
  by_contra hne
  exact h.distinct.forall ha hb (fun heq => hne (Prod.mk.inj heq).2) rfl

/-- Every state that any run reaches has had at most one leader in each term. -/
theorem reach_oneLeader (hm : m.Storable)
    (h : Reach (Cluster.step m) (fun _ _ => True) (Cluster.init m) s) : s.OneLeader :=
  (votes_of_reach (fun id hid => (hm id hid).1) (h.mono fun _ => .inl hm)).1.oneLeader

end Runs

namespace ElectionExample

open Trio

/-- `b` stands and loses, then votes for `a` in the same term, and restarts. -/
def actions : List Action :=
  [.startElection b, .loseVote b a, .loseVote b c, .decideElection b,
    .startElection a, .deliverVote 2, .restart b, .collectVote a 0, .loseVote a c,
    .decideElection a, .restart a]

def outcome : Option Cluster :=
  run (Cluster.step trio) (fun _ _ => True) (Cluster.init trio) actions

theorem outcome_isSome : outcome.isSome = true := by
  decide +kernel

theorem storable_trio : trio.Storable := by
  unfold Members.Storable
  decide +kernel

end ElectionExample

open ElectionExample Trio in
theorem reach_oneLeader_trio : (outcome.get outcome_isSome).OneLeader :=
  reach_oneLeader storable_trio (reach_of_run (Option.some_get outcome_isSome).symm)

end Raft
end ControlDB
