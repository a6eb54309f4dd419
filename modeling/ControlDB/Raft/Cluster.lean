import ControlDB.Library.Runs
import ControlDB.Raft.Node

/-!
# A cluster of Raft nodes

Nodes whose peers are exactly the other members, and the requests and replies sent so far.  Any of
these may be delivered next, in any order, again or never.  An action is one critical section
of one thread on one node; `elected` and the members' `applied` are histories that no action reads.
-/

namespace ControlDB
namespace Raft

open Library
open Function (update)

/-- The node ids of a cluster. -/
structure Members where
  ids : List Bytes
  nodup : ids.Nodup

/-- `cfg.peers` of a member. -/
def Members.peersOf (m : Members) (id : Bytes) : List Bytes :=
  m.ids.filter fun peer => decide (peer ≠ id)

/-- A granted or refused vote on its way back. -/
structure VoteMessage where
  voter : Bytes
  args : RequestVoteArgs
  reply : RequestVoteReply
  deriving DecidableEq, Repr

/-- An append request on its way.  `sources` and `led` are histories: the entries that the commands
come from, and whether the sender was still leader when it built the request. -/
structure AppendMessage where
  peer : Bytes
  args : AppendEntriesArgs
  sources : List LogEntry
  led : Bool
  deriving DecidableEq, Repr

structure Cluster where
  nodes : Bytes → Node
  voteRequests : List (Bytes × RequestVoteArgs) := []
  voteReplies : List VoteMessage := []
  appendRequests : List AppendMessage := []
  appendReplies : List (AppendMessage × AppendEntriesReply) := []
  /-- Term and node of every change to `Role::Leader`. -/
  elected : List (Nat × Bytes) := []

/-- Every member on an empty directory. -/
def Cluster.init (m : Members) : Cluster where
  nodes := fun id => { nodeId := id, peers := m.peersOf id }

def Cluster.setNode (s : Cluster) (id : Bytes) (n : Node) : Cluster :=
  { s with nodes := update s.nodes id n }

inductive Action
  /-- `run_election` up to its requests. -/
  | startElection (id : Bytes)
  /-- The `k`-th vote request arrives. -/
  | deliverVote (k : Nat)
  /-- The `k`-th vote reply arrives, or the call to a peer throws. -/
  | collectVote (id : Bytes) (k : Nat)
  | loseVote (id peer : Bytes)
  | decideElection (id : Bytes)
  | propose (id command : Bytes)
  | proposeAppend (id command : Bytes)
  | proposeEnd (id command : Bytes) (logIndex : Nat)
  | replicate (id peer : Bytes)
  | sendAppend (id peer : Bytes)
  | deliverAppend (k : Nat)
  | deliverAppendReply (k : Nat)
  | readCommitted (id : Bytes)
  | applyNext (id : Bytes)
  /-- `log->get` finds nothing: a request is between cutting the log and appending to it, under a
  lock that `apply_committed` does not take. -/
  | applyMiss (id : Bytes)
  | restart (id : Bytes)
  deriving DecidableEq, Repr

namespace Cluster

variable (m : Members) (s : Cluster)

def startElection (id : Bytes) : Option Cluster :=
  let n := s.nodes id
  if id ∈ m.ids ∧ n.election = none ∧ n.role ≠ .leader then
    some { s.setNode id n.startElection with
      voteRequests := s.voteRequests ++
        n.peers.map fun peer => (peer, n.voteArgs n.newElection) }
  else none

def deliverVote (k : Nat) : Option Cluster :=
  match s.voteRequests[k]? with
  | none => none
  | some (peer, args) =>
      let (n', reply) := (s.nodes peer).handleRequestVote args
      some { s.setNode peer n' with
        voteReplies := s.voteReplies ++ [{ voter := peer, args, reply }] }

/-- Only the call that sent the request gets its reply, and gets it once. -/
def collectVote (id : Bytes) (k : Nat) : Option Cluster :=
  let n := s.nodes id
  match s.voteReplies[k]?, n.election with
  | some msg, some e =>
      if msg.args = n.voteArgs e ∧ msg.voter ∈ e.awaited then
        some (s.setNode id (n.collectVote e msg.voter (some msg.reply)))
      else none
  | _, _ => none

def loseVote (id peer : Bytes) : Option Cluster :=
  let n := s.nodes id
  match n.election with
  | some e => if peer ∈ e.awaited then some (s.setNode id (n.collectVote e peer none)) else none
  | none => none

def decideElection (id : Bytes) : Option Cluster :=
  let n := s.nodes id
  match n.election with
  | some e =>
      if e.awaited = [] then
        let n' := n.decideElection e
        some { s.setNode id n' with
          elected := if n'.role = .leader ∧ n.role ≠ .leader then
              s.elected ++ [(n.ps.currentTerm, id)]
            else s.elected }
      else none
  | none => none

def propose (id command : Bytes) : Option Cluster :=
  let n := s.nodes id
  match n.checkLeader with
  | .error _ => none
  | .ok _ => some (s.setNode id { n with proposed := n.proposed ++ [command] })

def proposeAppend (id command : Bytes) : Option Cluster :=
  let n := s.nodes id
  if command ∈ n.proposed then some (s.setNode id (n.proposeAppend command)) else none

def proposeEnd (id command : Bytes) (logIndex : Nat) : Option Cluster :=
  let n := s.nodes id
  if (command, logIndex) ∈ n.waiting then some (s.setNode id (n.proposeEnd command logIndex).1)
  else none

def replicate (id peer : Bytes) : Option Cluster :=
  let n := s.nodes id
  if n.role = .leader ∧ peer ∈ n.peers then
    some (s.setNode id { n with replicating := n.replicating ++ [peer] })
  else none

def sendAppend (id peer : Bytes) : Option Cluster :=
  let n := s.nodes id
  if peer ∈ n.replicating then
    let (args, sources) := n.replicateArgs peer
    some { s.setNode id { n with replicating := n.replicating.erase peer } with
      appendRequests := s.appendRequests ++
        [{ peer, args, sources, led := decide (n.role = .leader) }] }
  else none

def deliverAppend (k : Nat) : Option Cluster :=
  match s.appendRequests[k]? with
  | none => none
  | some msg =>
      let (n', reply) := (s.nodes msg.peer).handleAppendEntries msg.args
      some { s.setNode msg.peer n' with appendReplies := s.appendReplies ++ [(msg, reply)] }

def deliverAppendReply (k : Nat) : Option Cluster :=
  match s.appendReplies[k]? with
  | none => none
  | some (msg, reply) =>
      let id := msg.args.leaderId
      some (s.setNode id ((s.nodes id).handleAppendReply msg.peer msg.args reply))

def readCommitted (id : Bytes) : Option Cluster :=
  let n := s.nodes id
  let idle := match n.applying with
    | none => true
    | some (idx, committed) => decide (committed < idx)
  if id ∈ m.ids ∧ idle = true then some (s.setNode id n.readCommitted) else none

/-- A turn of the apply loop, where the log is read or the read comes back empty. -/
def applyTurn (id : Bytes) (readLog : RaftLog → Nat → Option LogEntry) : Option Cluster :=
  let n := s.nodes id
  match n.applying with
  | some (idx, committed) =>
      if idx ≤ committed then some (s.setNode id (n.applyEntry idx committed (readLog n.log idx)))
      else none
  | none => none

def restart (id : Bytes) : Option Cluster :=
  if id ∈ m.ids then some (s.setNode id (s.nodes id).restart) else none

/-- One action, if it is possible. -/
def step (m : Members) (s : Cluster) : Action → Option Cluster
  | .startElection id => s.startElection m id
  | .deliverVote k => s.deliverVote k
  | .collectVote id k => s.collectVote id k
  | .loseVote id peer => s.loseVote id peer
  | .decideElection id => s.decideElection id
  | .propose id command => s.propose id command
  | .proposeAppend id command => s.proposeAppend id command
  | .proposeEnd id command logIndex => s.proposeEnd id command logIndex
  | .replicate id peer => s.replicate id peer
  | .sendAppend id peer => s.sendAppend id peer
  | .deliverAppend k => s.deliverAppend k
  | .deliverAppendReply k => s.deliverAppendReply k
  | .readCommitted id => s.readCommitted m id
  | .applyNext id => s.applyTurn id RaftLog.get
  | .applyMiss id => s.applyTurn id fun _ _ => none
  | .restart id => s.restart m id

end Cluster

/-- The three ends of `run_election`. -/
theorem Node.decideElection_cases (n : Node) (e : Election) :
    (n.role ≠ .candidate ∧ n.decideElection e = { n with election := none }) ∨
    (n.role = .candidate ∧ n.hasQuorum e.votes = true ∧ n.decideElection e =
      { n with
        role := .leader
        leaderId := n.nodeId
        peerStates := fun _ => { nextIndex := n.log.lastIndex + 1, matchIndex := 0 }
        election := none }) ∨
    (n.role = .candidate ∧ n.decideElection e =
      { n.becomeFollower n.ps.currentTerm with election := none }) := by
  unfold decideElection
  split_ifs with hnot hquorum
  · exact .inl ⟨hnot, rfl⟩
  · exact .inr (.inl ⟨not_not.1 hnot, hquorum, rfl⟩)
  · exact .inr (.inr ⟨not_not.1 hnot, rfl⟩)

namespace Cluster

/-! ## What an action can do -/

/-- The ways an action can go, with what it needs and what it leaves. -/
inductive Transition (m : Members) (s : Cluster) : Action → Cluster → Prop
  | startElection {id : Bytes} : id ∈ m.ids → (s.nodes id).election = none →
      (s.nodes id).role ≠ .leader →
      Transition m s (.startElection id)
        { s.setNode id (s.nodes id).startElection with
          voteRequests := s.voteRequests ++ (s.nodes id).peers.map fun peer =>
            (peer, (s.nodes id).voteArgs (s.nodes id).newElection) }
  | deliverVote {k : Nat} {id : Bytes} {args : RequestVoteArgs} : (id, args) ∈ s.voteRequests →
      Transition m s (.deliverVote k)
        { s.setNode id ((s.nodes id).handleRequestVote args).1 with
          voteReplies := s.voteReplies ++
            [⟨id, args, ((s.nodes id).handleRequestVote args).2⟩] }
  | collectVote {id : Bytes} {k : Nat} {msg : VoteMessage} {e : Election} : msg ∈ s.voteReplies →
      (s.nodes id).election = some e → msg.args = (s.nodes id).voteArgs e →
      msg.voter ∈ e.awaited →
      Transition m s (.collectVote id k)
        (s.setNode id ((s.nodes id).collectVote e msg.voter (some msg.reply)))
  | loseVote {id peer : Bytes} {e : Election} : (s.nodes id).election = some e →
      Transition m s (.loseVote id peer)
        (s.setNode id ((s.nodes id).collectVote e peer none))
  | endElection {id : Bytes} {e : Election} : (s.nodes id).election = some e →
      (s.nodes id).role ≠ .candidate →
      Transition m s (.decideElection id)
        (s.setNode id { s.nodes id with election := none })
  | winElection {id : Bytes} {e : Election} : (s.nodes id).election = some e →
      (s.nodes id).role = .candidate → (s.nodes id).hasQuorum e.votes = true →
      Transition m s (.decideElection id)
        { s.setNode id { s.nodes id with
            role := .leader
            leaderId := (s.nodes id).nodeId
            peerStates := fun _ =>
              { nextIndex := (s.nodes id).log.lastIndex + 1, matchIndex := 0 }
            election := none } with
          elected := s.elected ++ [((s.nodes id).ps.currentTerm, id)] }
  | loseElection {id : Bytes} {e : Election} : (s.nodes id).election = some e →
      (s.nodes id).role = .candidate →
      Transition m s (.decideElection id)
        (s.setNode id
          { (s.nodes id).becomeFollower (s.nodes id).ps.currentTerm with election := none })
  | propose {id command : Bytes} : (s.nodes id).role = .leader →
      Transition m s (.propose id command)
        (s.setNode id { s.nodes id with proposed := (s.nodes id).proposed ++ [command] })
  | proposeAppend {id command : Bytes} : command ∈ (s.nodes id).proposed →
      Transition m s (.proposeAppend id command)
        (s.setNode id ((s.nodes id).proposeAppend command))
  | proposeEnd {id command : Bytes} {logIndex : Nat} :
      (command, logIndex) ∈ (s.nodes id).waiting →
      Transition m s (.proposeEnd id command logIndex)
        (s.setNode id ((s.nodes id).proposeEnd command logIndex).1)
  | replicate {id peer : Bytes} : (s.nodes id).role = .leader → peer ∈ (s.nodes id).peers →
      Transition m s (.replicate id peer)
        (s.setNode id { s.nodes id with replicating := (s.nodes id).replicating ++ [peer] })
  | sendAppend {id peer : Bytes} : peer ∈ (s.nodes id).replicating →
      Transition m s (.sendAppend id peer)
        { s.setNode id { s.nodes id with
            replicating := (s.nodes id).replicating.erase peer } with
          appendRequests := s.appendRequests ++
            [{ peer
               args := ((s.nodes id).replicateArgs peer).1
               sources := ((s.nodes id).replicateArgs peer).2
               led := decide ((s.nodes id).role = .leader) }] }
  | deliverAppend {k : Nat} {msg : AppendMessage} : s.appendRequests[k]? = some msg →
      Transition m s (.deliverAppend k)
        { s.setNode msg.peer ((s.nodes msg.peer).handleAppendEntries msg.args).1 with
          appendReplies := s.appendReplies ++
            [(msg, ((s.nodes msg.peer).handleAppendEntries msg.args).2)] }
  | deliverAppendReply {k : Nat} {msg : AppendMessage} {reply : AppendEntriesReply} :
      s.appendReplies[k]? = some (msg, reply) →
      Transition m s (.deliverAppendReply k)
        (s.setNode msg.args.leaderId
          ((s.nodes msg.args.leaderId).handleAppendReply msg.peer msg.args reply))
  | readCommitted {id : Bytes} : id ∈ m.ids →
      Transition m s (.readCommitted id) (s.setNode id (s.nodes id).readCommitted)
  | applyNext {id : Bytes} {idx committed : Nat} :
      (s.nodes id).applying = some (idx, committed) → idx ≤ committed →
      Transition m s (.applyNext id)
        (s.setNode id ((s.nodes id).applyEntry idx committed ((s.nodes id).log.get idx)))
  | applyMiss {id : Bytes} {idx committed : Nat} :
      (s.nodes id).applying = some (idx, committed) → idx ≤ committed →
      Transition m s (.applyMiss id) (s.setNode id ((s.nodes id).applyEntry idx committed none))
  | restart {id : Bytes} : id ∈ m.ids →
      Transition m s (.restart id) (s.setNode id (s.nodes id).restart)

theorem transition_of_step {m : Members} {s s' : Cluster} {a : Action}
    (h : s.step m a = some s') : Transition m s a s' := by
  cases a with
  | startElection id =>
      simp only [step, Cluster.startElection] at h
      split_ifs at h with hcan
      cases h
      exact .startElection hcan.1 hcan.2.1 hcan.2.2
  | deliverVote k =>
      simp only [step, Cluster.deliverVote] at h
      rcases hget : s.voteRequests[k]? with _ | ⟨id, args⟩
      · simp [hget] at h
      · simp only [hget, Option.some.injEq] at h
        subst h
        exact .deliverVote (List.mem_of_getElem? hget)
  | collectVote id k =>
      simp only [step, Cluster.collectVote] at h
      rcases hget : s.voteReplies[k]? with _ | msg
      · simp [hget] at h
      · rcases he : (s.nodes id).election with _ | e
        · simp [hget, he] at h
        · simp only [hget, he] at h
          split_ifs at h with hours
          cases h
          exact .collectVote (List.mem_of_getElem? hget) he hours.1 hours.2
  | loseVote id peer =>
      simp only [step, Cluster.loseVote] at h
      rcases he : (s.nodes id).election with _ | e
      · simp [he] at h
      · simp only [he] at h
        split_ifs at h
        cases h
        exact .loseVote he
  | decideElection id =>
      simp only [step, Cluster.decideElection] at h
      rcases he : (s.nodes id).election with _ | e
      · simp [he] at h
      · simp only [he] at h
        split_ifs at h with _ hwon
        · -- only the winning branch stores `Role::Leader`
          cases h
          rcases (s.nodes id).decideElection_cases e with
            ⟨_, heq⟩ | ⟨hcandidate, hquorum, heq⟩ | ⟨_, heq⟩
          · simp [heq, hwon.2] at hwon
          · rw [heq]
            exact .winElection he hcandidate hquorum
          · simp [heq, Node.becomeFollower] at hwon
        · cases h
          rcases (s.nodes id).decideElection_cases e with
            ⟨hnot, heq⟩ | ⟨hcandidate, _, heq⟩ | ⟨hcandidate, heq⟩
          · rw [heq]
            exact .endElection he hnot
          · simp [heq, hcandidate] at hwon
          · rw [heq]
            exact .loseElection he hcandidate
  | propose id command =>
      simp only [step, Cluster.propose] at h
      by_cases hrole : (s.nodes id).role = .leader
      · have hchecked : (s.nodes id).checkLeader = .ok () := by simp [Node.checkLeader, hrole]
        simp only [hchecked, Option.some.injEq] at h
        subst h
        exact .propose hrole
      · have hthrows : (s.nodes id).checkLeader =
            .error (bytes "not leader; current leader: " ++ (s.nodes id).leaderId) := by
          simp [Node.checkLeader, hrole]
        simp [hthrows] at h
  | proposeAppend id command =>
      simp only [step, Cluster.proposeAppend] at h
      split_ifs at h with hin
      cases h
      exact .proposeAppend hin
  | proposeEnd id command logIndex =>
      simp only [step, Cluster.proposeEnd] at h
      split_ifs at h with hin
      cases h
      exact .proposeEnd hin
  | replicate id peer =>
      simp only [step, Cluster.replicate] at h
      split_ifs at h with hcan
      cases h
      exact .replicate hcan.1 hcan.2
  | sendAppend id peer =>
      simp only [step, Cluster.sendAppend] at h
      split_ifs at h with hin
      cases h
      exact .sendAppend hin
  | deliverAppend k =>
      simp only [step, Cluster.deliverAppend] at h
      rcases hget : s.appendRequests[k]? with _ | msg
      · simp [hget] at h
      · simp only [hget, Option.some.injEq] at h
        subst h
        exact .deliverAppend hget
  | deliverAppendReply k =>
      simp only [step, Cluster.deliverAppendReply] at h
      rcases hget : s.appendReplies[k]? with _ | ⟨msg, reply⟩
      · simp [hget] at h
      · simp only [hget, Option.some.injEq] at h
        subst h
        exact .deliverAppendReply hget
  | readCommitted id =>
      simp only [step, Cluster.readCommitted] at h
      split_ifs at h with hcan
      cases h
      exact .readCommitted hcan.1
  | applyNext id =>
      simp only [step, Cluster.applyTurn] at h
      rcases happlying : (s.nodes id).applying with _ | ⟨idx, committed⟩
      · simp [happlying] at h
      · simp only [happlying] at h
        split_ifs at h with hle
        cases h
        exact .applyNext happlying hle
  | applyMiss id =>
      simp only [step, Cluster.applyTurn] at h
      rcases happlying : (s.nodes id).applying with _ | ⟨idx, committed⟩
      · simp [happlying] at h
      · simp only [happlying] at h
        split_ifs at h with hle
        cases h
        exact .applyMiss happlying hle
  | restart id =>
      simp only [step, Cluster.restart] at h
      split_ifs at h with hid
      cases h
      exact .restart hid

end Cluster

/-! ## Three members -/

namespace Trio

def a : Bytes := bytes "a"
def b : Bytes := bytes "b"
def c : Bytes := bytes "c"

def trio : Members where
  ids := [a, b, c]
  nodup := by decide

end Trio

end Raft
end ControlDB
