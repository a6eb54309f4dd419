import ControlDB.Library.Decimal
import ControlDB.Raft.Log

/-!
# A Raft node

`raft/node.cpp` in multi-node mode, one function for each critical section.  What a thread carries
from one section to the next (the locals of `run_election`, a `propose` that waits, a
`replicate_to_peer` about to build its request, the range `apply_committed` has read) is kept in
the node.  Terms and indexes are natural numbers; timers decide nothing here.
-/

namespace ControlDB
namespace Raft

open Library
open Function (update)

/-! ## The state file -/

def isSpace (b : UInt8) : Bool :=
  b == 0x20 || (decide (0x09 ≤ b) && decide (b ≤ 0x0d))

def isDigit (b : UInt8) : Bool :=
  decide (0x30 ≤ b) && decide (b ≤ 0x39)

structure PersistentState where
  currentTerm : Nat := 0
  /-- Empty: not voted this term. -/
  votedFor : Bytes := []
  deriving DecidableEq, Repr

namespace PersistentState

/-- The text of `raft_state.txt`. -/
def save (ps : PersistentState) : Bytes :=
  decimal ps.currentTerm ++ 0x0a :: ps.votedFor ++ [0x0a]

/-- `f >> current_term`, then `f >> voted_for`: each skips blanks first. -/
def load : Option Bytes → PersistentState
  | none => {}
  | some text =>
      let number := text.dropWhile isSpace
      if number.takeWhile isDigit = [] then {}
      else
        { currentTerm := ofDecimal (number.takeWhile isDigit)
          votedFor := ((number.dropWhile isDigit).dropWhile isSpace).takeWhile fun b => !isSpace b }

end PersistentState

/-! ## Messages -/

structure RequestVoteArgs where
  term : Nat
  candidateId : Bytes
  lastLogIndex : Nat
  lastLogTerm : Nat
  deriving DecidableEq, Repr

structure RequestVoteReply where
  term : Nat
  voteGranted : Bool
  deriving DecidableEq, Repr

structure AppendEntriesArgs where
  term : Nat
  leaderId : Bytes
  prevLogIndex : Nat
  prevLogTerm : Nat
  entries : List Bytes
  leaderCommit : Nat
  deriving DecidableEq, Repr

structure AppendEntriesReply where
  term : Nat
  success : Bool := false
  conflictIndex : Nat := 0
  conflictTerm : Nat := 0
  deriving DecidableEq, Repr

/-! ## The node -/

inductive Role
  | follower
  | candidate
  | leader
  deriving DecidableEq, Repr

structure PeerState where
  nextIndex : Nat := 1
  matchIndex : Nat := 0
  deriving DecidableEq, Repr

/-- The locals of `run_election`, and the peers whose reply it still waits for. -/
structure Election where
  term : Nat
  lastIdx : Nat
  lastTerm : Nat
  votes : Nat
  awaited : List Bytes
  deriving DecidableEq, Repr

structure Node where
  nodeId : Bytes
  peers : List Bytes
  log : RaftLog := {}
  ps : PersistentState := {}
  stateFile : Option Bytes := none
  role : Role := .follower
  committedIndex : Nat := 0
  lastApplied : Nat := 0
  leaderId : Bytes := []
  peerStates : Bytes → PeerState := fun _ => {}
  election : Option Election := none
  /-- Commands of `propose` calls that have passed the role check. -/
  proposed : List Bytes := []
  /-- Commands and log indexes of `propose` calls that wait. -/
  waiting : List (Bytes × Nat) := []
  /-- Peers of `replicate_to_peer` calls that have passed the role check. -/
  replicating : List Bytes := []
  /-- The next index `apply_committed` looks at, and the last of its range. -/
  applying : Option (Nat × Nat) := none
  /-- The calls of `apply_fn` so far. -/
  applied : List (Nat × Bytes) := []

namespace Node

def hasQuorum (n : Node) (voteCount : Nat) : Bool :=
  decide (voteCount > (n.peers.length + 1) / 2)

def persist (n : Node) : Node :=
  { n with stateFile := some n.ps.save }

def becomeFollower (n : Node) (term : Nat) : Node :=
  { persist { n with ps := { currentTerm := term, votedFor := [] } } with
    role := .follower
    leaderId := [] }

def tryGrantVote (n : Node) (args : RequestVoteArgs) : Node × Bool :=
  if args.term < n.ps.currentTerm then (n, false)
  else if n.ps.votedFor ≠ [] ∧ n.ps.votedFor ≠ args.candidateId then (n, false)
  else if !n.log.isUpToDate args.lastLogTerm args.lastLogIndex then (n, false)
  else (persist { n with ps := { n.ps with votedFor := args.candidateId } }, true)

/-- The match indexes that the commit rule sorts, the node's own last index first. -/
def matchVals (n : Node) : List Nat :=
  n.log.lastIndex :: n.peers.map fun peer => (n.peerStates peer).matchIndex

def tryAdvanceCommit (n : Node) (leaderCommit : Nat) : Node :=
  if n.role ≠ .leader then
    if leaderCommit > n.committedIndex then
      { n with committedIndex := min leaderCommit n.log.lastIndex }
    else n
  else
    let majority := min ((n.peers.length + 1) / 2 + 1) n.matchVals.length
    let newCommit := (n.matchVals.insertionSort (· ≥ ·))[majority - 1]?.getD 0
    if newCommit > n.committedIndex ∧ n.log.termAt newCommit = n.ps.currentTerm then
      { n with committedIndex := newCommit }
    else n

/-! ### Elections -/

/-- What `run_election` sets up: the candidate votes for itself. -/
def newElection (n : Node) : Election where
  term := n.ps.currentTerm + 1
  lastIdx := n.log.lastIndex
  lastTerm := n.log.lastTerm
  votes := 1
  awaited := n.peers

/-- The first part of `run_election`: become a candidate. -/
def startElection (n : Node) : Node :=
  { persist { n with ps := { currentTerm := n.ps.currentTerm + 1, votedFor := n.nodeId } } with
    role := .candidate
    election := some n.newElection }

def voteArgs (n : Node) (e : Election) : RequestVoteArgs :=
  { term := e.term, candidateId := n.nodeId, lastLogIndex := e.lastIdx, lastLogTerm := e.lastTerm }

/-- One vote thread of `run_election` ends, with a reply or with an exception. -/
def collectVote (n : Node) (e : Election) (peer : Bytes) : Option RequestVoteReply → Node
  | none => { n with election := some { e with awaited := e.awaited.erase peer } }
  | some reply =>
      if reply.term > n.ps.currentTerm then
        { becomeFollower n reply.term with
          election := some { e with awaited := e.awaited.erase peer } }
      else if reply.voteGranted then
        { n with
          election := some { e with votes := e.votes + 1, awaited := e.awaited.erase peer } }
      else { n with election := some { e with awaited := e.awaited.erase peer } }

/-- The last part of `run_election`. -/
def decideElection (n : Node) (e : Election) : Node :=
  if n.role ≠ .candidate then { n with election := none }
  else if n.hasQuorum e.votes then
    { n with
      role := .leader
      leaderId := n.nodeId
      peerStates := fun _ => { nextIndex := n.log.lastIndex + 1, matchIndex := 0 }
      election := none }
  else { becomeFollower n n.ps.currentTerm with election := none }

def handleRequestVote (n : Node) (args : RequestVoteArgs) : Node × RequestVoteReply :=
  let n := if args.term > n.ps.currentTerm then becomeFollower n args.term else n
  if args.term < n.ps.currentTerm then (n, ⟨n.ps.currentTerm, false⟩)
  else
    let (n', granted) := tryGrantVote n args
    (n', ⟨n.ps.currentTerm, granted⟩)

/-! ### Replication -/

/-- The request of `replicate_to_peer`, and the entries its commands come from. -/
def replicateArgs (n : Node) (peer : Bytes) : AppendEntriesArgs × List LogEntry :=
  let nextIdx := (n.peerStates peer).nextIndex
  let prevIdx := nextIdx - 1
  let entries := n.log.getRange nextIdx n.log.lastIndex
  ({ term := n.ps.currentTerm
     leaderId := n.nodeId
     prevLogIndex := prevIdx
     prevLogTerm := n.log.termAt prevIdx
     entries := entries.map LogEntry.command
     leaderCommit := n.committedIndex }, entries)

/-- The loop of `handle_append_entries` over the received commands: the log as cut so far, and the
new entries collected. -/
def placeEntries (term : Nat) : Nat → List Bytes → RaftLog → List LogEntry →
    RaftLog × List LogEntry
  | _, [], log, newEntries => (log, newEntries)
  | idx, command :: rest, log, newEntries =>
      if idx ≤ log.lastIndex then
        if log.termAt idx ≠ term then
          placeEntries term (idx + 1) rest (log.truncateSuffix (idx - 1))
            (newEntries ++ [⟨idx, term, command⟩])
        else placeEntries term (idx + 1) rest log newEntries
      else placeEntries term (idx + 1) rest log (newEntries ++ [⟨idx, term, command⟩])

/-- `handle_append_entries` once the sender is recognised as leader of the term. -/
def followLeader (n : Node) (replyTerm : Nat) (args : AppendEntriesArgs) :
    Node × AppendEntriesReply :=
  let n := { n with leaderId := args.leaderId, role := .follower }
  if args.prevLogIndex > 0 ∧ n.log.lastIndex < args.prevLogIndex then
    (n, { term := replyTerm, conflictIndex := n.log.lastIndex + 1 })
  else if args.prevLogIndex > 0 ∧ n.log.termAt args.prevLogIndex ≠ args.prevLogTerm then
    ({ n with log := n.log.truncateSuffix (args.prevLogIndex - 1) },
      { term := replyTerm
        conflictIndex := args.prevLogIndex
        conflictTerm := n.log.termAt args.prevLogIndex })
  else
    let (log, newEntries) := placeEntries args.term (args.prevLogIndex + 1) args.entries n.log []
    (tryAdvanceCommit { n with log := log.appendBatch newEntries } args.leaderCommit,
      { term := replyTerm, success := true })

/-- The reply carries the term from before the request was looked at. -/
def handleAppendEntries (n : Node) (args : AppendEntriesArgs) : Node × AppendEntriesReply :=
  if args.term < n.ps.currentTerm then (n, { term := n.ps.currentTerm })
  else if args.term > n.ps.currentTerm then
    followLeader (becomeFollower n args.term) n.ps.currentTerm args
  else followLeader n n.ps.currentTerm args

/-- `replicate_to_peer` once the reply is there. -/
def handleAppendReply (n : Node) (peer : Bytes) (args : AppendEntriesArgs)
    (reply : AppendEntriesReply) : Node :=
  if reply.term > n.ps.currentTerm then becomeFollower n reply.term
  else if reply.success then
    let newMatch := args.prevLogIndex + args.entries.length
    tryAdvanceCommit
      { n with
        peerStates := update n.peerStates peer
          { nextIndex := newMatch + 1, matchIndex := newMatch } }
      args.leaderCommit
  else
    let ni := (n.peerStates peer).nextIndex
    if ni > 1 then
      { n with
        peerStates := update n.peerStates peer
          { n.peerStates peer with nextIndex := ni - 1 } }
    else n

/-! ### Proposals -/

/-- The role check of `propose`, which holds no lock. -/
def checkLeader (n : Node) : Except Bytes Unit :=
  if n.role ≠ .leader then .error (bytes "not leader; current leader: " ++ n.leaderId)
  else .ok ()

/-- The append of a `propose` call that has passed the role check. -/
def proposeAppend (n : Node) (command : Bytes) : Node :=
  let (log, logIndex) := n.log.append n.ps.currentTerm command
  { n with
    log
    proposed := n.proposed.erase command
    waiting := n.waiting ++ [(command, logIndex)] }

/-- A waiting `propose` ends: it returns if its index is committed and throws otherwise. -/
def proposeEnd (n : Node) (command : Bytes) (logIndex : Nat) : Node × Except Bytes Unit :=
  ({ n with waiting := n.waiting.erase (command, logIndex) },
    if n.committedIndex < logIndex then .error (bytes "Raft propose timeout") else .ok ())

/-! ### The state machine -/

/-- `apply_committed` reads the range to apply. -/
def readCommitted (n : Node) : Node :=
  { n with applying := some (n.lastApplied + 1, n.committedIndex) }

/-- One turn of its loop, given what `log->get` returned for the index. -/
def applyEntry (n : Node) (idx committed : Nat) : Option LogEntry → Node
  | none => { n with applying := some (idx + 1, committed) }
  | some entry =>
      { n with
        applying := some (idx + 1, committed)
        lastApplied := idx
        applied := n.applied ++ [(idx, entry.command)] }

/-- The process ends and a new one opens the same directory. -/
def restart (n : Node) : Node :=
  { nodeId := n.nodeId
    peers := n.peers
    log := n.log
    ps := PersistentState.load n.stateFile
    stateFile := n.stateFile
    peerStates := fun _ => { nextIndex := n.log.lastIndex + 1 }
    applied := n.applied }

/-! ### What the handlers leave alone -/

variable (n : Node)

/-- The commit rule moves the committed index only. -/
theorem tryAdvanceCommit_eq (leaderCommit : Nat) :
    n.tryAdvanceCommit leaderCommit =
      { n with committedIndex := (n.tryAdvanceCommit leaderCommit).committedIndex } := by
  unfold tryAdvanceCommit
  dsimp only
  split_ifs <;> rfl

theorem followLeader_eq (replyTerm : Nat) (args : AppendEntriesArgs) :
    ∃ log k, (n.followLeader replyTerm args).1 =
      { n with leaderId := args.leaderId, role := .follower, log := log, committedIndex := k } := by
  unfold followLeader
  dsimp only
  split_ifs
  · exact ⟨n.log, n.committedIndex, rfl⟩
  · exact ⟨_, n.committedIndex, rfl⟩
  · dsimp only
    rw [tryAdvanceCommit_eq]
    exact ⟨_, _, rfl⟩

end Node
end Raft
end ControlDB
