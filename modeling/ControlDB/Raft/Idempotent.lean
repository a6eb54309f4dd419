import ControlDB.Raft.Follow

/-!
# Append requests that arrive again

A request that a node has just handled is a fixed point: whichever way it went the first time, the
second delivery takes the way that changes nothing.
-/

namespace ControlDB
namespace Raft

open Library

/-- Indexes, terms and commands determine a log with its entries in place. -/
theorem RaftLog.Indexed.eq_of_view {log log' : RaftLog} (h : log.Indexed) (h' : log'.Indexed)
    (hview : log.view = log'.view) : log = log' := by
  have hentries : log.entries = log'.entries :=
    List.ext_getElem? fun k => h.getElem?_congr h' (by rw [hview])
  cases log
  cases log'
  simpa using hentries

namespace Node

/-! ## The commit rule of a follower -/

/-- A follower that has just moved its committed index stays there. -/
theorem tryAdvanceCommit_again {n : Node} (hrole : n.role ≠ .leader) (leaderCommit : Nat) :
    (n.tryAdvanceCommit leaderCommit).tryAdvanceCommit leaderCommit =
      n.tryAdvanceCommit leaderCommit := by
  by_cases hbehind : leaderCommit > n.committedIndex
  · have hmoved : n.tryAdvanceCommit leaderCommit =
        { n with committedIndex := min leaderCommit n.log.lastIndex } := by
      rw [tryAdvanceCommit, if_pos hrole, if_pos hbehind]
    rw [hmoved, tryAdvanceCommit, if_pos hrole]
    exact ite_self _
  · have hstays : n.tryAdvanceCommit leaderCommit = n := by
      rw [tryAdvanceCommit, if_pos hrole, if_neg hbehind]
    rw [hstays, hstays]

/-! ## The handler -/

section Following

variable {n : Node} {args : AppendEntriesArgs}

/-- A node that follows the sender and has no entry at the index of the request stays. -/
theorem followLeader_short (h : n.log.Indexed) (hleader : n.leaderId = args.leaderId)
    (hrole : n.role = .follower) (hshort : n.log.view.length < args.prevLogIndex)
    (replyTerm : Nat) : (n.followLeader replyTerm args).1 = n := by
  rcases followLeader_cases h replyTerm args with
    ⟨_, heq, _⟩ | ⟨_, hle, _⟩ | ⟨hle, _⟩
  · rw [heq, ← hleader, ← hrole]
  · exact absurd hshort (Nat.not_lt.2 hle)
  · exact absurd hshort (Nat.not_lt.2 hle)

/-- A node that follows the sender and has every command in place at most moves its committed
index. -/
theorem followLeader_settled (h : n.log.Indexed) (hleader : n.leaderId = args.leaderId)
    (hrole : n.role = .follower) (hle : args.prevLogIndex ≤ n.log.view.length)
    (hterm : 0 < args.prevLogIndex →
      Replication.termAt n.log.view args.prevLogIndex = args.prevLogTerm)
    (hfound : Replication.splice args.term n.log.view args.prevLogIndex args.entries = n.log.view)
    (replyTerm : Nat) :
    (n.followLeader replyTerm args).1 = n.tryAdvanceCommit args.leaderCommit := by
  rcases followLeader_cases h replyTerm args with
    ⟨hshort, _⟩ | ⟨hpos, _, hdiffers, _⟩ | ⟨_, _, log, hlog, hview, heq, _⟩
  · exact absurd hshort (Nat.not_lt.2 hle)
  · exact absurd (hterm hpos) hdiffers
  · have hkept : log = n.log := hlog.eq_of_view h (hview.trans hfound)
    rw [heq, hkept, ← hleader, ← hrole]

/-- Following the same request again, under any reply term, changes nothing. -/
theorem followLeader_again (h : n.log.Indexed) (replyTerm replyTerm' : Nat) :
    ((n.followLeader replyTerm args).1.followLeader replyTerm' args).1 =
      (n.followLeader replyTerm args).1 := by
  rcases followLeader_cases h replyTerm args with
    ⟨hshort, heq, _⟩ | ⟨hpos, hle, _, heq, _⟩ | ⟨hle, hterm, log, hindexed, hview, heq, _⟩
  · rw [heq]
    apply followLeader_short
    exacts [h, rfl, rfl, hshort]
  · -- the log was cut before the index, so it is too short now
    have hcut : (RaftLog.view ⟨n.log.entries.take (args.prevLogIndex - 1)⟩).length <
        args.prevLogIndex := by
      simp only [RaftLog.length_view, List.length_take]
      omega
    rw [heq]
    apply followLeader_short
    exacts [h.take _, rfl, rfl, hcut]
  · -- the splice keeps what the consistency check looks at, and a second one finds everything
    have hkept : log.view.take args.prevLogIndex = n.log.view.take args.prevLogIndex := by
      rw [hview]
      exact Replication.splice_take_self hle fun j hij _ hj => by omega
    have hlength : args.prevLogIndex ≤ log.view.length :=
      Replication.le_length_of_take_eq hkept hle
    have hsame := Replication.termAt_of_take_eq hkept le_rfl
    have hfound : Replication.splice args.term log.view args.prevLogIndex args.entries =
        log.view := by
      rw [hview, Replication.splice_splice hle]
    have hagree : 0 < args.prevLogIndex →
        Replication.termAt log.view args.prevLogIndex = args.prevLogTerm :=
      fun hpos => hsame.trans (hterm hpos)
    rw [heq]
    generalize hn' : ({ n with leaderId := args.leaderId, role := .follower, log := log } : Node)
      = n'
    have hrole : n'.role = .follower := by rw [← hn']
    have hmoved := tryAdvanceCommit_eq n' args.leaderCommit
    calc ((n'.tryAdvanceCommit args.leaderCommit).followLeader replyTerm' args).1
        = (n'.tryAdvanceCommit args.leaderCommit).tryAdvanceCommit args.leaderCommit := by
          apply followLeader_settled
          all_goals rw [hmoved, ← hn']
          exacts [hindexed, hlength, hagree, hfound]
      _ = n'.tryAdvanceCommit args.leaderCommit :=
          tryAdvanceCommit_again (by simp [hrole]) _

end Following

/-- Delivering a request twice in a row leaves the node as delivering it once does. -/
theorem handleAppendEntries_idempotent (n : Node) (h : n.log.Indexed) (args : AppendEntriesArgs) :
    ((n.handleAppendEntries args).1.handleAppendEntries args).1 =
      (n.handleAppendEntries args).1 := by
  rcases Nat.lt_or_ge args.term n.ps.currentTerm with hstale | hcurrent
  · have hkept : (n.handleAppendEntries args).1 = n := by
      rw [handleAppendEntries, if_pos hstale]
    rw [hkept, hkept]
  · rcases handleAppendEntries_current hcurrent with ⟨n', hlog, hterm, heq⟩
    have hnow : (n.handleAppendEntries args).1.ps.currentTerm = args.term := by
      rcases followLeader_eq n' n.ps.currentTerm args with ⟨log, k, hfollow⟩
      rw [heq, hfollow]
      exact hterm
    have hsecond : ((n.handleAppendEntries args).1.handleAppendEntries args).1 =
        ((n.handleAppendEntries args).1.followLeader
          (n.handleAppendEntries args).1.ps.currentTerm args).1 := by
      rw [handleAppendEntries, if_neg (by omega), if_neg (by omega)]
    rw [hsecond, heq]
    exact followLeader_again (hlog ▸ h) _ _

namespace RetryExample

/-- A leader of term 1 that has written one command. -/
def node : Node where
  nodeId := bytes "b"
  peers := [bytes "a"]
  log := ⟨[⟨1, 1, bytes "x"⟩]⟩
  ps := { currentTerm := 1, votedFor := bytes "b" }
  role := .leader

/-- The leader of term 2 replaces that command. -/
def request : AppendEntriesArgs where
  term := 2
  leaderId := bytes "a"
  prevLogIndex := 0
  prevLogTerm := 0
  entries := [bytes "y"]
  leaderCommit := 1

theorem node_indexed : node.log.Indexed := by
  intro k e hget
  cases k with
  | zero =>
      simp only [node, List.getElem?_cons_zero, Option.some.injEq] at hget
      rw [← hget]
  | succ k => simp [node] at hget

end RetryExample

theorem handleAppendEntries_idempotent_example :
    (RetryExample.node.handleAppendEntries RetryExample.request).1.log =
        ⟨[⟨1, 2, bytes "y"⟩]⟩ ∧
      ((RetryExample.node.handleAppendEntries RetryExample.request).1.handleAppendEntries
        RetryExample.request).1 =
        (RetryExample.node.handleAppendEntries RetryExample.request).1 :=
  ⟨by decide, handleAppendEntries_idempotent RetryExample.node RetryExample.node_indexed
    RetryExample.request⟩

end Node
end Raft
end ControlDB
