import ControlDB.Raft.Cluster

/-!
# What an append request does to a log

`handle_append_entries` leaves the log alone, cuts it before the index the request follows, or
splices the received commands into it under the sender's term.
-/

namespace ControlDB
namespace Raft

open Library

namespace Node

/-! ## The loop over the commands -/

/-- The entries for commands placed from an index on. -/
def placed (term : Nat) : Nat → List Bytes → List LogEntry
  | _, [] => []
  | idx, command :: rest => ⟨idx, term, command⟩ :: placed term (idx + 1) rest

/-- Beyond the end of the log, all commands become new entries. -/
theorem placeEntries_beyond {term : Nat} {log : RaftLog} (commands : List Bytes) (idx : Nat)
    (newEntries : List LogEntry) (hidx : log.lastIndex < idx) :
    placeEntries term idx commands log newEntries =
      (log, newEntries ++ placed term idx commands) := by
  induction commands generalizing idx newEntries with
  | nil => simp [placeEntries, placed]
  | cons command rest ih =>
      have hrest := ih (idx + 1) (newEntries ++ [⟨idx, term, command⟩]) (by omega)
      rw [placeEntries, if_neg (by omega), hrest]
      simp [placed]

theorem view_append_placed {term : Nat} (log : RaftLog) (idx : Nat) (commands : List Bytes) :
    (log.appendBatch (placed term idx commands)).view =
      log.view ++ commands.map (Replication.Entry.mk term) := by
  have hplaced : ∀ idx, (placed term idx commands).map
      (fun e => (⟨e.term, e.command⟩ : Replication.Entry Bytes)) =
        commands.map (Replication.Entry.mk term) := by
    induction commands with
    | nil => exact fun _ => rfl
    | cons command rest ih => exact fun idx => by simp [placed, ih (idx + 1)]
  simp [RaftLog.view, RaftLog.appendBatch, hplaced idx]

theorem indexed_append_placed {term : Nat} {log : RaftLog} (h : log.Indexed)
    (commands : List Bytes) :
    (log.appendBatch (placed term (log.entries.length + 1) commands)).Indexed := by
  induction commands generalizing log with
  | nil => simpa [RaftLog.appendBatch, placed] using h
  | cons command rest ih =>
      have hrest := ih (h.concat term command)
      simpa [RaftLog.appendBatch, placed] using hrest

/-- The loop and the append after it splice the commands into the log. -/
theorem placeEntries_spec (term : Nat) {log : RaftLog} (h : log.Indexed) (commands : List Bytes)
    (i : Nat) (hi : i ≤ log.view.length) :
    let placing := placeEntries term (i + 1) commands log []
    (placing.1.appendBatch placing.2).Indexed ∧
      (placing.1.appendBatch placing.2).view =
        Replication.splice term log.view i commands := by
  induction commands generalizing i with
  | nil =>
      dsimp only [placeEntries, Replication.splice]
      simpa [RaftLog.appendBatch] using h
  | cons command rest ih =>
      have hlast := h.lastIndex_eq
      have hterm := h.termAt_eq (i + 1)
      simp only [Replication.termAt] at hterm
      dsimp only
      rw [placeEntries]
      by_cases hin : i + 1 ≤ log.lastIndex
      · rw [if_pos hin]
        rcases hget : log.view[i]? with _ | e
        · have hle := List.getElem?_eq_none_iff.1 hget
          omega
        · simp only [hget, Option.map_some, Option.getD_some] at hterm
          by_cases hsame : e.term = term
          · -- the entry is there already
            rw [if_neg (by simp [hterm, hsame])]
            have hsplice : Replication.splice term log.view i (command :: rest) =
                Replication.splice term log.view (i + 1) rest := by
              simp [Replication.splice, hget, hsame]
            rw [hsplice]
            exact ih (i + 1) (by omega)
          · -- the log is cut here, and the rest lies beyond its end
            have hcut : log.truncateSuffix (i + 1 - 1) = ⟨log.entries.take i⟩ :=
              h.truncateSuffix_eq i
            have htake := h.take i
            have hlength : (log.entries.take i).length = i := by
              simpa using hi
            have hend : RaftLog.lastIndex ⟨log.entries.take i⟩ < i + 1 + 1 := by
              rw [htake.lastIndex_eq]
              simp only [RaftLog.length_view, hlength]
              omega
            have hsplice : Replication.splice term log.view i (command :: rest) =
                log.view.take i ++ (command :: rest).map (Replication.Entry.mk term) := by
              simp [Replication.splice, hget, hsame]
            rw [if_pos (by simp [hterm, hsame]), hcut, placeEntries_beyond _ _ _ hend, hsplice]
            have hbatch : [(⟨i + 1, term, command⟩ : LogEntry)] ++ placed term (i + 1 + 1) rest =
                placed term ((log.entries.take i).length + 1) (command :: rest) := by
              simp [hlength, placed]
            refine ⟨?_, ?_⟩
            · simp only [List.nil_append, hbatch]
              exact indexed_append_placed htake _
            · simp only [List.nil_append, hbatch, view_append_placed]
              simp [RaftLog.view, List.map_take]
      · have hend : i = log.view.length := by omega
        have hnone : log.view[i]? = none := List.getElem?_eq_none (by omega)
        have hsplice : Replication.splice term log.view i (command :: rest) =
            log.view ++ (command :: rest).map (Replication.Entry.mk term) := by
          simp [Replication.splice, hend]
        have hbatch : [(⟨i + 1, term, command⟩ : LogEntry)] ++ placed term (i + 1 + 1) rest =
            placed term (log.entries.length + 1) (command :: rest) := by
          rw [hend]
          simp [placed]
        rw [if_neg hin, placeEntries_beyond _ _ _ (by omega), hsplice]
        simp only [List.nil_append, hbatch]
        exact ⟨indexed_append_placed h _, view_append_placed _ _ _⟩

/-! ## The handler -/

/-- The three ways a request goes once its sender is recognised. -/
theorem followLeader_cases {n : Node} (h : n.log.Indexed) (replyTerm : Nat)
    (args : AppendEntriesArgs) :
    (n.log.view.length < args.prevLogIndex ∧
      (n.followLeader replyTerm args).1 =
        { n with leaderId := args.leaderId, role := .follower } ∧
      (n.followLeader replyTerm args).2.success = false) ∨
    (0 < args.prevLogIndex ∧ args.prevLogIndex ≤ n.log.view.length ∧
      Replication.termAt n.log.view args.prevLogIndex ≠ args.prevLogTerm ∧
      (n.followLeader replyTerm args).1 =
        { n with
          leaderId := args.leaderId
          role := .follower
          log := ⟨n.log.entries.take (args.prevLogIndex - 1)⟩ } ∧
      (n.followLeader replyTerm args).2.success = false) ∨
    (args.prevLogIndex ≤ n.log.view.length ∧
      (0 < args.prevLogIndex →
        Replication.termAt n.log.view args.prevLogIndex = args.prevLogTerm) ∧
      ∃ log : RaftLog, log.Indexed ∧
        log.view =
          Replication.splice args.term n.log.view args.prevLogIndex args.entries ∧
        (n.followLeader replyTerm args).1 =
          tryAdvanceCommit
            { n with leaderId := args.leaderId, role := .follower, log := log }
            args.leaderCommit ∧
        (n.followLeader replyTerm args).2.success = true) := by
  have hlast := h.lastIndex_eq
  have hterm := h.termAt_eq args.prevLogIndex
  unfold followLeader
  dsimp only
  by_cases hshort : args.prevLogIndex > 0 ∧ n.log.lastIndex < args.prevLogIndex
  · rw [if_pos hshort]
    exact .inl ⟨by omega, rfl, rfl⟩
  · rw [if_neg hshort]
    by_cases hdiffers : args.prevLogIndex > 0 ∧
        n.log.termAt args.prevLogIndex ≠ args.prevLogTerm
    · rw [if_pos hdiffers]
      refine .inr (.inl ⟨hdiffers.1, by omega, hterm ▸ hdiffers.2, ?_, rfl⟩)
      rw [h.truncateSuffix_eq]
    · rw [if_neg hdiffers]
      rcases placeEntries_spec args.term h args.entries args.prevLogIndex (by omega) with
        ⟨hindexed, hview⟩
      refine .inr (.inr ⟨by omega, fun hpos => ?_, _, hindexed, hview, rfl, rfl⟩)
      rw [← hterm]
      exact not_not.1 fun hne => hdiffers ⟨hpos, hne⟩

/-- A request that is not stale is followed in its term. -/
theorem handleAppendEntries_current {n : Node} {args : AppendEntriesArgs}
    (hcurrent : n.ps.currentTerm ≤ args.term) :
    ∃ n' : Node, n'.log = n.log ∧ n'.ps.currentTerm = args.term ∧
      (n.handleAppendEntries args).1 = (n'.followLeader n.ps.currentTerm args).1 := by
  rcases Nat.eq_or_lt_of_le hcurrent with hsame | hhigher
  · refine ⟨n, rfl, hsame, ?_⟩
    rw [handleAppendEntries, if_neg (by omega), if_neg (by omega)]
  · refine ⟨n.becomeFollower args.term, rfl, rfl, ?_⟩
    rw [handleAppendEntries, if_neg (by omega), if_pos hhigher]

theorem indexed_followLeader {n : Node} (h : n.log.Indexed) (replyTerm : Nat)
    (args : AppendEntriesArgs) : (n.followLeader replyTerm args).1.log.Indexed := by
  rcases followLeader_cases h replyTerm args with
    ⟨_, heq, _⟩ | ⟨_, _, _, heq, _⟩ | ⟨_, _, log, hindexed, _, heq, _⟩
  · rw [heq]
    exact h
  · rw [heq]
    exact h.take _
  · rw [heq, tryAdvanceCommit_eq]
    exact hindexed

/-- Whatever a request contains, the entries stay at their indexes. -/
theorem indexed_handleAppendEntries {n : Node} (h : n.log.Indexed) (args : AppendEntriesArgs) :
    (n.handleAppendEntries args).1.log.Indexed := by
  rcases Nat.lt_or_ge args.term n.ps.currentTerm with hstale | hcurrent
  · rw [handleAppendEntries, if_pos hstale]
    exact h
  · rcases handleAppendEntries_current hcurrent with ⟨n', hlog, _, heq⟩
    rw [heq]
    exact indexed_followLeader (hlog ▸ h) _ _

end Node
end Raft
end ControlDB
