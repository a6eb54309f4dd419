import ControlDB.Core.Types
import ControlDB.Library.Replication

/-!
# The Raft log

`RaftLog` of `raft/log.cpp`: the vector of entries in memory.  `raft.log` on disk holds the same
entries after every call; `entry_hash` is never computed and is left out.
-/

namespace ControlDB
namespace Raft

open Library

structure LogEntry where
  index : Nat
  term : Nat
  command : Bytes
  deriving DecidableEq, Repr

structure RaftLog where
  entries : List LogEntry := []
  deriving DecidableEq, Repr

namespace RaftLog

def lastIndex (log : RaftLog) : Nat :=
  (log.entries.getLast?.map LogEntry.index).getD 0

def lastTerm (log : RaftLog) : Nat :=
  (log.entries.getLast?.map LogEntry.term).getD 0

/-- The entry at a 1-based index. -/
def get (log : RaftLog) (index : Nat) : Option LogEntry :=
  match log.entries.head?, log.entries.getLast? with
  | some front, some back =>
      if index < front.index ∨ index > back.index then none
      else log.entries[index - front.index]?
  | _, _ => none

def termAt (log : RaftLog) (index : Nat) : Nat :=
  ((log.get index).map LogEntry.term).getD 0

/-- The entries from one index to another, both included; indexes outside the log are skipped. -/
def getRange (log : RaftLog) (fromIndex toIndex : Nat) : List LogEntry :=
  match log.entries.head? with
  | none => []
  | some front =>
      (List.range' fromIndex (toIndex + 1 - fromIndex)).filterMap fun idx =>
        if idx < front.index then none else log.entries[idx - front.index]?

/-- Append one entry and return its index. -/
def append (log : RaftLog) (term : Nat) (command : Bytes) : RaftLog × Nat :=
  let index := (log.entries.getLast?.map fun back => back.index + 1).getD 1
  (⟨log.entries ++ [⟨index, term, command⟩]⟩, index)

def appendBatch (log : RaftLog) (entries : List LogEntry) : RaftLog :=
  ⟨log.entries ++ entries⟩

def truncateSuffix (log : RaftLog) (keepIndex : Nat) : RaftLog :=
  ⟨log.entries.rdropWhile fun e => decide (e.index > keepIndex)⟩

/-- A log with this last entry is at least as recent as this one. -/
def isUpToDate (log : RaftLog) (lastLogTerm lastLogIndex : Nat) : Bool :=
  if lastLogTerm ≠ log.lastTerm then decide (lastLogTerm > log.lastTerm)
  else decide (lastLogIndex ≥ log.lastIndex)

/-! ## Logs whose entries sit at their index -/

/-- Every entry has the index of its place. -/
def Indexed (log : RaftLog) : Prop :=
  ∀ k e, log.entries[k]? = some e → e.index = k + 1

/-- Terms and commands, without the indexes. -/
def view (log : RaftLog) : List (Replication.Entry Bytes) :=
  log.entries.map fun e => ⟨e.term, e.command⟩

section Indexed

variable {log : RaftLog}

theorem indexed_empty : Indexed {} := by
  simp [Indexed]

@[simp] theorem length_view : log.view.length = log.entries.length := by
  simp [view]

theorem getElem?_view (k : Nat) :
    log.view[k]? = log.entries[k]?.map fun e => ⟨e.term, e.command⟩ := by
  simp [view]

/-- The terms and commands determine a log with its entries in place. -/
theorem Indexed.getElem?_congr {log' : RaftLog} (h : log.Indexed) (h' : log'.Indexed) {k : Nat}
    (hsame : log.view[k]? = log'.view[k]?) : log.entries[k]? = log'.entries[k]? := by
  rw [getElem?_view, getElem?_view] at hsame
  rcases hget : log.entries[k]? with _ | ⟨index, term, command⟩
  · rw [hget, Option.map_none] at hsame
    exact (Option.map_eq_none_iff.1 hsame.symm).symm
  · rcases hget' : log'.entries[k]? with _ | ⟨index', term', command'⟩
    · simp [hget, hget'] at hsame
    · have hindex := h k _ hget
      have hindex' := h' k _ hget'
      simp_all

/-- An entry of the log sits at its index, which counts from 1. -/
theorem Indexed.getElem?_of_mem (h : log.Indexed) {e : LogEntry} (he : e ∈ log.entries) :
    0 < e.index ∧ log.entries[e.index - 1]? = some e := by
  rcases List.mem_iff_getElem?.1 he with ⟨k, hget⟩
  have hindex := h k e hget
  rw [hindex, Nat.add_sub_cancel]
  exact ⟨Nat.succ_pos k, hget⟩

theorem Indexed.getLast? (h : log.Indexed) {e : LogEntry} (hlast : log.entries.getLast? = some e) :
    e.index = log.entries.length := by
  have hpos : 0 < log.entries.length := by
    rcases hentries : log.entries with _ | ⟨front, rest⟩
    · simp [hentries] at hlast
    · simp
  rw [List.getLast?_eq_getElem?] at hlast
  have hindex := h _ e hlast
  omega

theorem Indexed.head? (h : log.Indexed) {e : LogEntry} (hhead : log.entries.head? = some e) :
    e.index = 1 := by
  rw [List.head?_eq_getElem?] at hhead
  exact h 0 e hhead

theorem Indexed.lastIndex_eq (h : log.Indexed) : log.lastIndex = log.view.length := by
  rcases hlast : log.entries.getLast? with _ | e
  · have hnil : log.entries = [] := List.getLast?_eq_none_iff.1 hlast
    simp [lastIndex, hnil]
  · simp [lastIndex, hlast, h.getLast? hlast]

theorem Indexed.get_succ (h : log.Indexed) (i : Nat) : log.get (i + 1) = log.entries[i]? := by
  rcases hentries : log.entries with _ | ⟨front, rest⟩
  · simp [get, hentries]
  · rcases hlast : log.entries.getLast? with _ | back
    · simp [hentries] at hlast
    · have hfront : front.index = 1 := h.head? (by simp [hentries])
      have hback := h.getLast? hlast
      simp only [hentries] at hlast hback
      by_cases hin : i < (front :: rest).length
      · simp only [get, hentries, List.head?_cons, hlast, hfront]
        rw [if_neg (by omega)]
        simp
      · simp only [get, hentries, List.head?_cons, hlast, hfront]
        rw [if_pos (by omega)]
        exact (List.getElem?_eq_none (by omega)).symm

theorem Indexed.get_zero (h : log.Indexed) : log.get 0 = none := by
  rcases hhead : log.entries.head? with _ | front
  · simp [get, hhead]
  · rcases hlast : log.entries.getLast? with _ | back
    · simp [get, hlast]
    · have hfront : front.index = 1 := h.head? hhead
      simp [get, hhead, hlast, hfront]

theorem Indexed.termAt_eq (h : log.Indexed) (i : Nat) :
    log.termAt i = Replication.termAt log.view i := by
  cases i with
  | zero => simp [termAt, h.get_zero, Replication.termAt]
  | succ i =>
      rcases hget : log.entries[i]? with _ | e <;>
        simp [termAt, h.get_succ, Replication.termAt, getElem?_view, hget]

theorem lastTerm_eq :
    log.lastTerm = Replication.lastTerm log.view := by
  rcases hlast : log.entries.getLast? with _ | e
  · have hnil : log.entries = [] := List.getLast?_eq_none_iff.1 hlast
    simp [lastTerm, hnil, view, Replication.lastTerm, Replication.termAt]
  · have hne : log.view ≠ [] := by
      rintro hnil
      simp [List.map_eq_nil_iff.1 hnil] at hlast
    rcases Replication.lastTerm_eq hne with ⟨last, hget, hterm⟩
    rw [List.getLast?_eq_getElem?] at hlast
    have hsame : last.term = e.term := by
      simp only [length_view, getElem?_view, hlast, Option.map_some, Option.some.injEq] at hget
      rw [← hget]
    simp [lastTerm, List.getLast?_eq_getElem?, hlast, hterm, hsame]

theorem Indexed.isUpToDate_iff (h : log.Indexed) (l : List (Replication.Entry Bytes)) :
    log.isUpToDate (Replication.lastTerm l) l.length = true ↔ Replication.UpToDate l log.view := by
  unfold isUpToDate Replication.UpToDate
  rw [lastTerm_eq, h.lastIndex_eq]
  split_ifs with hdiffers
  · simp [hdiffers]
  · have hsame := not_not.1 hdiffers
    simp [hsame]

theorem Indexed.append_eq (h : log.Indexed) (term : Nat) (command : Bytes) :
    log.append term command =
      (⟨log.entries ++ [⟨log.entries.length + 1, term, command⟩]⟩, log.entries.length + 1) := by
  rcases hlast : log.entries.getLast? with _ | e
  · have hnil : log.entries = [] := List.getLast?_eq_none_iff.1 hlast
    simp [append, hnil]
  · simp [append, hlast, h.getLast? hlast]

theorem Indexed.concat (h : log.Indexed) (term : Nat) (command : Bytes) :
    Indexed ⟨log.entries ++ [⟨log.entries.length + 1, term, command⟩]⟩ := by
  intro k e hget
  rcases Nat.lt_or_ge k log.entries.length with hlt | hge
  · exact h k e (by simpa [List.getElem?_append_left hlt] using hget)
  · rw [List.getElem?_append_right hge] at hget
    have hk : k - log.entries.length = 0 := by
      by_contra hne
      simp [hne] at hget
    simp only [hk, List.getElem?_cons_zero, Option.some.injEq] at hget
    subst hget
    dsimp only
    omega

theorem Indexed.take (h : log.Indexed) (k : Nat) : Indexed ⟨log.entries.take k⟩ := by
  intro i e hget
  simp only [List.getElem?_take] at hget
  split_ifs at hget
  exact h i e hget

/-- In a log with its entries in place, the entries beyond an index are a suffix. -/
theorem Indexed.truncateSuffix_eq (h : log.Indexed) (keepIndex : Nat) :
    log.truncateSuffix keepIndex = ⟨log.entries.take keepIndex⟩ := by
  rcases log with ⟨entries⟩
  simp only [truncateSuffix, mk.injEq]
  induction entries using List.reverseRecOn with
  | nil => simp
  | append_singleton entries e ih =>
      have hindex : e.index = entries.length + 1 := h _ e (by simp)
      have hinit : Indexed ⟨entries⟩ := by simpa using h.take entries.length
      by_cases hkeep : keepIndex < entries.length + 1
      · -- the last entry goes
        rw [List.rdropWhile_concat_pos _ _ _ (by simpa [hindex] using hkeep), ih hinit]
        exact (List.take_append_of_le_length (Nat.le_of_lt_succ hkeep)).symm
      · rw [List.rdropWhile_concat_neg _ _ _ (by simpa [hindex] using hkeep)]
        exact (List.take_of_length_le (by simpa using Nat.le_of_not_lt hkeep)).symm

theorem filterMap_range'_eq_drop (l : List LogEntry) (m first : Nat) (hfirst : 0 < first)
    (hm : first - 1 + m = l.length) :
    ((List.range' first m).filterMap fun idx => l[idx - 1]?) = l.drop (first - 1) := by
  induction m generalizing first with
  | zero => simp [← hm]
  | succ m ih =>
      have hlt : first - 1 < l.length := by omega
      have hrest := ih (first + 1) (Nat.succ_pos first) (by omega)
      have hnext : first + 1 - 1 = first - 1 + 1 := by omega
      calc ((List.range' first (m + 1)).filterMap fun idx => l[idx - 1]?)
          = l[first - 1] :: ((List.range' (first + 1) m).filterMap fun idx => l[idx - 1]?) := by
            simp [List.range'_succ, List.getElem?_eq_getElem hlt]
        _ = l[first - 1] :: l.drop (first - 1 + 1) := by rw [hrest, hnext]
        _ = l.drop (first - 1) := (List.drop_eq_getElem_cons hlt).symm

theorem Indexed.getRange_eq (h : log.Indexed) {fromIndex : Nat} (hfrom : 0 < fromIndex) :
    log.getRange fromIndex log.lastIndex = log.entries.drop (fromIndex - 1) := by
  rw [h.lastIndex_eq]
  rcases hentries : log.entries with _ | ⟨front, rest⟩
  · simp [getRange, hentries]
  · have hfront : front.index = 1 := h.head? (by simp [hentries])
    -- no index lies below the front of the log
    have hskip : ∀ idx, idx ∈ List.range' fromIndex (log.view.length + 1 - fromIndex) →
        (if idx < front.index then none else (front :: rest)[idx - front.index]?) =
          (front :: rest)[idx - 1]? := by
      intro idx hidx
      have hle := (List.mem_range'_1.1 hidx).1
      rw [hfront, if_neg (by omega)]
    simp only [getRange, hentries, List.head?_cons]
    rw [List.filterMap_congr hskip]
    rcases Nat.lt_or_ge log.view.length (fromIndex - 1) with hpast | hin
    · -- the range starts beyond the end
      have hempty : log.view.length + 1 - fromIndex = 0 := by omega
      simp only [length_view, hentries] at hpast
      simp only [hempty, List.range'_zero, List.filterMap_nil]
      exact (List.drop_eq_nil_of_le (by omega)).symm
    -- otherwise it runs from the index to the end
    · apply filterMap_range'_eq_drop _ _ _ hfrom
      simp only [length_view, hentries] at hin ⊢
      omega

end Indexed

end RaftLog
end Raft
end ControlDB
