import ControlDB.Raft.Follow
import ControlDB.Raft.LogFile

/-!
# The shape of a Raft log on disk

The vector of a `RaftLog` and its file under all calls that a node makes, `handle_append_entries`
with the widths of its fields among them: the entries sit at the indexes from 1 on, and an opening
finds them again.
-/

namespace ControlDB
namespace Raft

open Library

/-- `raft.log`, and the vector of the process that has it open. -/
structure OpenLog where
  file : Bytes := []
  entries : List StoredEntry := []
  deriving DecidableEq, Repr

/-- An append request with the widths of its fields. -/
structure WireArgs where
  term : UInt64
  leaderId : Bytes
  prevLogIndex : UInt64
  prevLogTerm : UInt64
  entries : List Bytes
  leaderCommit : UInt64
  deriving DecidableEq, Repr

def WireArgs.args (a : WireArgs) : AppendEntriesArgs where
  term := a.term.toNat
  leaderId := a.leaderId
  prevLogIndex := a.prevLogIndex.toNat
  prevLogTerm := a.prevLogTerm.toNat
  entries := a.entries
  leaderCommit := a.leaderCommit.toNat

namespace OpenLog

/-! ## Calls -/

def lastIndex (log : OpenLog) : UInt64 :=
  (log.entries.getLast?.map StoredEntry.index).getD 0

def get (log : OpenLog) (index : UInt64) : Option StoredEntry :=
  match log.entries.head?, log.entries.getLast? with
  | some front, some back =>
      if index < front.index ∨ index > back.index then none
      else log.entries[(index - front.index).toNat]?
  | _, _ => none

def termAt (log : OpenLog) (index : UInt64) : UInt64 :=
  ((log.get index).map StoredEntry.term).getD 0

def call (crc : Bytes → UInt32) (log : OpenLog) (c : LogCall) : OpenLog where
  file := (c.write crc log.entries).done log.file
  entries := c.after log.entries

/-- The log is closed and opened again. -/
def reopen (log : OpenLog) : OpenLog :=
  { log with entries := load log.file }

/-- The loop of `handle_append_entries`: the log as cut so far, and the entries to append. -/
def placeEntries (crc : Bytes → UInt32) (term : UInt64) :
    UInt64 → List Bytes → OpenLog → List StoredEntry → OpenLog × List StoredEntry
  | _, [], log, newEntries => (log, newEntries)
  | idx, command :: rest, log, newEntries =>
      if idx ≤ log.lastIndex then
        if log.termAt idx ≠ term then
          placeEntries crc term (idx + 1) rest (log.call crc (.truncateSuffix (idx - 1)))
            (newEntries ++ [⟨idx, term, command⟩])
        else placeEntries crc term (idx + 1) rest log newEntries
      else placeEntries crc term (idx + 1) rest log (newEntries ++ [⟨idx, term, command⟩])

/-- `handle_append_entries` once the sender is recognised as leader of the term. -/
def followLeader (crc : Bytes → UInt32) (log : OpenLog) (args : WireArgs) : OpenLog :=
  if args.prevLogIndex > 0 ∧ log.lastIndex < args.prevLogIndex then log
  else if args.prevLogIndex > 0 ∧ log.termAt args.prevLogIndex ≠ args.prevLogTerm then
    log.call crc (.truncateSuffix (args.prevLogIndex - 1))
  else
    let (log, newEntries) :=
      placeEntries crc args.term (args.prevLogIndex + 1) args.entries log []
    if newEntries = [] then log else log.call crc (.appendBatch newEntries)

/-- What `handle_append_entries` does to the log of a node in the given term. -/
def handleAppendEntries (crc : Bytes → UInt32) (log : OpenLog) (currentTerm : UInt64)
    (args : WireArgs) : OpenLog :=
  if args.term < currentTerm then log else log.followLeader crc args

end OpenLog

/-- What happens to an open log; a request meets a node in some term. -/
inductive OpenAction
  | call (c : LogCall)
  | appendEntries (currentTerm : UInt64) (args : WireArgs)
  | reopen
  deriving DecidableEq, Repr

/-- Vectors have fewer elements, so that their differences are a `ptrdiff_t`. -/
def maxSize : Nat :=
  2 ^ 63

/-- A command whose record fits the buffer of `write_entry`. -/
def ShortCommand (command : Bytes) : Prop :=
  command.length < 2 ^ 32 - 20

instance (command : Bytes) : Decidable (ShortCommand command) :=
  inferInstanceAs (Decidable (_ < _))

namespace OpenLog

/-- The indexes go on from the last one, as `handle_append_entries` numbers its batch. -/
def Continues (log : OpenLog) (es : List StoredEntry) : Prop :=
  es.map StoredEntry.index =
    (List.range es.length).map fun k => log.lastIndex + 1 + UInt64.ofNat k

def act (crc : Bytes → UInt32) (log : OpenLog) : OpenAction → OpenLog
  | .call c => log.call crc c
  | .appendEntries currentTerm args => log.handleAppendEntries crc currentTerm args
  | .reopen => log.reopen

/-- An action that ends without `std::length_error`. -/
def step (crc : Bytes → UInt32) (log : OpenLog) (a : OpenAction) : Option OpenLog :=
  if (log.act crc a).entries.length < maxSize then some (log.act crc a) else none

/-- Commands are short, a batch continues the log, and a request holds a vector of commands. -/
def Allowed (log : OpenLog) : OpenAction → Prop
  | .call (.append _ command) => ShortCommand command
  | .call (.appendBatch es) => log.Continues es ∧ ∀ e ∈ es, ShortCommand e.command
  | .call (.truncateSuffix _) => True
  | .appendEntries _ args => args.entries.length < maxSize ∧ ∀ c ∈ args.entries, ShortCommand c
  | .reopen => True

instance (log : OpenLog) : (a : OpenAction) → Decidable (log.Allowed a)
  | .call (.append _ _) => inferInstanceAs (Decidable (_ < _))
  | .call (.appendBatch _) => inferInstanceAs (Decidable (_ = _ ∧ _))
  | .call (.truncateSuffix _) => .isTrue trivial
  | .appendEntries _ _ => inferInstanceAs (Decidable (_ ∧ _))
  | .reopen => .isTrue trivial

/-! ## The log in memory -/

section Widths

variable {crc : Bytes → UInt32} (log : OpenLog)

theorem toNat_lastIndex : (logOf log.entries).lastIndex = log.lastIndex.toNat := by
  rcases hlast : log.entries.getLast? with _ | back <;>
    simp [RaftLog.lastIndex, lastIndex, logOf, hlast, StoredEntry.entry]

theorem map_get (index : UInt64) :
    (logOf log.entries).get index.toNat = (log.get index).map StoredEntry.entry := by
  rcases hhead : log.entries.head? with _ | front
  · simp [RaftLog.get, get, logOf, hhead]
  · rcases hlast : log.entries.getLast? with _ | back
    · simp [RaftLog.get, get, logOf, hlast]
    · have hbelow : index.toNat < front.entry.index ↔ index < front.index :=
        UInt64.lt_iff_toNat_lt.symm
      have habove : index.toNat > back.entry.index ↔ index > back.index :=
        UInt64.lt_iff_toNat_lt.symm
      simp only [RaftLog.get, get, logOf, List.head?_map, List.getLast?_map, hhead, hlast,
        Option.map_some, hbelow, habove]
      split_ifs with hout
      · rfl
      · have hle : front.index ≤ index := UInt64.not_lt.1 fun hlt => hout (.inl hlt)
        rw [UInt64.toNat_sub_of_le _ _ hle, List.getElem?_map]
        rfl

theorem toNat_termAt (index : UInt64) :
    (logOf log.entries).termAt index.toNat = (log.termAt index).toNat := by
  rw [RaftLog.termAt, termAt, map_get]
  rcases log.get index with _ | e <;> rfl

theorem logOf_truncateSuffix (keepIndex : UInt64) :
    logOf (log.call crc (.truncateSuffix keepIndex)).entries =
      (logOf log.entries).truncateSuffix keepIndex.toNat := by
  rw [call, LogCall.after, LogCall.added, List.append_nil]
  exact logOf_rdropWhile keepIndex

/-- The loop does to the vector what it does to the log of a node. -/
theorem logOf_placeEntries (term : UInt64) (commands : List Bytes) (idx : UInt64)
    (newEntries : List StoredEntry) (hidx : 0 < idx) (hfits : idx.toNat + commands.length < 2 ^ 64) :
    Node.placeEntries term.toNat idx.toNat commands (logOf log.entries)
        (newEntries.map StoredEntry.entry) =
      (logOf (placeEntries crc term idx commands log newEntries).1.entries,
        (placeEntries crc term idx commands log newEntries).2.map StoredEntry.entry) := by
  induction commands generalizing idx log newEntries with
  | nil => rfl
  | cons command rest ih =>
      rw [List.length_cons] at hfits
      have hnext : (idx + 1).toNat = idx.toNat + 1 := by
        rw [UInt64.toNat_add]
        exact Nat.mod_eq_of_lt (by simp; omega)
      have hpos : 0 < idx + 1 := by
        rw [UInt64.lt_iff_toNat_lt, hnext]
        exact Nat.succ_pos _
      have hprev : (idx - 1).toNat = idx.toNat - 1 := by
        refine UInt64.toNat_sub_of_le _ _ ?_
        rw [UInt64.le_iff_toNat_le]
        exact UInt64.lt_iff_toNat_lt.1 hidx
      have hrest := fun log newEntries => ih log (idx + 1) newEntries hpos (by omega)
      have hin : idx.toNat ≤ (logOf log.entries).lastIndex ↔ idx ≤ log.lastIndex := by
        rw [toNat_lastIndex]
        exact UInt64.le_iff_toNat_le.symm
      have hterm : (logOf log.entries).termAt idx.toNat ≠ term.toNat ↔ log.termAt idx ≠ term := by
        rw [toNat_termAt, not_iff_not]
        exact UInt64.toNat_inj
      rw [Node.placeEntries, placeEntries]
      simp only [hin, hterm]
      split_ifs
      · rw [← hrest, logOf_truncateSuffix, hprev, hnext, List.map_append]
        rfl
      · rw [← hrest, hnext]
      · rw [← hrest, hnext, List.map_append]
        rfl

theorem toNat_sub_one {index : UInt64} (hpos : 0 < index) :
    (index - 1).toNat = index.toNat - 1 := by
  refine UInt64.toNat_sub_of_le _ _ ?_
  rw [UInt64.le_iff_toNat_le]
  exact UInt64.lt_iff_toNat_lt.1 hpos

theorem logOf_appendBatch (es : List StoredEntry) :
    logOf (log.call crc (.appendBatch es)).entries =
      (logOf log.entries).appendBatch (es.map StoredEntry.entry) := by
  simp [call, LogCall.after, LogCall.kept, LogCall.added, logOf, RaftLog.appendBatch]

theorem logOf_followLeader {n : Node} {args : WireArgs} (replyTerm : Nat)
    (hlog : n.log = logOf log.entries)
    (hfits : log.lastIndex.toNat + args.entries.length + 1 < 2 ^ 64) :
    (n.followLeader replyTerm args.args).1.log = logOf (log.followLeader crc args).entries := by
  have hpos : args.args.prevLogIndex > 0 ↔ args.prevLogIndex > 0 := by
    rw [gt_iff_lt, gt_iff_lt, UInt64.lt_iff_toNat_lt]
    rfl
  have hshort : (logOf log.entries).lastIndex < args.args.prevLogIndex ↔
      log.lastIndex < args.prevLogIndex := by
    rw [toNat_lastIndex]
    exact UInt64.lt_iff_toNat_lt.symm
  have hsame : (logOf log.entries).termAt args.args.prevLogIndex ≠ args.args.prevLogTerm ↔
      log.termAt args.prevLogIndex ≠ args.prevLogTerm := by
    rw [WireArgs.args, toNat_termAt, not_iff_not]
    exact UInt64.toNat_inj
  unfold Node.followLeader followLeader
  simp only [hlog, hpos, hshort, hsame]
  by_cases hbehind : args.prevLogIndex > 0 ∧ log.lastIndex < args.prevLogIndex
  · rw [if_pos hbehind, if_pos hbehind]
  · rw [if_neg hbehind, if_neg hbehind]
    by_cases hdiffers : args.prevLogIndex > 0 ∧
        log.termAt args.prevLogIndex ≠ args.prevLogTerm
    · rw [if_pos hdiffers, if_pos hdiffers, logOf_truncateSuffix, toNat_sub_one hdiffers.1]
      rfl
    · rw [if_neg hdiffers, if_neg hdiffers]
      -- the log reaches the index, so that no index of the batch wraps around
      have hle : args.prevLogIndex.toNat ≤ log.lastIndex.toNat := by
        by_contra hgt
        refine hbehind ⟨?_, UInt64.lt_iff_toNat_lt.2 (Nat.lt_of_not_le hgt)⟩
        rw [gt_iff_lt, UInt64.lt_iff_toNat_lt]
        exact Nat.lt_of_le_of_lt (Nat.zero_le _) (Nat.lt_of_not_le hgt)
      have hnext : (args.prevLogIndex + 1).toNat = args.prevLogIndex.toNat + 1 := by
        rw [UInt64.toNat_add]
        exact Nat.mod_eq_of_lt (by simp; omega)
      have hstart : 0 < args.prevLogIndex + 1 := by
        rw [UInt64.lt_iff_toNat_lt, hnext]
        exact Nat.succ_pos _
      have hplaced := @logOf_placeEntries crc log args.term args.entries
        (args.prevLogIndex + 1) [] hstart (by omega)
      rw [hnext] at hplaced
      rw [Node.tryAdvanceCommit_eq]
      refine (congrArg (fun p => p.1.appendBatch p.2) hplaced).trans ?_
      dsimp only
      split_ifs with hempty
      · rw [hempty]
        simp [RaftLog.appendBatch]
      · exact (logOf_appendBatch _ _).symm

/-- The handler does to the vector what a node in that term does to its log. -/
theorem logOf_handleAppendEntries {n : Node} {currentTerm : UInt64} {args : WireArgs}
    (hlog : n.log = logOf log.entries) (hterm : n.ps.currentTerm = currentTerm.toNat)
    (hfits : log.lastIndex.toNat + args.entries.length + 1 < 2 ^ 64) :
    (n.handleAppendEntries args.args).1.log =
      logOf (log.handleAppendEntries crc currentTerm args).entries := by
  have hstale : args.args.term < n.ps.currentTerm ↔ args.term < currentTerm := by
    rw [hterm]
    exact UInt64.lt_iff_toNat_lt.symm
  unfold Node.handleAppendEntries handleAppendEntries
  simp only [hstale]
  by_cases hlower : args.term < currentTerm
  · rw [if_pos hlower, if_pos hlower, hlog]
  · rw [if_neg hlower, if_neg hlower]
    split_ifs
    · exact logOf_followLeader log _ hlog hfits
    · exact logOf_followLeader log _ hlog hfits

end Widths

/-! ## The log on disk -/

/-- The file ends with a whole record, and an opening finds the vector in it. -/
structure OnDisk (log : OpenLog) : Prop where
  clean : entryFormat.Clean log.file
  loaded : load log.file = log.entries

namespace OnDisk

variable {crc : Bytes → UInt32} {log : OpenLog}

theorem call (h : OnDisk log) (c : LogCall)
    (hshort : ∀ e ∈ c.added log.entries, ShortCommand e.command) : OnDisk (log.call crc c) := by
  have hfits : ∀ e ∈ c.added log.entries, 20 + e.command.length < 2 ^ 32 := by
    intro e he
    have hcommand := hshort e he
    unfold ShortCommand at hcommand
    omega
  have hspells : ∀ e ∈ c.kept log.entries ++ c.added log.entries,
      entryFormat.Spells (writeEntry crc e) e := by
    intro e he
    rcases List.mem_append.1 he with hkept | hadded
    · have hmem : e ∈ load log.file := by
        rw [h.loaded]
        exact c.kept_sublist.subset hkept
      exact spells_writeEntry (length_command_of_mem_load e hmem)
    · exact spells_writeEntry (Nat.lt_of_le_of_lt (Nat.le_add_left _ 20) (hfits e hadded))
  constructor
  · rcases c.write_cases crc log.entries with ⟨-, hwrite⟩ | ⟨-, hwrite⟩
    · rw [OpenLog.call, hwrite]
      exact h.clean.append (RecordFormat.clean_encoded fun e he =>
        hspells e (List.mem_append_right _ he))
    · rw [OpenLog.call, hwrite]
      exact RecordFormat.clean_encoded fun e he => hspells e (List.mem_append_left _ he)
  · have hdone := @LogCall.load_done crc log.file c
    rw [h.loaded] at hdone
    exact hdone fun _ => ⟨h.clean, hfits⟩

theorem reopen (h : OnDisk log) : log.reopen = log := by
  rw [OpenLog.reopen, h.loaded]

theorem placeEntries (h : OnDisk log) (term : UInt64) {commands : List Bytes}
    (hcommands : ∀ c ∈ commands, ShortCommand c) (idx : UInt64) {newEntries : List StoredEntry}
    (hnew : ∀ e ∈ newEntries, ShortCommand e.command) :
    OnDisk (log.placeEntries crc term idx commands newEntries).1 ∧
      ∀ e ∈ (log.placeEntries crc term idx commands newEntries).2, ShortCommand e.command := by
  induction commands generalizing log idx newEntries with
  | nil => exact ⟨h, hnew⟩
  | cons command rest ih =>
      have hrest : ∀ c ∈ rest, ShortCommand c := fun c hc =>
        hcommands c (List.mem_cons_of_mem _ hc)
      have hlonger : ∀ e ∈ newEntries ++ [⟨idx, term, command⟩], ShortCommand e.command := by
        rw [List.forall_mem_append]
        refine ⟨hnew, ?_⟩
        simpa using hcommands command (by simp)
      rw [OpenLog.placeEntries]
      split_ifs
      · have hcut : OnDisk (log.call crc (.truncateSuffix (idx - 1))) :=
          h.call _ (by simp [LogCall.added])
        exact ih hcut hrest _ hlonger
      · exact ih h hrest _ hnew
      · exact ih h hrest _ hlonger

theorem handleAppendEntries (h : OnDisk log) (currentTerm : UInt64) {args : WireArgs}
    (hcommands : ∀ c ∈ args.entries, ShortCommand c) :
    OnDisk (log.handleAppendEntries crc currentTerm args) := by
  unfold OpenLog.handleAppendEntries OpenLog.followLeader
  dsimp only
  split_ifs
  · exact h
  · exact h
  · exact h.call _ (by simp [LogCall.added])
  · exact (h.placeEntries args.term hcommands _ (by simp)).1
  · have hplaced := @placeEntries crc log h args.term _ hcommands (args.prevLogIndex + 1) [] (by simp)
    exact hplaced.1.call _ hplaced.2

end OnDisk

/-- The entries sit at the indexes from 1 on, `get` and `term_at` find exactly these, and an opening
finds them in the file. -/
structure Shape (log : OpenLog) : Prop where
  indexes : (log.entries.map fun e => e.index.toNat) = List.range' 1 log.entries.length
  get : ∀ i : UInt64, log.get i =
    if 1 ≤ i.toNat ∧ i.toNat ≤ log.entries.length then log.entries[i.toNat - 1]? else none
  termAt : ∀ i : UInt64, log.termAt i =
    if 1 ≤ i.toNat ∧ i.toNat ≤ log.entries.length then
      (log.entries[i.toNat - 1]?.map StoredEntry.term).getD 0
    else 0
  reopened : log.reopen = log

/-! ## Runs -/

/-- A log on disk whose entries sit at their indexes. -/
structure Held (log : OpenLog) : Prop extends OnDisk log where
  indexed : (logOf log.entries).Indexed
  size : log.entries.length < maxSize

section Steps

variable {crc : Bytes → UInt32} {log : OpenLog}

theorem Held.index_eq (h : Held log) {k : Nat} {e : StoredEntry} (hget : log.entries[k]? = some e) :
    e.index.toNat = k + 1 :=
  h.indexed k e.entry (by simp [logOf, hget])

theorem Held.lastIndex_eq (h : Held log) : log.lastIndex.toNat = log.entries.length := by
  calc log.lastIndex.toNat
      = (logOf log.entries).lastIndex := (toNat_lastIndex log).symm
    _ = (logOf log.entries).view.length := h.indexed.lastIndex_eq
    _ = log.entries.length := by rw [RaftLog.length_view, logOf, List.length_map]

/-- A batch with the next indexes goes to its places. -/
theorem Held.indexed_appendBatch (h : Held log) {es : List StoredEntry} (hnext : log.Continues es)
    (hsize : (log.entries ++ es).length < maxSize) : (logOf (log.entries ++ es)).Indexed := by
  intro k e hget
  simp only [logOf, List.getElem?_map] at hget
  rcases Option.map_eq_some_iff.1 hget with ⟨stored, hstored, rfl⟩
  rcases Nat.lt_or_ge k log.entries.length with hlt | hge
  · rw [List.getElem?_append_left hlt] at hstored
    exact h.index_eq hstored
  · rw [List.getElem?_append_right hge] at hstored
    have hk : k - log.entries.length < es.length := (List.getElem?_eq_some_iff.1 hstored).1
    have hindex := congrArg (·[k - log.entries.length]?) hnext
    simp only [List.getElem?_map, hstored, Option.map_some, List.getElem?_range hk,
      Option.some.injEq] at hindex
    simp only [List.length_append, maxSize] at hsize
    rw [StoredEntry.entry, hindex]
    simp only [UInt64.toNat_add, UInt64.toNat_ofNat', h.lastIndex_eq]
    simp
    omega

theorem Held.step (h : Held log) {log' : OpenLog} {a : OpenAction} (hallowed : log.Allowed a)
    (hstep : log.step crc a = some log') : Held log' := by
  unfold OpenLog.step at hstep
  split_ifs at hstep with hsize
  cases hstep
  cases a with
  | call c =>
      cases c with
      | append term command =>
          have hindex : ∀ back ∈ log.entries.getLast?, back.index.toNat + 1 < 2 ^ 64 := by
            intro back hback
            have hlast := h.lastIndex_eq
            rw [lastIndex, Option.mem_def.1 hback, Option.map_some, Option.getD_some] at hlast
            have hlt := h.size
            unfold maxSize at hlt
            omega
          have hshort : ShortCommand command := hallowed
          refine { h.toOnDisk.call (.append term command) ?_ with indexed := ?_, size := hsize }
          · simpa [LogCall.added] using hshort
          · rw [act, OpenLog.call, LogCall.logOf_after _ hindex, LogCall.on, h.indexed.append_eq]
            exact h.indexed.concat _ _
      | appendBatch es =>
          refine { h.toOnDisk.call (.appendBatch es) hallowed.2 with indexed := ?_, size := hsize }
          exact h.indexed_appendBatch hallowed.1 hsize
      | truncateSuffix keepIndex =>
          refine { h.toOnDisk.call _ (by simp [LogCall.added]) with indexed := ?_, size := hsize }
          rw [act, logOf_truncateSuffix, h.indexed.truncateSuffix_eq]
          exact h.indexed.take _
  | appendEntries currentTerm args =>
      refine { h.toOnDisk.handleAppendEntries currentTerm hallowed.2 with
        indexed := ?_, size := hsize }
      let n : Node :=
        { nodeId := [], peers := [], log := logOf log.entries
          ps := { currentTerm := currentTerm.toNat } }
      have hfits : log.lastIndex.toNat + args.entries.length + 1 < 2 ^ 64 := by
        have hlt := h.size
        have hcommands := hallowed.1
        unfold maxSize at hlt hcommands
        rw [h.lastIndex_eq]
        omega
      have hlog := @logOf_handleAppendEntries crc log n currentTerm args rfl rfl hfits
      rw [act, ← hlog]
      exact Node.indexed_handleAppendEntries h.indexed args.args
  | reopen =>
      rw [act, h.reopen]
      exact h

theorem Held.init : Held {} where
  clean := RecordFormat.clean_nil
  loaded := RecordFormat.records_nil
  indexed := RaftLog.indexed_empty
  size := by decide

theorem entry_injective : Function.Injective StoredEntry.entry := by
  intro e e' h
  rcases e with ⟨index, term, command⟩
  rcases e' with ⟨index', term', command'⟩
  simpa [StoredEntry.entry, UInt64.toNat_inj] using h

theorem Held.get_eq (h : Held log) (i : UInt64) : log.get i =
    if 1 ≤ i.toNat ∧ i.toNat ≤ log.entries.length then log.entries[i.toNat - 1]? else none := by
  apply Option.map_injective entry_injective
  rw [← map_get]
  cases hi : i.toNat with
  | zero => simp [h.indexed.get_zero]
  | succ k =>
      rw [h.indexed.get_succ, logOf, List.getElem?_map, Nat.add_sub_cancel]
      split_ifs with hin
      · rfl
      · rw [List.getElem?_eq_none (by omega)]

theorem Held.shape (h : Held log) : Shape log where
  indexes := by
    refine List.ext_getElem? fun k => ?_
    rw [List.getElem?_map]
    rcases hget : log.entries[k]? with _ | e
    · have hle := List.getElem?_eq_none_iff.1 hget
      exact (List.getElem?_eq_none (by simpa using hle)).symm
    · have hlt : k < log.entries.length := (List.getElem?_eq_some_iff.1 hget).1
      rw [Option.map_some, h.index_eq hget, List.getElem?_range' hlt]
      simp [Nat.add_comm]
  get := h.get_eq
  termAt := by
    intro i
    rw [OpenLog.termAt, h.get_eq]
    split_ifs <;> rfl
  reopened := h.toOnDisk.reopen

end Steps

/-- In every run of calls, requests and openings from an empty file, the log keeps this shape. -/
theorem shape_of_reach (crc : Bytes → UInt32) (log : OpenLog)
    (h : Reach (step crc) Allowed {} log) : Shape log := by
  have hheld : Held log :=
    Reach.invariant Held.init (fun _ hs hallowed hstep => hs.step hallowed hstep) h
  exact hheld.shape

/-- A request adds two entries, one of a later term replaces the first of them, and the log is
appended to, cut and opened again. -/
def rewritten : List OpenAction :=
  [.call (.append 1 [0x61]),
    .appendEntries 1 ⟨2, [0x6e], 1, 1, [[0x62], [0x63]], 0⟩,
    .reopen,
    .appendEntries 2 ⟨3, [0x6e], 1, 1, [[0x64]], 2⟩,
    .appendEntries 3 ⟨3, [0x6e], 18446744073709551615, 0, [[0x7a]], 0⟩,
    .call (.appendBatch [⟨3, 3, [0x65]⟩, ⟨4, 3, []⟩]),
    .call (.truncateSuffix 3),
    .reopen]

theorem shape_of_reach_rewritten :
    ∃ log, Library.run (step crc32) Allowed {} rewritten = some log ∧
      log.entries = [⟨1, 1, [0x61]⟩, ⟨2, 3, [0x64]⟩, ⟨3, 3, [0x65]⟩] ∧ Shape log := by
  have hrun : ∃ log, Library.run (step crc32) Allowed {} rewritten = some log ∧
      log.entries = [⟨1, 1, [0x61]⟩, ⟨2, 3, [0x64]⟩, ⟨3, 3, [0x65]⟩] := by
    refine ⟨(Library.run (step crc32) Allowed {} rewritten).getD {}, ?_, ?_⟩ <;> decide +kernel
  rcases hrun with ⟨log, hrun, hentries⟩
  exact ⟨log, hrun, hentries, shape_of_reach crc32 log (reach_of_run hrun)⟩

end OpenLog
end Raft
end ControlDB
