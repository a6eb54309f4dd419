import ControlDB.Library.RecordFile
import ControlDB.Library.Runs
import ControlDB.Library.Words
import ControlDB.Raft.Log

/-!
# `raft.log` on disk

The bytes behind a `RaftLog`: `write_entry`, `load`, and what a process that dies inside a write
leaves for the next opening.  A `write` appends all its bytes unless the process dies in it, and an
entry fits the 32-bit length field of its record (`20 + clen` is computed in 32 bits, so a command
of almost 4 GiB overruns the buffer).  zlib's `crc32` is a parameter: `load` reads the checksums and
never compares them.

`LogFile.intact` says when entries survive: nothing is appended behind a record that was cut off,
and no `truncate_suffix` dies while it rewrites the file.
-/

namespace ControlDB
namespace Raft

open Library

/-! ## Records -/

/-- A log entry with the widths of its fields. -/
structure StoredEntry where
  index : UInt64
  term : UInt64
  command : Bytes
  deriving DecidableEq, Repr

/-- The entry of the log in memory. -/
def StoredEntry.entry (e : StoredEntry) : LogEntry :=
  ⟨e.index.toNat, e.term.toNat, e.command⟩

/-- The bytes of `write_entry`, from both of its writes. -/
def writeEntry (crc : Bytes → UInt32) (e : StoredEntry) : Bytes :=
  let clen := UInt32.ofNat e.command.length
  let buf := writeBe64 e.index ++ (writeBe64 e.term ++ (writeBe32 clen ++ e.command.take clen.toNat))
  buf ++ writeBe32 (crc buf)

/-- One round of the loop in `load`. -/
def readEntry : Reader UInt8 StoredEntry := do
  let hdr ← readBytes 20
  let cmd ← readBytes (readBe32 (hdr.drop 16)).toNat
  let _crc ← readBytes 4
  return ⟨readBe64 hdr, readBe64 (hdr.drop 8), cmd⟩

theorem readEntry_eq :
    readEntry = readFramed 20 4 (fun hdr => (readBe32 (hdr.drop 16)).toNat)
      (fun hdr cmd _ => ⟨readBe64 hdr, readBe64 (hdr.drop 8), cmd⟩) :=
  rfl

theorem stable_readEntry : Stable readEntry :=
  stable_readFramed

theorem consumes_readEntry : Consumes 1 readEntry :=
  consumes_readFramed (Nat.succ_pos 19)

/-- The records of `raft.log`. -/
def entryFormat : RecordFormat UInt8 StoredEntry where
  read := readEntry
  stable := stable_readEntry
  consumes := consumes_readEntry

/-- `load`. -/
def load (file : Bytes) : List StoredEntry :=
  entryFormat.records file

section Spelling

variable {crc : Bytes → UInt32}

theorem spells_writeEntry {e : StoredEntry} (h : e.command.length < 2 ^ 32) :
    entryFormat.Spells (writeEntry crc e) e := by
  have hclen : (UInt32.ofNat e.command.length).toNat = e.command.length :=
    UInt32.toNat_ofNat_of_lt' h
  have hcommand : e.command.take (UInt32.ofNat e.command.length).toNat = e.command := by
    rw [hclen, List.take_length]
  let rest := writeBe64 e.term ++ writeBe32 (UInt32.ofNat e.command.length)
  let hdr := writeBe64 e.index ++ rest
  have hlen : hdr.length = 20 := by simp [hdr, rest]
  have hterm : hdr.drop 8 = rest := List.drop_left' (length_writeBe64 _)
  have hfield : hdr.drop 16 = writeBe32 (UInt32.ofNat e.command.length) := by
    rw [← List.drop_drop (i := 8) (j := 8), hterm]
    exact List.drop_left' (length_writeBe64 _)
  have htext : writeEntry crc e = hdr ++ (e.command ++ (writeBe32 (crc (hdr ++ e.command)) ++ [])) := by
    simp only [writeEntry, hcommand, hdr, rest, List.append_assoc, List.append_nil]
  change readEntry (writeEntry crc e) = some (e, [])
  rw [readEntry_eq, readFramed_eq_some_iff]
  refine ⟨hdr, e.command, _, hlen, ?_, length_writeBe32 _, htext, ?_⟩
  · rw [hfield, readBe32_writeBe32, hclen]
  · rw [hterm]
    simp [hdr, rest]

/-- A command that was loaded has the length that its header told. -/
theorem length_command_of_mem_load {file : Bytes} :
    ∀ e ∈ load file, e.command.length < 2 ^ 32 := by
  refine RecordFormat.forall_mem_records ?_ file
  intro l e rest h
  change readEntry l = some (e, rest) at h
  rw [readEntry_eq, readFramed_eq_some_iff] at h
  rcases h with ⟨hdr, cmd, crc, -, hcmd, -, -, rfl⟩
  rw [hcmd]
  exact UInt32.toNat_lt _

end Spelling

/-! ## Calls -/

inductive LogCall
  | append (term : UInt64) (command : Bytes)
  | appendBatch (entries : List StoredEntry)
  | truncateSuffix (keepIndex : UInt64)
  deriving DecidableEq, Repr

/-- What a call does to the file: empty it first or not, and append these bytes. -/
structure FileWrite where
  truncates : Bool
  bytes : Bytes

namespace LogCall

/-- The entries that an append writes. -/
def added (entries : List StoredEntry) : LogCall → List StoredEntry
  | append term command =>
      [⟨(entries.getLast?.map fun back => back.index + 1).getD 1, term, command⟩]
  | appendBatch es => es
  | truncateSuffix _ => []

/-- The entries in memory that stay. -/
def kept (entries : List StoredEntry) : LogCall → List StoredEntry
  | truncateSuffix keepIndex => entries.rdropWhile fun e => decide (e.index > keepIndex)
  | _ => entries

/-- The vector in memory after the call. -/
def after (entries : List StoredEntry) (c : LogCall) : List StoredEntry :=
  c.kept entries ++ c.added entries

def write (crc : Bytes → UInt32) (entries : List StoredEntry) : LogCall → FileWrite
  | truncateSuffix keepIndex =>
      ⟨true, ((truncateSuffix keepIndex).kept entries).flatMap (writeEntry crc)⟩
  | c => ⟨false, (c.added entries).flatMap (writeEntry crc)⟩

/-- What may still be asked for once the call has started. -/
def spares (c : LogCall) (e : StoredEntry) : Bool :=
  match c with
  | truncateSuffix keepIndex => decide (e.index ≤ keepIndex)
  | _ => true

end LogCall

/-- How far a call got in the file: nothing yet, or so many of the bytes it appends. -/
abbrev CrashPoint := Option Nat

namespace FileWrite

def done (w : FileWrite) (file : Bytes) : Bytes :=
  (if w.truncates then [] else file) ++ w.bytes

/-- The file that a process leaves which dies at this point. -/
def cut (w : FileWrite) (file : Bytes) : CrashPoint → Bytes
  | none => file
  | some n => (if w.truncates then [] else file) ++ w.bytes.take n

end FileWrite

/-! ## Runs with crashes -/

/-- The file, and the entries in memory while a process has the log open.  `owed` is a history
variable: the entries whose append returned and that no `truncate_suffix` was asked to remove. -/
structure LogFile where
  file : Bytes := []
  entries : Option (List StoredEntry) := none
  owed : List StoredEntry := []
  deriving DecidableEq, Repr

inductive LogAction
  | reopen
  | call (c : LogCall)
  | crash (c : LogCall) (point : CrashPoint)
  deriving DecidableEq, Repr

namespace LogFile

def step (crc : Bytes → UInt32) (s : LogFile) : LogAction → Option LogFile
  | .reopen => some { s with entries := some (load s.file) }
  | .call c => s.entries.map fun entries =>
      { file := (c.write crc entries).done s.file
        entries := some (c.after entries)
        owed := s.owed.filter c.spares ++ c.added entries }
  | .crash c point => s.entries.map fun entries =>
      { file := (c.write crc entries).cut s.file point
        entries := none
        owed := s.owed.filter c.spares }

/-- No append goes behind a record that was cut off, the commands fit their length field, and a
`truncate_suffix` that dies has not emptied the file or has written all of it again. -/
def Careful (crc : Bytes → UInt32) (s : LogFile) : LogAction → Prop
  | .reopen => True
  | .call c => ∀ entries ∈ s.entries, c.added entries ≠ [] →
      entryFormat.Clean s.file ∧ ∀ e ∈ c.added entries, 20 + e.command.length < 2 ^ 32
  | .crash c point => ∀ entries ∈ s.entries, (c.write crc entries).truncates = true →
      ∀ n ∈ point, (c.write crc entries).bytes.length ≤ n

instance (crc : Bytes → UInt32) (s : LogFile) : (a : LogAction) → Decidable (Careful crc s a)
  | .reopen => inferInstanceAs (Decidable True)
  | .call _ => inferInstanceAs (Decidable (∀ _ ∈ _, _ → _ ∧ _))
  | .crash _ _ => inferInstanceAs (Decidable (∀ _ ∈ _, _ → ∀ _ ∈ _, _))

/-- What is owed is in the log. -/
def Intact (s : LogFile) : Prop :=
  ∀ entries, s.entries = some entries → s.owed.Sublist entries

end LogFile

/-! ## What a call leaves in the file -/

section Calls

variable {crc : Bytes → UInt32} {entries owed : List StoredEntry} {file : Bytes}

/-- Only entries beyond the index are popped from the back. -/
theorem LogCall.filter_spares_sublist (c : LogCall) :
    (entries.filter c.spares).Sublist (c.kept entries) := by
  cases c with
  | append term command => exact List.filter_sublist
  | appendBatch es => exact List.filter_sublist
  | truncateSuffix keepIndex =>
      let beyond : StoredEntry → Bool := fun e => decide (e.index > keepIndex)
      have hpopped : (entries.rtakeWhile beyond).filter (truncateSuffix keepIndex).spares = [] := by
        rw [List.filter_eq_nil_iff]
        intro e he
        have hbeyond : e.index > keepIndex := by simpa [beyond] using List.mem_rtakeWhile_imp he
        simpa [spares] using hbeyond
      calc (entries.filter (truncateSuffix keepIndex).spares)
          = (entries.rdropWhile beyond).filter (truncateSuffix keepIndex).spares := by
            conv_lhs => rw [← List.rdropWhile_append_rtakeWhile (p := beyond) (l := entries)]
            rw [List.filter_append, hpopped, List.append_nil]
        List.Sublist _ (entries.rdropWhile beyond) := List.filter_sublist

theorem LogCall.kept_sublist (c : LogCall) : (c.kept entries).Sublist entries := by
  cases c with
  | append term command => exact List.Sublist.refl _
  | appendBatch es => exact List.Sublist.refl _
  | truncateSuffix keepIndex => exact (List.rdropWhile_prefix _ _).sublist

/-- Entries that fit their records are loaded from the bytes written for them. -/
theorem load_flatMap (h : ∀ e ∈ entries, e.command.length < 2 ^ 32) :
    load (entries.flatMap (writeEntry crc)) = entries :=
  RecordFormat.records_encoded fun e he => spells_writeEntry (h e he)

/-- A call either appends its entries to the file or writes those that stay anew. -/
theorem LogCall.write_cases (crc : Bytes → UInt32) (entries : List StoredEntry) (c : LogCall) :
    (c.kept entries = entries ∧
        c.write crc entries = ⟨false, (c.added entries).flatMap (writeEntry crc)⟩) ∨
      (c.added entries = [] ∧
        c.write crc entries = ⟨true, (c.kept entries).flatMap (writeEntry crc)⟩) := by
  cases c with
  | append term command => exact .inl ⟨rfl, rfl⟩
  | appendBatch es => exact .inl ⟨rfl, rfl⟩
  | truncateSuffix keepIndex => exact .inr ⟨rfl, rfl⟩

/-- The entries of an open log are read back from the bytes of a rewriting. -/
theorem LogCall.load_kept (c : LogCall) :
    load ((c.kept (load file)).flatMap (writeEntry crc)) = c.kept (load file) :=
  load_flatMap fun e he => length_command_of_mem_load e (c.kept_sublist.subset he)

/-- A call that returns leaves in the file what it leaves in memory. -/
theorem LogCall.load_done (c : LogCall)
    (hcareful : c.added (load file) ≠ [] →
      entryFormat.Clean file ∧ ∀ e ∈ c.added (load file), 20 + e.command.length < 2 ^ 32) :
    load ((c.write crc (load file)).done file) = c.after (load file) := by
  rcases c.write_cases crc (load file) with ⟨hkept, hwrite⟩ | ⟨hadded, hwrite⟩
  · rw [hwrite, after, hkept]
    by_cases hadded : c.added (load file) = []
    · simp [FileWrite.done, hadded]
    · rcases hcareful hadded with ⟨hclean, hfits⟩
      have hnew : load ((c.added (load file)).flatMap (writeEntry crc)) = c.added (load file) :=
        load_flatMap fun e he => Nat.lt_of_le_of_lt (Nat.le_add_left _ 20) (hfits e he)
      calc load (file ++ (c.added (load file)).flatMap (writeEntry crc))
          = load file ++ load ((c.added (load file)).flatMap (writeEntry crc)) :=
            hclean.records_append _
        _ = load file ++ c.added (load file) := by rw [hnew]
  · rw [hwrite, after, hadded, List.append_nil]
    exact c.load_kept

/-- A call that dies leaves at least what it was to keep. -/
theorem LogCall.sublist_load_cut (c : LogCall) (point : CrashPoint)
    (hcareful : (c.write crc (load file)).truncates = true →
      ∀ n ∈ point, (c.write crc (load file)).bytes.length ≤ n) :
    (c.kept (load file)).Sublist (load ((c.write crc (load file)).cut file point)) := by
  cases point with
  | none => exact c.kept_sublist
  | some n =>
      rcases c.write_cases crc (load file) with ⟨hkept, hwrite⟩ | ⟨-, hwrite⟩
      · rw [hkept, hwrite]
        exact RecordFormat.records_sublist_append file _
      · rw [hwrite] at hcareful ⊢
        have hall : ((c.kept (load file)).flatMap (writeEntry crc)).take n =
            (c.kept (load file)).flatMap (writeEntry crc) :=
          List.take_of_length_le (hcareful rfl n rfl)
        rw [FileWrite.cut, hall, if_pos rfl, List.nil_append, c.load_kept]

end Calls

/-! ## The file behind a `RaftLog` -/

section Refinement

variable {crc : Bytes → UInt32} {entries : List StoredEntry} {file : Bytes}

/-- The log of a vector of entries. -/
def logOf (entries : List StoredEntry) : RaftLog :=
  ⟨entries.map StoredEntry.entry⟩

/-- The call on the log in memory. -/
def LogCall.on (log : RaftLog) : LogCall → RaftLog
  | append term command => (log.append term.toNat command).1
  | appendBatch es => log.appendBatch (es.map StoredEntry.entry)
  | truncateSuffix keepIndex => log.truncateSuffix keepIndex.toNat

theorem logOf_rdropWhile (keepIndex : UInt64) :
    logOf (entries.rdropWhile fun e => decide (e.index > keepIndex)) =
      (logOf entries).truncateSuffix keepIndex.toNat := by
  induction entries using List.reverseRecOn with
  | nil => rfl
  | append_singleton entries e ih =>
      simp only [logOf, RaftLog.truncateSuffix, List.map_append, List.map_cons, List.map_nil,
        RaftLog.mk.injEq] at ih ⊢
      by_cases hbeyond : e.index > keepIndex
      · have hbeyond' : e.entry.index > keepIndex.toNat := UInt64.lt_iff_toNat_lt.1 hbeyond
        rw [List.rdropWhile_concat_pos _ _ _ (by simpa using hbeyond),
          List.rdropWhile_concat_pos _ _ _ (by simpa using hbeyond')]
        exact ih
      · have hbeyond' : ¬e.entry.index > keepIndex.toNat :=
          fun h => hbeyond (UInt64.lt_iff_toNat_lt.2 h)
        rw [List.rdropWhile_concat_neg _ _ _ (by simpa using hbeyond),
          List.rdropWhile_concat_neg _ _ _ (by simpa using hbeyond')]
        simp

/-- While the index does not wrap around, a call changes the vector as it changes the log. -/
theorem LogCall.logOf_after (c : LogCall)
    (hindex : ∀ back ∈ entries.getLast?, back.index.toNat + 1 < 2 ^ 64) :
    logOf (c.after entries) = c.on (logOf entries) := by
  cases c with
  | append term command =>
      rcases hlast : entries.getLast? with _ | back
      · simp [logOf, after, added, kept, on, RaftLog.append, hlast, StoredEntry.entry]
      · have hnext : (back.index + 1).toNat = back.index.toNat + 1 := by
          have hlt := hindex back hlast
          rw [UInt64.toNat_add]
          exact Nat.mod_eq_of_lt hlt
        simp [logOf, after, added, kept, on, RaftLog.append, hlast, StoredEntry.entry, hnext]
  | appendBatch es => simp [logOf, after, added, kept, on, RaftLog.appendBatch]
  | truncateSuffix keepIndex =>
      rw [after, added, List.append_nil]
      exact logOf_rdropWhile keepIndex

/-- The next opening loads the log that the call left in memory. -/
theorem LogCall.logOf_load_done (c : LogCall)
    (hindex : ∀ back ∈ (load file).getLast?, back.index.toNat + 1 < 2 ^ 64)
    (hcareful : c.added (load file) ≠ [] →
      entryFormat.Clean file ∧ ∀ e ∈ c.added (load file), 20 + e.command.length < 2 ^ 32) :
    logOf (load ((c.write crc (load file)).done file)) = c.on (logOf (load file)) := by
  rw [c.load_done hcareful, c.logOf_after hindex]

end Refinement

/-! ## What a run keeps -/

namespace LogFile

variable {crc : Bytes → UInt32}

/-- Memory and file agree, and what is owed can be loaded. -/
structure Sound (s : LogFile) : Prop where
  loaded : ∀ entries ∈ s.entries, entries = load s.file
  owed : s.owed.Sublist (load s.file)

theorem Sound.step {s s' : LogFile} {a : LogAction} (h : Sound s) (hcareful : Careful crc s a)
    (hstep : s.step crc a = some s') : Sound s' := by
  cases a with
  | reopen =>
      cases hstep
      exact ⟨fun entries he => (Option.some.inj he).symm, h.owed⟩
  | call c =>
      rcases Option.map_eq_some_iff.1 hstep with ⟨entries, hentries, rfl⟩
      rcases h.loaded entries hentries with rfl
      have hload : load ((c.write crc (load s.file)).done s.file) = c.after (load s.file) :=
        c.load_done (hcareful _ hentries)
      have hkept : (s.owed.filter c.spares).Sublist (c.kept (load s.file)) :=
        (h.owed.filter _).trans c.filter_spares_sublist
      refine ⟨fun entries he => ?_, ?_⟩
      · rw [hload]
        exact (Option.some.inj he).symm
      · rw [hload]
        exact hkept.append (List.Sublist.refl _)
  | crash c point =>
      rcases Option.map_eq_some_iff.1 hstep with ⟨entries, hentries, rfl⟩
      rcases h.loaded entries hentries with rfl
      have hkept : (s.owed.filter c.spares).Sublist (c.kept (load s.file)) :=
        (h.owed.filter _).trans c.filter_spares_sublist
      exact ⟨by simp, hkept.trans (c.sublist_load_cut point (hcareful _ hentries))⟩

theorem sound_of_reach {s : LogFile} (h : Reach (step crc) (Careful crc) {} s) : Sound s :=
  Reach.invariant ⟨by simp, List.nil_sublist _⟩
    (fun _ hs hcareful hstep => hs.step hcareful hstep) h

/-- In a run that is careful in this way the log holds what it owes, and so does the log that the
next opening loads. -/
theorem intact (crc : Bytes → UInt32) (s s' : LogFile) (h : Reach (step crc) (Careful crc) {} s)
    (hopen : s.step crc .reopen = some s') : Intact s ∧ Intact s' := by
  have hs := sound_of_reach h
  cases hopen
  refine ⟨fun entries he => ?_, fun entries he => ?_⟩
  · rw [hs.loaded entries he]
    exact hs.owed
  · rcases Option.some.inj he with rfl
    exact hs.owed

/-- An append dies in its header, the log is opened again, cut back and appended to. -/
def recovered : List LogAction :=
  [.reopen, .call (.append 1 [0x61]), .call (.append 1 [0x62]), .crash (.append 1 [0x63]) (some 3),
    .reopen, .call (.truncateSuffix 1), .call (.append 2 [0x64]),
    .crash (.appendBatch [⟨3, 2, [0x65]⟩, ⟨4, 2, [0x66]⟩]) (some 30), .reopen]

theorem intact_recovered :
    ∃ s, Library.run (step crc32) (Careful crc32) {} recovered = some s ∧
      s.owed = [⟨1, 1, [0x61]⟩, ⟨2, 2, [0x64]⟩] ∧ Intact s := by
  have hrun : ∃ s, Library.run (step crc32) (Careful crc32) {} recovered = some s ∧
      s.owed = [⟨1, 1, [0x61]⟩, ⟨2, 2, [0x64]⟩] := by
    refine ⟨(Library.run (step crc32) (Careful crc32) {} recovered).getD {}, ?_, ?_⟩ <;>
      decide +kernel
  rcases hrun with ⟨s, hrun, howed⟩
  exact ⟨s, hrun, howed, (intact crc32 s _ (reach_of_run hrun) rfl).1⟩

/-- The record behind three torn bytes is not found again. -/
theorem append_lost_behind_torn :
    ¬ ∀ (crc : Bytes → UInt32) (s : LogFile), Reach (step crc) (fun _ _ => True) {} s →
      ∀ entries, s.entries = some entries → ∀ e ∈ s.owed, e ∈ entries := by
  intro hall
  let torn : List LogAction :=
    [.reopen, .call (.append 1 [0x61]), .crash (.append 1 [0x62]) (some 3), .reopen,
      .call (.append 2 [0x63]), .reopen]
  let last := (Library.run (step crc32) (fun _ _ => True) {} torn).getD {}
  have hrun : Library.run (step crc32) (fun _ _ => True) {} torn = some last := by decide +kernel
  have hentries : last.entries = some [⟨1, 1, [0x61]⟩] := by decide +kernel
  have howed : (⟨2, 2, [0x63]⟩ : StoredEntry) ∈ last.owed := by decide +kernel
  have hlost := hall crc32 last (reach_of_run hrun) _ hentries _ howed
  exact absurd hlost (by decide)

end LogFile
end Raft
end ControlDB
