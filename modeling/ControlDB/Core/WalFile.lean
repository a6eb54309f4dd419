import ControlDB.Core.Storage
import ControlDB.Library.RecordFile
import ControlDB.Library.Runs
import ControlDB.Library.Words

/-!
# `wal.log` on disk

The bytes behind the write-ahead log of `wal.cpp`: how a record is written and read back, the scan
that recovers the last sequence, and the rewriting in `truncate_applied`.  A `write` appends all its
bytes unless the process dies in it; `21 + plen` is computed in 32 bits, so a payload of almost
4 GiB overruns the buffer.  zlib's `crc32` is a parameter: the checksums are never compared.

`WalRun.recovered` says when a log survives a torn last record: nothing is appended behind it.
-/

namespace ControlDB

open Library

/-! ## Records -/

/-- `WalEntry` of `wal.hpp`, with the underlying byte of its operation. -/
structure WalRecord where
  walSeq : UInt64
  opType : UInt8
  timestampMs : UInt64
  payloadJson : Bytes
  crc32 : UInt32
  deriving DecidableEq, Repr

namespace WalRecord

def plen (r : WalRecord) : UInt32 :=
  UInt32.ofNat r.payloadJson.length

def header (r : WalRecord) : Bytes :=
  writeBe64 r.walSeq ++ (r.opType :: (writeBe64 r.timestampMs ++ writeBe32 r.plen))

/-- The bytes that the checksum covers. -/
def body (r : WalRecord) : Bytes :=
  r.header ++ r.payloadJson.take r.plen.toNat

def text (r : WalRecord) : Bytes :=
  r.body ++ writeBe32 r.crc32

/-- The payload fits the record. -/
def Fits (r : WalRecord) : Prop :=
  21 + r.payloadJson.length < 2 ^ 32

instance (r : WalRecord) : Decidable r.Fits :=
  inferInstanceAs (Decidable (_ < _))

end WalRecord

/-- One round of the loop in `read_unapplied`. -/
def readRecord : Reader UInt8 WalRecord := do
  let hdr ← readBytes 21
  let payload ← readBytes (readBe32 (hdr.drop 17)).toNat
  let crcBytes ← readBytes 4
  return ⟨readBe64 hdr, hdr.getD 8 0, readBe64 (hdr.drop 9), payload, readBe32 crcBytes⟩

theorem readRecord_eq :
    readRecord = readFramed 21 4 (fun hdr => (readBe32 (hdr.drop 17)).toNat)
      (fun hdr payload crcBytes =>
        ⟨readBe64 hdr, hdr.getD 8 0, readBe64 (hdr.drop 9), payload, readBe32 crcBytes⟩) :=
  rfl

theorem stable_readRecord : Stable readRecord :=
  stable_readFramed

theorem consumes_readRecord : Consumes 1 readRecord :=
  consumes_readFramed (Nat.succ_pos 20)

/-- The records of `wal.log`. -/
def walFormat : RecordFormat UInt8 WalRecord where
  read := readRecord
  stable := stable_readRecord
  consumes := consumes_readRecord

namespace WalRecord

variable {r : WalRecord}

@[simp] theorem length_header (r : WalRecord) : r.header.length = 21 := by
  simp [header]

theorem Fits.length_lt (h : r.Fits) : r.payloadJson.length < 2 ^ 32 :=
  Nat.lt_of_le_of_lt (Nat.le_add_left _ 21) h

theorem toNat_plen (h : r.payloadJson.length < 2 ^ 32) : r.plen.toNat = r.payloadJson.length :=
  UInt32.toNat_ofNat_of_lt' h

theorem text_eq (h : r.payloadJson.length < 2 ^ 32) :
    r.text = r.header ++ (r.payloadJson ++ writeBe32 r.crc32) := by
  rw [text, body, toNat_plen h, List.take_length, List.append_assoc]

theorem readBe64_header (r : WalRecord) : readBe64 r.header = r.walSeq := by
  simp [header]

theorem drop_header (r : WalRecord) : r.header.drop 9 = writeBe64 r.timestampMs ++ writeBe32 r.plen := by
  have hsplit : r.header =
      (writeBe64 r.walSeq ++ [r.opType]) ++ (writeBe64 r.timestampMs ++ writeBe32 r.plen) := by
    simp [header]
  rw [hsplit]
  exact List.drop_left' (by simp)

theorem readBe32_header (r : WalRecord) : readBe32 (r.header.drop 17) = r.plen := by
  have hfield : r.header.drop 17 = writeBe32 r.plen := by
    rw [← List.drop_drop (i := 8) (j := 9), drop_header]
    exact List.drop_left' (length_writeBe64 _)
  rw [hfield, readBe32_writeBe32]

theorem getD_header (r : WalRecord) : r.header.getD 8 0 = r.opType := by
  rw [header, List.getD_eq_getElem?_getD, List.getElem?_append_right (by simp)]
  simp

theorem spells_text (h : r.payloadJson.length < 2 ^ 32) : walFormat.Spells r.text r := by
  change readRecord r.text = some (r, [])
  rw [readRecord_eq, readFramed_eq_some_iff]
  refine ⟨r.header, r.payloadJson, writeBe32 r.crc32, length_header r, ?_, length_writeBe32 _, ?_, ?_⟩
  · rw [readBe32_header, toNat_plen h]
  · rw [text_eq h, List.append_nil]
  · rw [readBe64_header, getD_header, drop_header]
    simp

end WalRecord

/-! ## Operations -/

/-- `wal.log`, the text of `applied.seq`, and the two counters in memory. -/
structure WalFile where
  log : Bytes := []
  applied : Bytes := []
  lastSeq : UInt64 := 0
  appliedSeq : UInt64 := 0
  deriving DecidableEq, Repr

/-- The scan in `open`.  Seeking past the end of the file succeeds. -/
def scanLoop : Nat → UInt64 → Bytes → UInt64
  | 0, last, _ => last
  | fuel + 1, last, fin =>
      match readBytes 21 fin with
      | none => last
      | some (hdr, fin) =>
          let seq := readBe64 hdr
          let plen := readBe32 (hdr.drop 17)
          scanLoop fuel (if seq > last then seq else last) (fin.drop (plen + 4).toNat)

namespace WalFile

def «open» (w : WalFile) : WalFile :=
  { w with
    appliedSeq := UInt64.ofNat (ofDecimal w.applied)
    lastSeq := scanLoop w.log.length 0 w.log }

/-- The record that the next append writes. -/
def nextRecord (crc : Bytes → UInt32) (w : WalFile) (op : UInt8) (tsMs : UInt64)
    (payloadJson : Bytes) : WalRecord :=
  let seq := w.lastSeq + 1
  ⟨seq, op, tsMs, payloadJson, crc (WalRecord.body ⟨seq, op, tsMs, payloadJson, 0⟩)⟩

/-- Append a record and return its sequence. -/
def append (crc : Bytes → UInt32) (w : WalFile) (op : UInt8) (tsMs : UInt64) (payloadJson : Bytes) :
    WalFile × UInt64 :=
  let r := w.nextRecord crc op tsMs payloadJson
  ({ w with log := w.log ++ r.text, lastSeq := r.walSeq }, r.walSeq)

def markApplied (w : WalFile) (walSeq : UInt64) : WalFile :=
  if walSeq > w.appliedSeq then
    { w with appliedSeq := walSeq, applied := decimal walSeq.toNat }
  else w

def readUnapplied (w : WalFile) (afterSeq : UInt64) : List WalRecord :=
  (walFormat.records w.log).filter fun r => decide (r.walSeq > afterSeq)

/-- The file is written anew from the records that are left. -/
def truncateApplied (w : WalFile) : WalFile :=
  { w with log := (w.readUnapplied w.appliedSeq).flatMap WalRecord.text }

end WalFile

/-! ## Runs -/

/-- A directory and the process that has it open, if one runs.  `returned` is a history variable:
sequence, operation and payload of every append that returned. -/
structure WalRun where
  wal : WalFile := {}
  running : Bool := false
  returned : List (UInt64 × UInt8 × Bytes) := []
  deriving DecidableEq, Repr

inductive WalAction
  | reopen
  | append (op : UInt8) (tsMs : UInt64) (payloadJson : Bytes)
  | crash (op : UInt8) (tsMs : UInt64) (payloadJson : Bytes) (cut : Nat)
  | markApplied (walSeq : UInt64)
  | truncateApplied
  deriving DecidableEq, Repr

/-- What a reader of the log gets of a record. -/
def WalRecord.info (r : WalRecord) : UInt64 × UInt8 × Bytes :=
  (r.walSeq, r.opType, r.payloadJson)

namespace WalRun

/-- An append that dies leaves a proper part of its record. -/
def step (crc : Bytes → UInt32) (s : WalRun) : WalAction → Option WalRun
  | .reopen => some { s with wal := s.wal.open, running := true }
  | .append op tsMs payloadJson =>
      if s.running then
        let (wal, seq) := s.wal.append crc op tsMs payloadJson
        some { s with wal := wal, returned := s.returned ++ [(seq, op, payloadJson)] }
      else none
  | .crash op tsMs payloadJson cut =>
      let text := (s.wal.nextRecord crc op tsMs payloadJson).text
      if s.running ∧ cut < text.length then
        some { s with wal := { s.wal with log := s.wal.log ++ text.take cut }, running := false }
      else none
  | .markApplied walSeq =>
      if s.running then some { s with wal := s.wal.markApplied walSeq } else none
  | .truncateApplied =>
      if s.running then some { s with wal := s.wal.truncateApplied } else none

/-- `read_unapplied(0)` gives exactly what was appended. -/
def Recovered (s : WalRun) : Prop :=
  (s.wal.readUnapplied 0).map WalRecord.info = s.returned

instance (s : WalRun) : Decidable s.Recovered :=
  inferInstanceAs (Decidable (_ = _))

/-- Appends, crashes in an append, and openings. -/
def Appends : WalAction → Prop
  | .reopen | .append .. | .crash .. => True
  | .markApplied _ | .truncateApplied => False

/-- No append starts behind a record that was cut off, the payloads fit, and the counter does not
wrap around. -/
def Whole (crc : Bytes → UInt32) (s : WalRun) : WalAction → Prop
  | .append op tsMs payloadJson =>
      walFormat.Clean s.wal.log ∧ (s.wal.nextRecord crc op tsMs payloadJson).Fits ∧
        s.wal.lastSeq.toNat + 1 < 2 ^ 64
  | .crash op tsMs payloadJson cut =>
      0 < cut → walFormat.Clean s.wal.log ∧ (s.wal.nextRecord crc op tsMs payloadJson).Fits
  | _ => True

instance : (a : WalAction) → Decidable (Appends a)
  | .reopen | .append .. | .crash .. => .isTrue trivial
  | .markApplied _ | .truncateApplied => .isFalse id

instance (crc : Bytes → UInt32) (s : WalRun) : (a : WalAction) → Decidable (Whole crc s a)
  | .append .. => inferInstanceAs (Decidable (_ ∧ _ ∧ _))
  | .crash .. => inferInstanceAs (Decidable (_ → _))
  | .reopen | .markApplied _ | .truncateApplied => .isTrue trivial

variable {crc : Bytes → UInt32}

/-- The records of the log are the returned ones, and none is numbered 0. -/
structure Sound (s : WalRun) : Prop where
  records : (walFormat.records s.wal.log).map WalRecord.info = s.returned
  numbered : ∀ r ∈ walFormat.records s.wal.log, r.walSeq > 0

theorem Sound.read_back {s : WalRun} (h : Sound s) : s.Recovered := by
  have hall : (walFormat.records s.wal.log).filter (fun r => decide (r.walSeq > 0)) =
      walFormat.records s.wal.log := by
    rw [List.filter_eq_self]
    intro r hr
    exact decide_eq_true (h.numbered r hr)
  unfold Recovered WalFile.readUnapplied
  rw [hall]
  exact h.records

theorem Sound.append {s : WalRun} (h : Sound s) {op : UInt8} {tsMs : UInt64} {payloadJson : Bytes}
    (hwhole : Whole crc s (.append op tsMs payloadJson)) :
    Sound { s with
      wal := (s.wal.append crc op tsMs payloadJson).1
      returned := s.returned ++ [((s.wal.append crc op tsMs payloadJson).2, op, payloadJson)] } := by
  rcases hwhole with ⟨hclean, hfits, hcounter⟩
  have hrecords : walFormat.records (s.wal.append crc op tsMs payloadJson).1.log =
      walFormat.records s.wal.log ++ [s.wal.nextRecord crc op tsMs payloadJson] := by
    rw [WalFile.append, hclean.records_append, (WalRecord.spells_text hfits.length_lt).records_eq]
  have hpos : (s.wal.nextRecord crc op tsMs payloadJson).walSeq > 0 :=
    UInt64.lt_of_le_of_lt UInt64.zero_le (lt_add_one_of_fits hcounter)
  constructor
  · rw [hrecords, List.map_append, h.records]
    rfl
  · rw [hrecords, List.forall_mem_append]
    exact ⟨h.numbered, by simpa using hpos⟩

theorem Sound.crash {s : WalRun} (h : Sound s) {op : UInt8} {tsMs : UInt64} {payloadJson : Bytes}
    {cut : Nat} (hwhole : Whole crc s (.crash op tsMs payloadJson cut))
    (hcut : cut < (s.wal.nextRecord crc op tsMs payloadJson).text.length) :
    Sound { s with
      wal := { s.wal with
        log := s.wal.log ++ (s.wal.nextRecord crc op tsMs payloadJson).text.take cut }
      running := false } := by
  have hsame : walFormat.records
      (s.wal.log ++ (s.wal.nextRecord crc op tsMs payloadJson).text.take cut) =
        walFormat.records s.wal.log := by
    rcases Nat.eq_zero_or_pos cut with rfl | hpos
    · simp
    · -- a part of a record reads as none
      rcases hwhole hpos with ⟨hclean, hfits⟩
      have hpart := (WalRecord.spells_text hfits.length_lt).read_take hcut
      rw [hclean.records_append, (RecordFormat.of_read_eq_none hpart).1, List.append_nil]
  constructor
  · rw [hsame]
    exact h.records
  · rw [hsame]
    exact h.numbered

theorem Sound.step {s s' : WalRun} {a : WalAction} (h : Sound s) (happends : Appends a)
    (hwhole : Whole crc s a) (hstep : s.step crc a = some s') : Sound s' := by
  cases a with
  | reopen =>
      cases hstep
      exact ⟨h.records, h.numbered⟩
  | append op tsMs payloadJson =>
      simp only [WalRun.step] at hstep
      split_ifs at hstep with hrunning
      cases hstep
      exact h.append hwhole
  | crash op tsMs payloadJson cut =>
      simp only [WalRun.step] at hstep
      split_ifs at hstep with hcut
      cases hstep
      exact h.crash hwhole hcut.2
  | markApplied walSeq => exact happends.elim
  | truncateApplied => exact happends.elim

/-- In a run whose appends all start behind a whole record, `read_unapplied(0)` gives exactly what
was appended. -/
theorem recovered (crc : Bytes → UInt32) (s : WalRun)
    (h : Reach (step crc) (fun s a => Appends a ∧ Whole crc s a) {} s) : s.Recovered := by
  have hsound : Sound s := Reach.invariant ⟨by simp [RecordFormat.records_nil],
    by simp [RecordFormat.records_nil]⟩ (fun _ hs ha hstep => hs.step ha.1 ha.2 hstep) h
  exact hsound.read_back

/-- Two appends, one that dies before its first byte, and appends behind an opening. -/
def uncut : List WalAction :=
  [.reopen, .append 1 7 [0x61], .append 3 7 [0x62, 0x63], .crash 3 8 [0x64] 0, .reopen,
    .append 3 9 [], .crash 3 9 [0x65] 12, .reopen]

theorem recovered_uncut :
    ∃ s, Library.run (step crc32) (fun s a => Appends a ∧ Whole crc32 s a) {} uncut = some s ∧
      s.returned = [(1, 1, [0x61]), (2, 3, [0x62, 0x63]), (3, 3, [])] ∧ s.Recovered := by
  have hrun : ∃ s, Library.run (step crc32) (fun s a => Appends a ∧ Whole crc32 s a) {} uncut = some s ∧
      s.returned = [(1, 1, [0x61]), (2, 3, [0x62, 0x63]), (3, 3, [])] := by
    refine ⟨(Library.run (step crc32) (fun s a => Appends a ∧ Whole crc32 s a) {} uncut).getD {},
      ?_, ?_⟩ <;> decide +kernel
  rcases hrun with ⟨s, hrun, hreturned⟩
  exact ⟨s, hrun, hreturned, recovered crc32 s (reach_of_run hrun)⟩

/-- The record behind three torn bytes is not reported. -/
theorem append_hidden_behind_torn :
    ¬ ∀ (crc : Bytes → UInt32) (s : WalRun),
      Reach (step crc) (fun _ a => Appends a) {} s → s.Recovered := by
  intro hall
  let torn : List WalAction := [.reopen, .append 1 7 [0x61], .crash 3 7 [0x62] 3, .reopen, .append 3 8 [0x63]]
  let last := (Library.run (step crc32) (fun _ a => Appends a) {} torn).getD {}
  have hrun : Library.run (step crc32) (fun _ a => Appends a) {} torn = some last := by decide +kernel
  have hnot : ¬last.Recovered := by decide +kernel
  exact hnot (hall crc32 last (reach_of_run hrun))

end WalRun
end ControlDB
