import ControlDB.Core.WalFile
import ControlDB.Raft.LogFile

/-!
# Checksums of the two log files

`Wal::append` and `RaftLog::write_entry` store the CRC-32 of header and payload behind each record;
`read_unapplied` keeps it in its result and `load` drops it, and neither compares it with the bytes.
All accepted records have the right checksum exactly where the file was written that way.
-/

namespace ControlDB

open Library

/-- The bytes end within a record: in its header of `n` bytes, whose last four are the length of the
payload, or before the end of payload and checksum. -/
def Torn (n : Nat) (l : Bytes) : Prop :=
  l.length < n ∨ l.length < n + (readBe32 ((l.take n).drop (n - 4))).toNat + 4

instance (n : Nat) (l : Bytes) : Decidable (Torn n l) :=
  inferInstanceAs (Decidable (_ ∨ _))

/-! ## The write-ahead log -/

/-- The fields that are read from a header are written as that header. -/
theorem writeBe_readBe_header {hdr : Bytes} (h : hdr.length = 21) :
    writeBe64 (readBe64 hdr) ++ (hdr.getD 8 0 ::
      (writeBe64 (readBe64 (hdr.drop 9)) ++ writeBe32 (readBe32 (hdr.drop 17)))) = hdr := by
  -- split into sequence, operation, time and length
  rcases hop : hdr.drop 8 with _ | ⟨op, rest⟩
  · have hlen := congrArg List.length hop
    simp [h] at hlen
  · have hhdr : hdr = hdr.take 8 ++ op :: rest := by rw [← hop, List.take_append_drop]
    have hseq : (hdr.take 8).length = 8 := by simp [h]
    have hrest : rest.length = 12 := by
      have hlen := congrArg List.length hop
      simp only [List.length_drop, h, List.length_cons] at hlen
      omega
    generalize hdr.take 8 = seq at hhdr hseq
    have htime : (rest.take 8).length = 8 := by simp [hrest]
    have hplen : (rest.drop 8).length = 4 := by simp [hrest]
    have hsplit : rest = rest.take 8 ++ rest.drop 8 := (List.take_append_drop 8 rest).symm
    generalize rest.take 8 = time at htime hsplit
    generalize rest.drop 8 = plen at hplen hsplit
    subst hsplit hhdr
    have hnine : (seq ++ op :: (time ++ plen)).drop 9 = time ++ plen := by
      rw [← List.drop_drop (i := 1) (j := 8), List.drop_left' hseq, List.drop_succ_cons,
        List.drop_zero]
    have hseventeen : (seq ++ op :: (time ++ plen)).drop 17 = plen := by
      rw [← List.drop_drop (i := 8) (j := 9), hnine, List.drop_left' htime]
    have hat : (seq ++ op :: (time ++ plen)).getD 8 0 = op := by
      simp [List.getD_eq_getElem?_getD, hseq]
    rw [hnine, hseventeen, hat, writeBe64_readBe64_append hseq, writeBe64_readBe64_append htime,
      writeBe32_readBe32 hplen]

/-- `wal.log` is read as it is written. -/
theorem exact_walFormat :
    walFormat.Exact WalRecord.text fun r => r.payloadJson.length < 2 ^ 32 where
  spells := fun _ h => WalRecord.spells_text h
  text := by
    intro l r rest h
    change readRecord l = some (r, rest) at h
    rw [readRecord_eq, readFramed_eq_some_iff] at h
    rcases h with ⟨hdr, payload, crcBytes, hhdr, hpayload, hcrc, rfl, rfl⟩
    have hshort : payload.length < 2 ^ 32 := by
      rw [hpayload]
      exact UInt32.toNat_lt _
    refine ⟨hshort, ?_⟩
    have hplen : UInt32.ofNat payload.length = readBe32 (hdr.drop 17) := by
      rw [hpayload, UInt32.ofNat_toNat]
    have hheader : WalRecord.header ⟨readBe64 hdr, hdr.getD 8 0, readBe64 (hdr.drop 9), payload,
        readBe32 crcBytes⟩ = hdr := by
      rw [WalRecord.header, WalRecord.plen, hplen, writeBe_readBe_header hhdr]
    rw [WalRecord.text_eq hshort, hheader, writeBe32_readBe32 hcrc]
    simp only [List.append_assoc]

theorem readRecord_eq_none_iff {l : Bytes} : readRecord l = none ↔ Torn 21 l := by
  rw [readRecord_eq, readFramed_eq_none_iff]
  rfl

/-- Every record that `read_unapplied` returns has the checksum of its header and payload. -/
def WalChecked (crc : Bytes → UInt32) (w : WalFile) (afterSeq : UInt64) : Prop :=
  ∀ r ∈ w.readUnapplied afterSeq, r.crc32 = crc r.body

/-- The file is records as `append` writes them, those beyond the sequence with the right checksum,
and at most a part of a record behind them. -/
def WalWritten (crc : Bytes → UInt32) (log : Bytes) (afterSeq : UInt64) : Prop :=
  ∃ (rs : List WalRecord) (torn : Bytes), log = rs.flatMap WalRecord.text ++ torn ∧
    (∀ r ∈ rs, r.payloadJson.length < 2 ^ 32 ∧ (r.walSeq > afterSeq → r.crc32 = crc r.body)) ∧
    Torn 21 torn

theorem walChecked_iff (crc : Bytes → UInt32) (w : WalFile) (afterSeq : UInt64) :
    WalChecked crc w afterSeq ↔ WalWritten crc w.log afterSeq := by
  have hfilter : WalChecked crc w afterSeq ↔
      ∀ r ∈ walFormat.records w.log, r.walSeq > afterSeq → r.crc32 = crc r.body := by
    simp only [WalChecked, WalFile.readUnapplied, List.mem_filter, decide_eq_true_eq, and_imp]
  rw [hfilter, exact_walFormat.forall_records_iff]
  simp only [WalWritten, ← readRecord_eq_none_iff]
  rfl

/-! ## The Raft log -/

namespace Raft

/-- Header and command as `write_entry` lays them out. -/
def StoredEntry.body (e : StoredEntry) : Bytes :=
  let clen := UInt32.ofNat e.command.length
  writeBe64 e.index ++ (writeBe64 e.term ++ (writeBe32 clen ++ e.command.take clen.toNat))

theorem writeEntry_eq (crc : Bytes → UInt32) (e : StoredEntry) :
    writeEntry crc e = e.body ++ writeBe32 (crc e.body) :=
  rfl

/-- A round of the loop in `load`, with the checksum that it reads and drops. -/
def readStored : Reader UInt8 (StoredEntry × UInt32) :=
  readFramed 20 4 (fun hdr => (readBe32 (hdr.drop 16)).toNat)
    (fun hdr cmd crcBytes => (⟨readBe64 hdr, readBe64 (hdr.drop 8), cmd⟩, readBe32 crcBytes))

def storedFormat : RecordFormat UInt8 (StoredEntry × UInt32) where
  read := readStored
  stable := stable_readFramed
  consumes := consumes_readFramed (Nat.succ_pos 19)

/-- What `load` gets, each entry with the checksum stored behind it. -/
def loadStored (file : Bytes) : List (StoredEntry × UInt32) :=
  storedFormat.records file

/-- `load` makes the same rounds. -/
theorem load_eq (file : Bytes) : load file = (loadStored file).map Prod.fst := by
  refine RecordFormat.records_map (fun l => ?_) file
  change readEntry l = (readStored l).map fun r => (r.1.1, r.2)
  rcases hstored : readStored l with _ | ⟨p, rest⟩
  · rw [readEntry_eq, Option.map_none, readFramed_eq_none_iff]
    exact readFramed_eq_none_iff.1 hstored
  · rcases readFramed_eq_some_iff.1 hstored with
      ⟨hdr, cmd, crcBytes, hhdr, hcmd, hcrc, hl, rfl⟩
    rw [readEntry_eq, Option.map_some, readFramed_eq_some_iff]
    exact ⟨hdr, cmd, crcBytes, hhdr, hcmd, hcrc, hl, rfl⟩

theorem body_eq {e : StoredEntry} (h : e.command.length < 2 ^ 32) :
    e.body = writeBe64 e.index ++ (writeBe64 e.term ++
      (writeBe32 (UInt32.ofNat e.command.length) ++ e.command)) := by
  rw [StoredEntry.body, UInt32.toNat_ofNat_of_lt' h, List.take_length]

/-- `raft.log` is read as it is written, were the checksums kept. -/
theorem exact_storedFormat :
    storedFormat.Exact (fun p => p.1.body ++ writeBe32 p.2) fun p =>
      p.1.command.length < 2 ^ 32 where
  spells := by
    intro p h
    change readStored _ = some (p, [])
    rw [readStored, readFramed_eq_some_iff]
    have hdrop : ∀ rest : Bytes, (writeBe64 p.1.index ++ (writeBe64 p.1.term ++ rest)).drop 16 =
        rest := by
      intro rest
      rw [← List.drop_drop (i := 8) (j := 8), List.drop_left' (length_writeBe64 _),
        List.drop_left' (length_writeBe64 _)]
    refine ⟨writeBe64 p.1.index ++ (writeBe64 p.1.term ++
      writeBe32 (UInt32.ofNat p.1.command.length)), p.1.command, writeBe32 p.2, ?_, ?_,
      length_writeBe32 _, ?_, ?_⟩
    · simp
    · rw [hdrop, readBe32_writeBe32, UInt32.toNat_ofNat_of_lt' h]
    · simp only [body_eq h, List.append_assoc, List.append_nil]
    · rw [readBe64_writeBe64_append, List.drop_left' (length_writeBe64 _),
        readBe64_writeBe64_append, readBe32_writeBe32]
  text := by
    intro l p rest h
    rcases readFramed_eq_some_iff.1 h with ⟨hdr, cmd, crcBytes, hhdr, hcmd, hcrc, rfl, rfl⟩
    have hshort : cmd.length < 2 ^ 32 := by
      rw [hcmd]
      exact UInt32.toNat_lt _
    refine ⟨hshort, ?_⟩
    have hclen : UInt32.ofNat cmd.length = readBe32 (hdr.drop 16) := by
      rw [hcmd, UInt32.ofNat_toNat]
    -- index, term and length make up the header
    have hterm : (hdr.drop 8).take 8 ++ hdr.drop 16 = hdr.drop 8 := by
      rw [← List.drop_drop (i := 8) (j := 8), List.take_append_drop]
    have hindex : writeBe64 (readBe64 hdr) = hdr.take 8 := by
      conv_lhs => rw [← List.take_append_drop 8 hdr]
      exact writeBe64_readBe64_append (by simp [hhdr]) _
    have hsecond : writeBe64 (readBe64 (hdr.drop 8)) = (hdr.drop 8).take 8 := by
      conv_lhs => rw [← hterm]
      exact writeBe64_readBe64_append (by simp [hhdr]) _
    have hlast : writeBe32 (readBe32 (hdr.drop 16)) = hdr.drop 16 :=
      writeBe32_readBe32 (by simp [hhdr])
    have hheader : hdr.take 8 ++ ((hdr.drop 8).take 8 ++ hdr.drop 16) = hdr := by
      rw [hterm, List.take_append_drop]
    rw [body_eq hshort, hclen, hindex, hsecond, hlast, writeBe32_readBe32 hcrc]
    conv_lhs => rw [← hheader]
    simp only [List.append_assoc]

theorem readStored_eq_none_iff {l : Bytes} : readStored l = none ↔ Torn 20 l := by
  rw [readStored, readFramed_eq_none_iff]
  rfl

/-- Every loaded entry had the checksum of its header and command behind it. -/
def LogChecked (crc : Bytes → UInt32) (file : Bytes) : Prop :=
  ∀ p ∈ loadStored file, p.2 = crc p.1.body

/-- The file is entries as `write_entry` writes them, and at most a part of one behind them. -/
def LogWritten (crc : Bytes → UInt32) (file : Bytes) : Prop :=
  ∃ (es : List StoredEntry) (torn : Bytes), file = es.flatMap (writeEntry crc) ++ torn ∧
    (∀ e ∈ es, e.command.length < 2 ^ 32) ∧ Torn 20 torn

theorem logChecked_iff (crc : Bytes → UInt32) (file : Bytes) :
    LogChecked crc file ↔ LogWritten crc file := by
  have hiff := exact_storedFormat.forall_records_iff (fun p => p.2 = crc p.1.body) file
  refine hiff.trans ⟨?_, ?_⟩
  · rintro ⟨ps, torn, hfile, hps, htorn⟩
    refine ⟨ps.map Prod.fst, torn, ?_, ?_, readStored_eq_none_iff.1 htorn⟩
    · rw [hfile, List.flatMap_map]
      congr 1
      refine List.flatMap_congr fun p hp => ?_
      rw [(hps p hp).2, writeEntry_eq]
    · intro e he
      rcases List.mem_map.1 he with ⟨p, hp, rfl⟩
      exact (hps p hp).1
  · rintro ⟨es, torn, hfile, hes, htorn⟩
    refine ⟨es.map fun e => (e, crc e.body), torn, ?_, ?_, readStored_eq_none_iff.2 htorn⟩
    · rw [hfile, List.flatMap_map]
      rfl
    · intro p hp
      rcases List.mem_map.1 hp with ⟨e, he, rfl⟩
      exact ⟨hes e he, rfl⟩

/-- The records that `read_unapplied` and `load` accept have the right checksums exactly when the
files are what the writers write, up to a torn end. -/
theorem checked_iff_written (crc : Bytes → UInt32) :
    (∀ (w : WalFile) (afterSeq : UInt64),
      WalChecked crc w afterSeq ↔ WalWritten crc w.log afterSeq) ∧
    ∀ file : Bytes, load file = (loadStored file).map Prod.fst ∧
      (LogChecked crc file ↔ LogWritten crc file) :=
  ⟨walChecked_iff crc, fun file => ⟨load_eq file, logChecked_iff crc file⟩⟩

/-- One record, and one entry, whose payload changed after it was written. -/
theorem flipped_accepted :
    (¬ ∀ (crc : Bytes → UInt32) (w : WalFile) (afterSeq : UInt64), WalChecked crc w afterSeq) ∧
      ¬ ∀ (crc : Bytes → UInt32) (file : Bytes), LogChecked crc file := by
  constructor
  · intro hall
    let r : WalRecord := ⟨1, 1, 7, [0x62], crc32 (WalRecord.body ⟨1, 1, 7, [0x61], 0⟩)⟩
    have hread : r ∈ WalFile.readUnapplied { log := r.text } 0 := by decide +kernel
    have hwrong : r.crc32 ≠ crc32 r.body := by decide +kernel
    exact hwrong (hall crc32 { log := r.text } 0 r hread)
  · intro hall
    let e : StoredEntry := ⟨1, 1, [0x61]⟩
    let file : Bytes := (writeEntry crc32 e).set 20 0x62
    have hread : ((⟨1, 1, [0x62]⟩, crc32 e.body) : StoredEntry × UInt32) ∈ loadStored file := by
      decide +kernel
    have hwrong : crc32 e.body ≠ crc32 (StoredEntry.body ⟨1, 1, [0x62]⟩) := by decide +kernel
    exact hwrong (hall crc32 file _ hread)

end Raft
end ControlDB
