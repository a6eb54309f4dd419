import ControlDB.Core.WalFresh

/-!
# The log of records behind the log of bytes

`Wal` keeps the write-ahead log as a list of records, `WalFile` as the bytes of `wal.log`.  A file
of whole records represents such a list, and the operations that a store uses keep it that way.
-/

namespace ControlDB

open Library

/-- The underlying byte of an operation. -/
def WalOpType.code : WalOpType → UInt8
  | .insertRun => 1
  | .updateRun => 2
  | .insertEvent => 3
  | .insertApproval => 4
  | .updateApproval => 5
  | .insertExport => 6

/-- The record was written for the entry. -/
structure WalRecord.IsOf (env : Env) (e : WalEntry) (r : WalRecord) : Prop where
  walSeq : r.walSeq.toNat = e.walSeq
  opType : r.opType = e.opType.code
  payload : env.dump e.payload = some r.payloadJson

/-- The file holds the records of the log, and marker and counters agree. -/
structure WalFile.Represents (env : Env) (w : Wal) (f : WalFile) (rs : List WalRecord) : Prop where
  log : f.log = rs.flatMap WalRecord.text
  fits : ∀ r ∈ rs, r.Fits
  records : List.Forall₂ (WalRecord.IsOf env) w.records rs
  marker : f.applied = w.appliedFile
  last : f.lastSeq.toNat = w.lastSeq
  applied : f.appliedSeq.toNat = w.appliedSeq

namespace WalFile.Represents

variable {env : Env} {w : Wal} {f : WalFile} {rs : List WalRecord}

theorem empty : Represents env {} {} [] where
  log := rfl
  fits := by simp
  records := .nil
  marker := rfl
  last := rfl
  applied := rfl

/-- A record with the next sequence is appended to both. -/
theorem append (h : Represents env w f rs) (crc : Bytes → UInt32) {e : WalEntry} {tsMs : UInt64}
    {payloadJson : Bytes} (hdump : env.dump e.payload = some payloadJson)
    (hseq : e.walSeq = w.lastSeq + 1) (hcounter : e.walSeq < 2 ^ 64)
    (hfits : (f.nextRecord crc e.opType.code tsMs payloadJson).Fits) :
    Represents env (w.append e) (f.append crc e.opType.code tsMs payloadJson).1
      (rs ++ [f.nextRecord crc e.opType.code tsMs payloadJson]) := by
  have hnext : (f.lastSeq + 1).toNat = e.walSeq := by
    rw [UInt64.toNat_add, h.last, hseq]
    exact Nat.mod_eq_of_lt (hseq ▸ hcounter)
  refine
    { log := ?_, fits := ?_, records := ?_, marker := h.marker, last := hnext, applied := h.applied }
  · rw [List.flatMap_append, ← h.log]
    simp [WalFile.append]
  · rw [List.forall_mem_append]
    exact ⟨h.fits, by simpa using hfits⟩
  · exact List.rel_append h.records (.cons ⟨hnext, rfl, hdump⟩ .nil)

theorem markApplied (h : Represents env w f rs) {walSeq : UInt64} :
    Represents env (w.markApplied walSeq.toNat) (f.markApplied walSeq) rs := by
  have hiff : walSeq > f.appliedSeq ↔ walSeq.toNat > w.appliedSeq := by
    rw [gt_iff_lt, UInt64.lt_iff_toNat_lt, h.applied]
  by_cases hgt : walSeq > f.appliedSeq
  · rw [WalFile.markApplied, Wal.markApplied, if_pos hgt, if_pos (hiff.1 hgt)]
    exact { h with marker := rfl, applied := rfl }
  · rw [WalFile.markApplied, Wal.markApplied, if_neg hgt, if_neg fun hw => hgt (hiff.2 hw)]
    exact h

theorem toNat_foldl_laterSeq {entries : List WalEntry}
    (h : List.Forall₂ (WalRecord.IsOf env) entries rs) (last : UInt64) :
    (rs.foldl laterSeq last).toNat =
      entries.foldl (fun last e => max last e.walSeq) last.toNat := by
  induction h generalizing last with
  | nil => rfl
  | @cons e r entries rs hr _ ih =>
      have hlater : (laterSeq last r).toNat = max last.toNat e.walSeq := by
        unfold laterSeq
        split_ifs with hgt
        · rw [gt_iff_lt, UInt64.lt_iff_toNat_lt, hr.walSeq] at hgt
          rw [hr.walSeq, Nat.max_eq_right (Nat.le_of_lt hgt)]
        · rw [gt_iff_lt, UInt64.lt_iff_toNat_lt, hr.walSeq, Nat.not_lt] at hgt
          rw [Nat.max_eq_left hgt]
      rw [List.foldl_cons, List.foldl_cons, ih, hlater]

/-- Both openings take their counters from what is stored. -/
theorem reopen (h : Represents env w f rs) (hmarker : w.persistedApplied < 2 ^ 64) :
    Represents env w.reopen f.open rs := by
  refine { h with last := ?_, applied := ?_ }
  · change (scanLoop f.log.length 0 f.log).toNat = _
    rw [h.log, scan_eq h.fits, toNat_foldl_laterSeq h.records]
    rfl
  · change (UInt64.ofNat (ofDecimal f.applied)).toNat = w.persistedApplied
    rw [h.marker]
    exact UInt64.toNat_ofNat_of_lt' hmarker

end WalFile.Represents
end ControlDB
