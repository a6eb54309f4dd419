import ControlDB.Core.WalFile

/-!
# What the write-ahead log gives back

Calls of `append`, `mark_applied` and `truncate_applied` on a fresh log, and what `read_unapplied`
returns after them: the appended records, in order, without those that some truncation took out.
-/

namespace ControlDB

open Library

/-- A call on an open log; `tsMs` is what the clock says. -/
inductive WalCall
  | append (op : UInt8) (tsMs : UInt64) (payloadJson : Bytes)
  | markApplied (walSeq : UInt64)
  | truncateApplied
  deriving DecidableEq, Repr

namespace WalCall

/-- The payload leaves room for header and checksum in 32 bits. -/
def Short : WalCall → Prop
  | append _ _ payloadJson => payloadJson.length < 2 ^ 32 - 25
  | markApplied _ | truncateApplied => True

instance : (c : WalCall) → Decidable c.Short
  | append .. => inferInstanceAs (Decidable (_ < _))
  | markApplied _ | truncateApplied => .isTrue trivial

/-- The log after a call. -/
def run (crc : Bytes → UInt32) (w : WalFile) : WalCall → WalFile
  | append op tsMs payloadJson => (w.append crc op tsMs payloadJson).1
  | markApplied walSeq => w.markApplied walSeq
  | truncateApplied => w.truncateApplied

/-- What a call appends: the sequence it returns, with operation and payload. -/
def appended (crc : Bytes → UInt32) (w : WalFile) : WalCall → Option (UInt64 × UInt8 × Bytes)
  | append op tsMs payloadJson => some ((w.append crc op tsMs payloadJson).2, op, payloadJson)
  | markApplied _ | truncateApplied => none

end WalCall

namespace WalFile

/-- The log after calls on a fresh one. -/
def after (crc : Bytes → UInt32) (calls : List WalCall) : WalFile :=
  calls.foldl (WalCall.run crc) (WalFile.open {})

/-- What the `i`-th call appended. -/
def appendedAt (crc : Bytes → UInt32) (calls : List WalCall) (i : Nat) :
    Option (UInt64 × UInt8 × Bytes) :=
  calls[i]?.bind (WalCall.appended crc (after crc (calls.take i)))

/-- A truncation after the `i`-th call met `seq` at or below the applied sequence. -/
def TruncatedAfter (crc : Bytes → UInt32) (calls : List WalCall) (i : Nat) (seq : UInt64) : Prop :=
  ∃ j, j < calls.length ∧ i < j ∧ calls[j]? = some .truncateApplied ∧
    seq ≤ (after crc (calls.take j)).appliedSeq

instance (crc : Bytes → UInt32) (calls : List WalCall) (i : Nat) (seq : UInt64) :
    Decidable (TruncatedAfter crc calls i seq) :=
  inferInstanceAs (Decidable (∃ j, j < calls.length ∧ _))

/-- The appended records that no later truncation took out, in append order. -/
def kept (crc : Bytes → UInt32) (calls : List WalCall) : List (UInt64 × UInt8 × Bytes) :=
  (List.range calls.length).filterMap fun i =>
    (appendedAt crc calls i).filter fun entry => decide (¬TruncatedAfter crc calls i entry.1)

/-! ## One more call -/

section Concat

variable {crc : Bytes → UInt32} (calls : List WalCall) (c : WalCall)

theorem after_concat : after crc (calls ++ [c]) = WalCall.run crc (after crc calls) c := by
  simp [after]

variable {i : Nat}

theorem take_concat (hi : i ≤ calls.length) : (calls ++ [c]).take i = calls.take i :=
  List.take_append_of_le_length hi

theorem appendedAt_concat_of_lt (hi : i < calls.length) :
    appendedAt crc (calls ++ [c]) i = appendedAt crc calls i := by
  rw [appendedAt, appendedAt, take_concat calls c hi.le, List.getElem?_append_left hi]

theorem appendedAt_concat_length :
    appendedAt crc (calls ++ [c]) calls.length = WalCall.appended crc (after crc calls) c := by
  simp [appendedAt]

/-- Only a truncation adds to what is taken out, and only records from before it. -/
theorem truncatedAfter_concat (seq : UInt64) :
    TruncatedAfter crc (calls ++ [c]) i seq ↔
      TruncatedAfter crc calls i seq ∨
        i < calls.length ∧ c = .truncateApplied ∧ seq ≤ (after crc calls).appliedSeq := by
  constructor
  · rintro ⟨j, hj, hij, hcall, hseq⟩
    rw [List.length_append, List.length_singleton] at hj
    rw [take_concat calls c (Nat.le_of_lt_succ hj)] at hseq
    rcases Nat.eq_or_lt_of_le (Nat.le_of_lt_succ hj) with rfl | hlt
    · right
      rw [List.take_length] at hseq
      exact ⟨hij, by simpa using hcall, hseq⟩
    · rw [List.getElem?_append_left hlt] at hcall
      exact .inl ⟨j, hlt, hij, hcall, hseq⟩
  · rintro (⟨j, hj, hij, hcall, hseq⟩ | ⟨hi, rfl, hseq⟩)
    · refine ⟨j, ?_, hij, ?_, ?_⟩
      · rw [List.length_append]
        exact Nat.lt_add_right _ hj
      · rwa [List.getElem?_append_left hj]
      · rwa [take_concat calls c hj.le]
    · exact ⟨calls.length, by simp, hi, by simp, by simpa using hseq⟩

/-- The records of the earlier calls stay, but for those that the call itself takes out. -/
theorem kept_concat :
    kept crc (calls ++ [c]) =
      (kept crc calls).filter
          (fun entry => decide ¬(c = .truncateApplied ∧ entry.1 ≤ (after crc calls).appliedSeq)) ++
        (WalCall.appended crc (after crc calls) c).toList := by
  have hearlier : ∀ i ∈ List.range calls.length,
      ((appendedAt crc (calls ++ [c]) i).filter fun entry =>
        decide ¬TruncatedAfter crc (calls ++ [c]) i entry.1) =
      ((appendedAt crc calls i).filter fun entry =>
        decide ¬TruncatedAfter crc calls i entry.1).filter fun entry =>
          decide ¬(c = .truncateApplied ∧ entry.1 ≤ (after crc calls).appliedSeq) := by
    intro i hi
    have hlt : i < calls.length := List.mem_range.1 hi
    rw [appendedAt_concat_of_lt calls c hlt, Option.filter_filter]
    congr 1
    funext entry
    simp only [truncatedAfter_concat, hlt, true_and, not_or, Bool.decide_and]
  have hlast : ∀ seq, ¬TruncatedAfter crc (calls ++ [c]) calls.length seq := by
    rintro seq ⟨j, hj, hlt, -⟩
    rw [List.length_append, List.length_singleton] at hj
    omega
  have hnew : ((appendedAt crc (calls ++ [c]) calls.length).filter fun entry =>
      decide ¬TruncatedAfter crc (calls ++ [c]) calls.length entry.1) =
        WalCall.appended crc (after crc calls) c := by
    rw [appendedAt_concat_length]
    rcases WalCall.appended crc (after crc calls) c with _ | entry
    · rfl
    · exact Option.filter_eq_some_iff.2 ⟨rfl, decide_eq_true (hlast entry.1)⟩
  have hsingle : ([calls.length].filterMap fun i =>
      (appendedAt crc (calls ++ [c]) i).filter fun entry =>
        decide ¬TruncatedAfter crc (calls ++ [c]) i entry.1) =
      (WalCall.appended crc (after crc calls) c).toList := by
    simp only [List.filterMap_cons, List.filterMap_nil, hnew]
    rcases WalCall.appended crc (after crc calls) c with _ | entry
    · rfl
    · rfl
  have hrange : List.range (calls ++ [c]).length = List.range calls.length ++ [calls.length] := by
    rw [List.length_append, List.length_singleton, List.range_succ]
  rw [kept, hrange, List.filterMap_append, hsingle, List.filterMap_congr hearlier, kept,
    List.filter_filterMap]

end Concat

/-! ## The file -/

/-- The file spells out records that are the kept ones. -/
structure HoldsKept (crc : Bytes → UInt32) (calls : List WalCall) (rs : List WalRecord) : Prop where
  log : (after crc calls).log = rs.flatMap WalRecord.text
  fits : ∀ r ∈ rs, r.Fits
  info : rs.map WalRecord.info = kept crc calls

namespace HoldsKept

variable {crc : Bytes → UInt32} {calls : List WalCall} {rs : List WalRecord}

theorem readUnapplied_eq (h : HoldsKept crc calls rs) (afterSeq : UInt64) :
    (after crc calls).readUnapplied afterSeq =
      rs.filter fun r => decide (r.walSeq > afterSeq) := by
  have hrecords : walFormat.records (after crc calls).log = rs := by
    rw [h.log]
    exact RecordFormat.records_encoded fun r hr => WalRecord.spells_text (h.fits r hr).length_lt
  rw [readUnapplied, hrecords]

theorem nil : HoldsKept crc [] [] where
  log := rfl
  fits := by simp
  info := rfl

/-- Each call leaves the records that are kept, spelled out one behind the other. -/
theorem concat (h : HoldsKept crc calls rs) {c : WalCall} (hshort : c.Short) :
    ∃ rs', HoldsKept crc (calls ++ [c]) rs' := by
  cases c with
  | append op tsMs payloadJson =>
      refine ⟨rs ++ [(after crc calls).nextRecord crc op tsMs payloadJson], ?_, ?_, ?_⟩
      · rw [after_concat, WalCall.run, append, h.log]
        simp
      · rw [List.forall_mem_append]
        refine ⟨h.fits, ?_⟩
        simp only [List.mem_singleton, forall_eq, WalRecord.Fits, nextRecord]
        simp only [WalCall.Short] at hshort
        omega
      · simp [kept_concat, h.info, WalRecord.info, WalCall.appended, append, nextRecord]
  | markApplied walSeq =>
      refine ⟨rs, ?_, h.fits, ?_⟩
      · rw [after_concat, WalCall.run, markApplied]
        split_ifs <;> exact h.log
      · simp [kept_concat, h.info, WalCall.appended]
  | truncateApplied =>
      refine ⟨rs.filter fun r => decide (r.walSeq > (after crc calls).appliedSeq), ?_, ?_, ?_⟩
      · rw [after_concat, WalCall.run, truncateApplied, h.readUnapplied_eq]
      · exact fun r hr => h.fits r (List.mem_of_mem_filter hr)
      · rw [kept_concat, ← h.info, List.filter_map]
        simp [WalCall.appended, Function.comp_def]
        rfl

theorem of_short (crc : Bytes → UInt32) (h : ∀ c ∈ calls, c.Short) : ∃ rs, HoldsKept crc calls rs := by
  induction calls using List.reverseRecOn with
  | nil => exact ⟨[], nil⟩
  | append_singleton calls c ih =>
      rcases ih fun c' hc' => h c' (List.mem_append_left _ hc') with ⟨rs, hrs⟩
      exact hrs.concat (h c (by simp))

end HoldsKept

/-- After any calls on a fresh log, `read_unapplied` returns the appended records beyond the given
sequence that no later truncation took out, in append order. -/
theorem readUnapplied_after (crc : Bytes → UInt32) (calls : List WalCall)
    (hshort : ∀ c ∈ calls, c.Short) (afterSeq : UInt64) :
    ((after crc calls).readUnapplied afterSeq).map WalRecord.info =
      (List.range calls.length).filterMap fun i =>
        (appendedAt crc calls i).filter fun entry =>
          decide (entry.1 > afterSeq ∧ ¬TruncatedAfter crc calls i entry.1) := by
  rcases HoldsKept.of_short crc hshort with ⟨rs, hrs⟩
  have hfilter : ((after crc calls).readUnapplied afterSeq).map WalRecord.info =
      (kept crc calls).filter fun entry => decide (entry.1 > afterSeq) := by
    rw [hrs.readUnapplied_eq, ← hrs.info, List.filter_map]
    rfl
  rw [hfilter, kept, List.filter_filterMap]
  refine List.filterMap_congr fun i _ => ?_
  rw [Option.filter_filter]
  congr 1
  funext entry
  rw [Bool.and_comm, ← Bool.decide_and]

/-- The second truncation takes out the second record only: the first went with the first. -/
def truncations : List WalCall :=
  [.append 1 7 [0x61], .append 3 7 [0x62, 0x63], .markApplied 1, .truncateApplied, .append 3 8 [],
    .markApplied 2, .append 6 9 [0x64], .truncateApplied, .append 1 9 [0x65]]

theorem readUnapplied_truncations :
    (∀ c ∈ truncations, c.Short) ∧
      ((after crc32 truncations).readUnapplied 3).map WalRecord.info =
        [(4, 6, [0x64]), (5, 1, [0x65])] ∧
      ((after crc32 truncations).readUnapplied 3).map WalRecord.info =
        (List.range truncations.length).filterMap fun i =>
          (appendedAt crc32 truncations i).filter fun entry =>
            decide (entry.1 > 3 ∧ ¬TruncatedAfter crc32 truncations i entry.1) :=
  have hshort : ∀ c ∈ truncations, c.Short := by decide
  ⟨hshort, by decide +kernel, readUnapplied_after crc32 truncations hshort 3⟩

end WalFile
end ControlDB
