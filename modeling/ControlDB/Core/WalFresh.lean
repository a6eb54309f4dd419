import ControlDB.Core.WalFile

/-!
# Fresh sequences in the write-ahead log

The counter of a `Wal` is not stored: an opening takes it from the records that are left in
`wal.log`.  `WalRun.fresh` proves that every append gets a sequence that is new and not yet applied
while the record of the last sequence is there at each opening, and `WalRun.stale` that otherwise
the next append repeats a sequence.
-/

namespace ControlDB

open Library

/-! ## The scan -/

/-- The larger of a sequence and the one before it. -/
def laterSeq (last : UInt64) (r : WalRecord) : UInt64 :=
  if r.walSeq > last then r.walSeq else last

/-- Payload and checksum are skipped together. -/
theorem WalRecord.toNat_plen_add {r : WalRecord} (h : r.Fits) :
    (r.plen + 4).toNat = (r.payloadJson ++ writeBe32 r.crc32).length := by
  have hsmall : r.payloadJson.length + 4 < 2 ^ 32 := by
    unfold Fits at h
    omega
  rw [UInt32.toNat_add, toNat_plen h.length_lt, List.length_append, length_writeBe32]
  exact Nat.mod_eq_of_lt hsmall

theorem scanLoop_text {r : WalRecord} (h : r.Fits) (fuel : Nat) (last : UInt64) (l : Bytes) :
    scanLoop (fuel + 1) last (r.text ++ l) = scanLoop fuel (laterSeq last r) l := by
  have hread : readBytes 21 (r.text ++ l) =
      some (r.header, r.payloadJson ++ writeBe32 r.crc32 ++ l) := by
    rw [WalRecord.text_eq h.length_lt, List.append_assoc]
    exact readBytes_append (WalRecord.length_header r) _
  simp only [scanLoop, hread, WalRecord.readBe64_header, WalRecord.readBe32_header,
    WalRecord.toNat_plen_add h]
  rw [List.drop_left]
  rfl

theorem scanLoop_flatMap {rs : List WalRecord} (h : ∀ r ∈ rs, r.Fits) (fuel : Nat) (last : UInt64)
    (l : Bytes) :
    scanLoop (rs.length + fuel) last (rs.flatMap WalRecord.text ++ l) =
      scanLoop fuel (rs.foldl laterSeq last) l := by
  induction rs generalizing last with
  | nil => simp
  | cons r rs ih =>
      rw [List.flatMap_cons, List.append_assoc, List.length_cons, Nat.add_right_comm,
        scanLoop_text (h r (by simp)), ih fun r' hr' => h r' (List.mem_cons_of_mem _ hr')]
      rfl

theorem scanLoop_nil (fuel : Nat) (last : UInt64) : scanLoop fuel last [] = last := by
  cases fuel with
  | zero => rfl
  | succ fuel => rfl

theorem length_le_flatMap_text (rs : List WalRecord) :
    rs.length ≤ (rs.flatMap WalRecord.text).length := by
  induction rs with
  | nil => exact Nat.le_refl _
  | cons r rs ih =>
      rw [List.flatMap_cons, List.length_append, List.length_cons, WalRecord.text, WalRecord.body]
      simp only [List.length_append, WalRecord.length_header]
      omega

/-- The scan of a log of whole records. -/
theorem scan_eq {rs : List WalRecord} (h : ∀ r ∈ rs, r.Fits) :
    scanLoop (rs.flatMap WalRecord.text).length 0 (rs.flatMap WalRecord.text) =
      rs.foldl laterSeq 0 := by
  obtain ⟨fuel, hfuel⟩ := Nat.exists_eq_add_of_le (length_le_flatMap_text rs)
  have hscan := scanLoop_flatMap h fuel 0 []
  rwa [List.append_nil, scanLoop_nil, ← hfuel] at hscan

/-- The counter is the largest sequence in the log. -/
theorem foldl_laterSeq {rs : List WalRecord} {top : UInt64} (hle : ∀ r ∈ rs, r.walSeq ≤ top)
    {last : UInt64} (hlast : last ≤ top) (hmem : last = top ∨ ∃ r ∈ rs, r.walSeq = top) :
    rs.foldl laterSeq last = top := by
  induction rs generalizing last with
  | nil =>
      rcases hmem with rfl | ⟨r, hr, -⟩
      · rfl
      · simp at hr
  | cons r rs ih =>
      rw [List.foldl_cons]
      have hr := hle r (by simp)
      refine ih (fun r' hr' => hle r' (List.mem_cons_of_mem _ hr')) ?_ ?_
      · unfold laterSeq
        split_ifs
        · exact hr
        · exact hlast
      · rcases hmem with rfl | ⟨r', hr', htop⟩
        · left
          exact if_neg (UInt64.not_lt.2 hr)
        · rcases List.mem_cons.1 hr' with rfl | hr'
          · left
            unfold laterSeq
            split_ifs with hlt
            · exact htop
            · exact UInt64.le_antisymm hlast (htop ▸ UInt64.not_lt.1 hlt)
          · exact .inr ⟨r', hr', htop⟩

/-! ## Runs without a crash -/

namespace WalRun

/-- The sequences that were returned. -/
def assigned (s : WalRun) : List UInt64 :=
  s.returned.map fun entry => entry.1

/-- Any operation but a crash; only assigned sequences are marked. -/
def Orderly (s : WalRun) : WalAction → Prop
  | .crash .. => False
  | .markApplied walSeq => walSeq ∈ s.assigned
  | .reopen | .append .. | .truncateApplied => True

/-- An opening finds the record of the last sequence in the log, payloads fit their record, and the
counter does not wrap around. -/
def Remembers (crc : Bytes → UInt32) (s : WalRun) : WalAction → Prop
  | .reopen => ∀ last ∈ s.assigned.getLast?, last ∈ (s.wal.readUnapplied 0).map WalRecord.walSeq
  | .append op tsMs payloadJson =>
      (s.wal.nextRecord crc op tsMs payloadJson).Fits ∧ s.wal.lastSeq.toNat + 1 < 2 ^ 64
  | .crash .. | .markApplied _ | .truncateApplied => True

instance (s : WalRun) : (a : WalAction) → Decidable (Orderly s a)
  | .crash .. => .isFalse id
  | .markApplied _ => inferInstanceAs (Decidable (_ ∈ _))
  | .reopen | .append .. | .truncateApplied => .isTrue trivial

instance (crc : Bytes → UInt32) (s : WalRun) : (a : WalAction) → Decidable (Remembers crc s a)
  | .reopen => Option.decidableForallMem _
  | .append .. => inferInstanceAs (Decidable (_ ∧ _))
  | .crash .. | .markApplied _ | .truncateApplied => .isTrue trivial

/-- The append gets a sequence beyond all earlier ones and beyond the applied one, and its record is
reported as not applied. -/
def Fresh (crc : Bytes → UInt32) (s : WalRun) (op : UInt8) (tsMs : UInt64) (payloadJson : Bytes) :
    Prop :=
  let (wal, seq) := s.wal.append crc op tsMs payloadJson
  (∀ earlier ∈ s.assigned, earlier < seq) ∧ s.wal.appliedSeq < seq ∧
    s.wal.nextRecord crc op tsMs payloadJson ∈ wal.readUnapplied wal.appliedSeq

/-- The log holds the records `rs` of the latest sequences, and those not applied are among them. -/
structure Holds (s : WalRun) (rs : List WalRecord) : Prop where
  log : s.wal.log = rs.flatMap WalRecord.text
  fits : ∀ r ∈ rs, r.Fits
  latest : rs.map WalRecord.walSeq <:+ s.assigned
  increasing : s.assigned.Pairwise (· < ·)
  positive : ∀ q ∈ s.assigned, 0 < q
  top : ∀ q ∈ s.assigned, q ≤ s.wal.lastSeq
  last : s.assigned.getLast?.getD 0 = s.wal.lastSeq
  applied : s.wal.appliedSeq ≤ s.wal.lastSeq
  marker : ofDecimal s.wal.applied = s.wal.appliedSeq.toNat
  unapplied : ∀ q ∈ s.assigned, q > s.wal.appliedSeq → q ∈ rs.map WalRecord.walSeq

namespace Holds

variable {crc : Bytes → UInt32} {s : WalRun} {rs : List WalRecord}

theorem records_eq (h : Holds s rs) : walFormat.records s.wal.log = rs := by
  rw [h.log]
  exact RecordFormat.records_encoded fun r hr => WalRecord.spells_text (h.fits r hr).length_lt

theorem clean (h : Holds s rs) : walFormat.Clean s.wal.log := by
  rw [h.log]
  exact RecordFormat.clean_encoded fun r hr => WalRecord.spells_text (h.fits r hr).length_lt

/-- The marker is read back as the applied sequence. -/
theorem open_appliedSeq (h : Holds s rs) : s.wal.open.appliedSeq = s.wal.appliedSeq := by
  simp only [WalFile.open, h.marker, UInt64.ofNat_toNat]

theorem readUnapplied_zero (h : Holds s rs) :
    (s.wal.readUnapplied 0).map WalRecord.walSeq = rs.map WalRecord.walSeq := by
  have hall : rs.filter (fun r => decide (r.walSeq > 0)) = rs := by
    rw [List.filter_eq_self]
    intro r hr
    exact decide_eq_true (h.positive _ (h.latest.subset (List.mem_map_of_mem hr)))
  rw [WalFile.readUnapplied, h.records_eq, hall]

theorem open_lastSeq (h : Holds s rs)
    (hlast : ∀ last ∈ s.assigned.getLast?, last ∈ (s.wal.readUnapplied 0).map WalRecord.walSeq) :
    s.wal.open.lastSeq = s.wal.lastSeq := by
  change scanLoop s.wal.log.length 0 s.wal.log = s.wal.lastSeq
  rw [h.log, scan_eq h.fits]
  have hle : ∀ r ∈ rs, r.walSeq ≤ s.wal.lastSeq := fun r hr =>
    h.top _ (h.latest.subset (List.mem_map_of_mem hr))
  refine foldl_laterSeq hle UInt64.zero_le ?_
  -- the last sequence is 0, or its record is in the log
  rcases hassigned : s.assigned.getLast? with _ | last
  · left
    have := h.last
    rwa [hassigned] at this
  · right
    have htop : last = s.wal.lastSeq := by
      have := h.last
      rwa [hassigned] at this
    have hmem := hlast last hassigned
    rw [h.readUnapplied_zero, htop] at hmem
    exact List.mem_map.1 hmem

theorem open_eq (h : Holds s rs)
    (hlast : ∀ last ∈ s.assigned.getLast?, last ∈ (s.wal.readUnapplied 0).map WalRecord.walSeq) :
    s.wal.open = s.wal := by
  have hcounter := h.open_lastSeq hlast
  have hmarker := h.open_appliedSeq
  rcases hwal : s.wal with ⟨log, applied, lastSeq, appliedSeq⟩
  rw [hwal] at hcounter hmarker
  simp only [WalFile.open, WalFile.mk.injEq, true_and] at hcounter hmarker ⊢
  exact ⟨hcounter, hmarker⟩

theorem append (h : Holds s rs) {op : UInt8} {tsMs : UInt64} {payloadJson : Bytes}
    (hremembers : Remembers crc s (.append op tsMs payloadJson)) :
    Holds { s with
      wal := (s.wal.append crc op tsMs payloadJson).1
      returned := s.returned ++ [((s.wal.append crc op tsMs payloadJson).2, op, payloadJson)] }
      (rs ++ [s.wal.nextRecord crc op tsMs payloadJson]) := by
  rcases hremembers with ⟨hfits, hcounter⟩
  have hlt := lt_add_one_of_fits hcounter
  have hassigned : assigned { s with
      wal := (s.wal.append crc op tsMs payloadJson).1
      returned := s.returned ++ [((s.wal.append crc op tsMs payloadJson).2, op, payloadJson)] } =
        s.assigned ++ [s.wal.lastSeq + 1] := by
    rw [assigned, List.map_append]
    rfl
  have hseqs : (rs ++ [s.wal.nextRecord crc op tsMs payloadJson]).map WalRecord.walSeq =
      rs.map WalRecord.walSeq ++ [s.wal.lastSeq + 1] := by
    rw [List.map_append]
    rfl
  refine
    { log := ?_, fits := ?_, latest := ?_, increasing := ?_, positive := ?_, top := ?_, last := ?_,
      applied := UInt64.le_trans h.applied (UInt64.le_of_lt hlt), marker := h.marker,
      unapplied := ?_ }
  · rw [List.flatMap_append, ← h.log]
    simp [WalFile.append]
  · rw [List.forall_mem_append]
    exact ⟨h.fits, by simpa using hfits⟩
  · rw [hassigned, hseqs]
    rcases h.latest with ⟨earlier, hearlier⟩
    exact ⟨earlier, by rw [← hearlier, List.append_assoc]⟩
  · rw [hassigned, List.pairwise_append]
    refine ⟨h.increasing, List.pairwise_singleton _ _, fun q hq q' hq' => ?_⟩
    rw [List.mem_singleton.1 hq']
    exact UInt64.lt_of_le_of_lt (h.top q hq) hlt
  · rw [hassigned, List.forall_mem_append]
    refine ⟨h.positive, ?_⟩
    simpa using UInt64.lt_of_le_of_lt UInt64.zero_le hlt
  · rw [hassigned, List.forall_mem_append]
    refine ⟨fun q hq => UInt64.le_trans (h.top q hq) (UInt64.le_of_lt hlt), ?_⟩
    simp [WalFile.append, WalFile.nextRecord]
  · rw [hassigned]
    simp [WalFile.append, WalFile.nextRecord]
  · rw [hassigned, hseqs]
    intro q hq hgt
    rcases List.mem_append.1 hq with hq | hq
    · exact List.mem_append_left _ (h.unapplied q hq hgt)
    · exact List.mem_append_right _ hq

theorem markApplied (h : Holds s rs) {walSeq : UInt64} (hassigned : walSeq ∈ s.assigned) :
    Holds { s with wal := s.wal.markApplied walSeq } rs := by
  unfold WalFile.markApplied
  split_ifs with hgt
  · exact
      { h with
        applied := h.top walSeq hassigned
        marker := ofDecimal_decimal _
        unapplied := fun q hq hq' => h.unapplied q hq (UInt64.lt_trans hgt hq') }
  · exact { h with }

/-- In an increasing list the entries beyond a bound come last. -/
theorem filter_gt_suffix {l : List UInt64} (h : l.Pairwise (· < ·)) (bound : UInt64) :
    l.filter (fun q => decide (q > bound)) <:+ l := by
  induction l with
  | nil => exact List.suffix_refl _
  | cons q l ih =>
      rcases List.pairwise_cons.1 h with ⟨hq, hl⟩
      by_cases hgt : q > bound
      · have hall : (q :: l).filter (fun q => decide (q > bound)) = q :: l := by
          rw [List.filter_eq_self]
          intro q' hq'
          rcases List.mem_cons.1 hq' with rfl | hq'
          · exact decide_eq_true hgt
          · exact decide_eq_true (UInt64.lt_trans hgt (hq q' hq'))
        simp only [hall, List.suffix_refl]
      · rw [List.filter_cons_of_neg (by simpa using hgt)]
        exact (ih hl).trans (List.suffix_cons q l)

theorem truncateApplied (h : Holds s rs) :
    Holds { s with wal := s.wal.truncateApplied }
      (rs.filter fun r => decide (r.walSeq > s.wal.appliedSeq)) := by
  have hseqs : (rs.filter fun r => decide (r.walSeq > s.wal.appliedSeq)).map WalRecord.walSeq =
      (rs.map WalRecord.walSeq).filter fun q => decide (q > s.wal.appliedSeq) := by
    rw [List.filter_map]
    rfl
  refine
    { h with
      log := ?_
      fits := fun r hr => h.fits r (List.mem_of_mem_filter hr)
      latest := ?_
      unapplied := ?_ }
  · rw [WalFile.truncateApplied, WalFile.readUnapplied, h.records_eq]
  · rw [hseqs]
    exact (filter_gt_suffix (h.increasing.sublist h.latest.sublist) _).trans h.latest
  · rw [hseqs]
    intro q hq hgt
    exact List.mem_filter.2 ⟨h.unapplied q hq hgt, decide_eq_true hgt⟩

theorem step (h : Holds s rs) {s' : WalRun} {a : WalAction} (horderly : Orderly s a)
    (hremembers : Remembers crc s a) (hstep : s.step crc a = some s') : ∃ rs', Holds s' rs' := by
  cases a with
  | reopen =>
      cases hstep
      rw [h.open_eq hremembers]
      exact ⟨rs, { h with }⟩
  | append op tsMs payloadJson =>
      simp only [WalRun.step] at hstep
      split_ifs at hstep with hrunning
      cases hstep
      exact ⟨_, h.append hremembers⟩
  | crash op tsMs payloadJson cut => exact horderly.elim
  | markApplied walSeq =>
      simp only [WalRun.step] at hstep
      split_ifs at hstep with hrunning
      cases hstep
      exact ⟨rs, h.markApplied horderly⟩
  | truncateApplied =>
      simp only [WalRun.step] at hstep
      split_ifs at hstep with hrunning
      cases hstep
      exact ⟨_, h.truncateApplied⟩

theorem init : Holds {} [] where
  log := rfl
  fits := by simp
  latest := List.suffix_refl _
  increasing := List.Pairwise.nil
  positive := by simp [assigned]
  top := by simp [assigned]
  last := rfl
  applied := UInt64.le_refl _
  marker := rfl
  unapplied := by simp [assigned]

theorem of_reach (h : Reach (WalRun.step crc) (fun s a => Orderly s a ∧ Remembers crc s a) {} s) :
    ∃ rs, Holds s rs :=
  Reach.invariant (P := fun s => ∃ rs, Holds s rs) ⟨[], init⟩
    (fun _ hs ha hstep => hs.elim fun _ hrs => hrs.step ha.1 ha.2 hstep) h

end Holds

variable {crc : Bytes → UInt32} {s : WalRun}

/-- Where the record of the last sequence is in the log at every opening, every append gets a fresh
sequence. -/
theorem fresh (crc : Bytes → UInt32) (s : WalRun) (op : UInt8) (tsMs : UInt64) (payloadJson : Bytes)
    (h : Reach (step crc) (fun s a => Orderly s a ∧ Remembers crc s a) {} s)
    (hremembers : Remembers crc s (.append op tsMs payloadJson)) :
    Fresh crc s op tsMs payloadJson := by
  rcases Holds.of_reach h with ⟨rs, hrs⟩
  have hlt := lt_add_one_of_fits hremembers.2
  have happlied : s.wal.appliedSeq < s.wal.lastSeq + 1 := UInt64.lt_of_le_of_lt hrs.applied hlt
  refine ⟨fun q hq => UInt64.lt_of_le_of_lt (hrs.top q hq) hlt, happlied, ?_⟩
  have hrecords : walFormat.records (s.wal.append crc op tsMs payloadJson).1.log =
      rs ++ [s.wal.nextRecord crc op tsMs payloadJson] := (hrs.append hremembers).records_eq
  refine List.mem_filter.2 ⟨?_, decide_eq_true happlied⟩
  change _ ∈ walFormat.records (s.wal.append crc op tsMs payloadJson).1.log
  rw [hrecords]
  exact List.mem_append_right _ (List.mem_singleton_self _)

/-- All is applied and truncated before the second opening, which still finds the last record. -/
def remembered : List WalAction :=
  [.reopen, .append 1 7 [0x61], .append 3 7 [0x62], .markApplied 1, .truncateApplied, .reopen,
    .markApplied 2]

theorem fresh_remembered :
    ∃ s, Library.run (step crc32) (fun s a => Orderly s a ∧ Remembers crc32 s a) {} remembered = some s ∧
      Fresh crc32 s 3 8 [0x63] := by
  have hrun : ∃ s, Library.run (step crc32) (fun s a => Orderly s a ∧ Remembers crc32 s a) {}
      remembered = some s ∧ Remembers crc32 s (.append 3 8 [0x63]) := by
    refine ⟨(Library.run (step crc32) (fun s a => Orderly s a ∧ Remembers crc32 s a) {}
      remembered).getD {}, ?_, ?_⟩ <;> decide +kernel
  rcases hrun with ⟨s, hrun, hremembers⟩
  exact ⟨s, hrun, fresh crc32 s 3 8 [0x63] (reach_of_run hrun) hremembers⟩

/-- Once everything is applied and truncated, an opening starts again at 0. -/
theorem sequence_reused :
    ¬ ∀ (crc : Bytes → UInt32) (s : WalRun), Reach (step crc) Orderly {} s →
      ∀ op tsMs payloadJson, Fresh crc s op tsMs payloadJson := by
  intro hall
  let forgotten : List WalAction :=
    [.reopen, .append 1 7 [0x61], .markApplied 1, .truncateApplied, .reopen]
  let last := (Library.run (step crc32) Orderly {} forgotten).getD {}
  have hrun : Library.run (step crc32) Orderly {} forgotten = some last := by decide +kernel
  have happlied : ¬last.wal.appliedSeq < (last.wal.append crc32 3 8 [0x62]).2 := by decide +kernel
  exact happlied (hall crc32 last (reach_of_run hrun) 3 8 [0x62]).2.1

/-- An opening that does not find the last record makes the next append repeat a sequence. -/
theorem stale (h : Reach (step crc) (fun s a => Orderly s a ∧ Remembers crc s a) {} s)
    (hforgets : ¬Remembers crc s .reopen) {s' : WalRun} (hopen : s.step crc .reopen = some s')
    (op : UInt8) (tsMs : UInt64) (payloadJson : Bytes) : ¬Fresh crc s' op tsMs payloadJson := by
  rcases Holds.of_reach h with ⟨rs, hrs⟩
  cases hopen
  rcases hlast : s.assigned.getLast? with _ | last
  · exact (hforgets (by simp [Remembers, hlast])).elim
  have hlost : last ∉ rs.map WalRecord.walSeq := by
    intro hmem
    refine hforgets fun last' hlast' => ?_
    rw [hlast] at hlast'
    rcases Option.some.inj hlast' with rfl
    rwa [hrs.readUnapplied_zero]
  have hassigned : last ∈ s.assigned := List.mem_of_getLast? hlast
  -- the latest sequences end with the last one, unless there are none
  have hnone : rs = [] := by
    rcases hrs.latest with ⟨earlier, hearlier⟩
    rcases List.eq_nil_or_concat' rs with hnil | ⟨rs', r, rfl⟩
    · exact hnil
    · rw [List.map_append, ← List.append_assoc] at hearlier
      rw [← hearlier] at hlast
      simp only [List.map_cons, List.map_nil, List.getLast?_append, List.getLast?_singleton,
        Option.some_or, Option.some.injEq] at hlast
      exact (hlost (by simp [← hlast])).elim
  have happlied : ¬last > s.wal.appliedSeq := by
    intro hgt
    have hmem := hrs.unapplied last hassigned hgt
    exact hlost hmem
  have hzero : s.wal.open.lastSeq = 0 := by
    change scanLoop s.wal.log.length 0 s.wal.log = 0
    rw [hrs.log, scan_eq hrs.fits, hnone]
    rfl
  rintro ⟨-, hbeyond, -⟩
  have hone : s.wal.open.appliedSeq < 1 := by
    have : s.wal.open.appliedSeq < s.wal.open.lastSeq + 1 := hbeyond
    rwa [hzero] at this
  have hpos := hrs.positive last hassigned
  rw [hrs.open_appliedSeq] at hone
  have hle := UInt64.not_lt.1 happlied
  rw [UInt64.lt_iff_toNat_lt] at hone hpos
  rw [UInt64.le_iff_toNat_le] at hle
  simp at hone hpos
  omega

/-! ## A torn record with a whole header -/

/-- Behind the records `rs` stands the beginning of a record numbered `q`, and the append that
followed has another number. -/
structure Hidden (rs : List WalRecord) (t : Bytes) (q : UInt64) (s : WalRun) : Prop where
  log : ∃ more, s.wal.log = rs.flatMap WalRecord.text ++ (t ++ more)
  returned : ∃ entry later, s.returned = rs.map WalRecord.info ++ entry :: later ∧ entry.1 ≠ q

theorem Hidden.step {rs : List WalRecord} {t : Bytes} {q : UInt64} {s s' : WalRun} {a : WalAction}
    (h : Hidden rs t q s) (happends : Appends a) (hstep : s.step crc a = some s') :
    Hidden rs t q s' := by
  rcases h with ⟨⟨more, hlog⟩, entry, later, hreturned, hentry⟩
  cases a with
  | reopen =>
      cases hstep
      exact ⟨⟨more, hlog⟩, entry, later, hreturned, hentry⟩
  | append op tsMs payloadJson =>
      simp only [WalRun.step] at hstep
      split_ifs at hstep with hrunning
      cases hstep
      exact ⟨⟨more ++ (s.wal.nextRecord crc op tsMs payloadJson).text,
        by simp only [WalFile.append, hlog, List.append_assoc]⟩, entry, _,
        by rw [hreturned, List.append_assoc, List.cons_append], hentry⟩
  | crash op tsMs payloadJson cut =>
      simp only [WalRun.step] at hstep
      split_ifs at hstep with hcut
      cases hstep
      exact ⟨⟨more ++ (s.wal.nextRecord crc op tsMs payloadJson).text.take cut,
        by simp only [hlog, List.append_assoc]⟩, entry, later, hreturned, hentry⟩
  | markApplied walSeq => exact happends.elim
  | truncateApplied => exact happends.elim

/-- What is read there has the number in that header. -/
theorem walSeq_of_read {torn r : WalRecord} {cut : Nat} {more rest : Bytes} (hfits : torn.Fits)
    (hcut : 21 ≤ cut) (hread : readRecord (torn.text.take cut ++ more) = some (r, rest)) :
    r.walSeq = torn.walSeq := by
  have htext : torn.text.take cut ++ more =
      torn.header ++ ((torn.payloadJson ++ writeBe32 torn.crc32).take (cut - 21) ++ more) := by
    rw [WalRecord.text_eq hfits.length_lt, List.take_append, List.take_of_length_le (by simpa using hcut),
      WalRecord.length_header, List.append_assoc]
  rw [htext, readRecord, readBytes_bind (WalRecord.length_header torn)] at hread
  rcases bind_eq_some_iff.1 hread with ⟨payload, _, -, hread⟩
  rcases bind_eq_some_iff.1 hread with ⟨crc, _, -, hread⟩
  rcases pure_eq_some_iff.1 hread with ⟨rfl, -⟩
  exact WalRecord.readBe64_header torn

theorem Hidden.not_recovered {rs : List WalRecord} {torn : WalRecord} {cut : Nat} {s : WalRun}
    (h : Hidden rs (torn.text.take cut) torn.walSeq s) (hfits : ∀ r ∈ rs, r.Fits)
    (hnumbered : ∀ r ∈ rs, r.walSeq > 0) (htorn : torn.Fits) (hpos : torn.walSeq > 0)
    (hcut : 21 ≤ cut) : ¬s.Recovered := by
  intro hrecovered
  rcases h with ⟨⟨more, hlog⟩, entry, later, hreturned, hentry⟩
  have hall : rs.filter (fun r => decide (r.walSeq > 0)) = rs := by
    rw [List.filter_eq_self]
    exact fun r hr => decide_eq_true (hnumbered r hr)
  have hspells : ∀ r ∈ rs, walFormat.Spells r.text r := fun r hr => WalRecord.spells_text (hfits r hr).length_lt
  -- behind the whole records the reader must find the append
  have hbehind : ((walFormat.records (torn.text.take cut ++ more)).filter
      fun r => decide (r.walSeq > 0)).map WalRecord.info = entry :: later := by
    unfold Recovered WalFile.readUnapplied at hrecovered
    rw [hlog, (RecordFormat.clean_encoded hspells).records_append,
      RecordFormat.records_encoded hspells, List.filter_append, hall, List.map_append,
      hreturned] at hrecovered
    exact List.append_cancel_left hrecovered
  rcases hread : walFormat.read (torn.text.take cut ++ more) with _ | ⟨r, rest⟩
  · simp [(RecordFormat.of_read_eq_none hread).1] at hbehind
  · have hseq := walSeq_of_read htorn hcut hread
    have hkept : decide (r.walSeq > 0) = true := decide_eq_true (hseq ▸ hpos)
    rw [(RecordFormat.of_read_eq_some hread).1,
      List.filter_cons_of_pos (p := fun r : WalRecord => decide (r.walSeq > 0)) hkept,
      List.map_cons] at hbehind
    have hinfo := (List.cons.inj hbehind).1
    exact hentry (by rw [← hinfo, ← hseq]; rfl)

/-- The scan counts a record whose header is whole. -/
theorem le_scan_torn {rs : List WalRecord} (hfits : ∀ r ∈ rs, r.Fits) {torn : WalRecord}
    (htorn : torn.Fits) {cut : Nat} (hcut : 21 ≤ cut) (hproper : cut < torn.text.length) :
    torn.walSeq ≤ scanLoop (rs.flatMap WalRecord.text ++ torn.text.take cut).length 0
      (rs.flatMap WalRecord.text ++ torn.text.take cut) := by
  have htext : torn.text.take cut =
      torn.header ++ (torn.payloadJson ++ writeBe32 torn.crc32).take (cut - 21) := by
    rw [WalRecord.text_eq htorn.length_lt, List.take_append, List.take_of_length_le (by simpa using hcut),
      WalRecord.length_header]
  have hlong : rs.length + 1 ≤ (rs.flatMap WalRecord.text ++ torn.text.take cut).length := by
    have hrs := length_le_flatMap_text rs
    rw [List.length_append, List.length_take_of_le (Nat.le_of_lt hproper)]
    omega
  obtain ⟨fuel, hfuel⟩ := Nat.exists_eq_add_of_le hlong
  have hskip : ((torn.payloadJson ++ writeBe32 torn.crc32).take (cut - 21)).drop
      (torn.plen + 4).toNat = [] := by
    refine List.drop_eq_nil_of_le ?_
    rw [WalRecord.toNat_plen_add htorn]
    exact List.length_take_le' _ _
  rw [hfuel, Nat.add_assoc, scanLoop_flatMap hfits, Nat.add_comm 1 fuel, htext]
  simp only [scanLoop, readBytes_append (WalRecord.length_header torn), WalRecord.readBe64_header,
    WalRecord.readBe32_header, hskip, scanLoop_nil]
  split_ifs with hlt
  · exact UInt64.le_refl _
  · exact UInt64.not_lt.1 hlt

/-- The counter never comes back to a positive sequence by one step. -/
theorem add_one_ne_of_le {q last : UInt64} (hpos : 0 < q) (hle : q ≤ last) : last + 1 ≠ q := by
  rintro rfl
  rw [UInt64.le_iff_toNat_le, UInt64.toNat_add] at hle
  rw [UInt64.lt_iff_toNat_lt, UInt64.toNat_add] at hpos
  have hlast := last.toNat_lt
  simp at hle hpos
  omega

/-- Once the header of a torn record is whole, an append behind it is never reported, whatever
follows. -/
theorem never_recovered {rs : List WalRecord} {s s₁ s₂ s₃ s' : WalRun} {op op' : UInt8}
    {tsMs tsMs' : UInt64} {payloadJson payloadJson' : Bytes} {cut : Nat}
    (hlog : s.wal.log = rs.flatMap WalRecord.text) (hreturned : s.returned = rs.map WalRecord.info)
    (hfits : ∀ r ∈ rs, r.Fits) (hnumbered : ∀ r ∈ rs, r.walSeq > 0)
    (hnext : Remembers crc s (.append op tsMs payloadJson)) (hcut : 21 ≤ cut)
    (hcrash : s.step crc (.crash op tsMs payloadJson cut) = some s₁)
    (hopen : s₁.step crc .reopen = some s₂)
    (happend : s₂.step crc (.append op' tsMs' payloadJson') = some s₃)
    (hlater : Reach (step crc) (fun _ a => Appends a) s₃ s') : ¬s'.Recovered := by
  let torn := s.wal.nextRecord crc op tsMs payloadJson
  have hpos : torn.walSeq > 0 :=
    UInt64.lt_of_le_of_lt UInt64.zero_le (lt_add_one_of_fits hnext.2)
  simp only [WalRun.step] at hcrash
  split_ifs at hcrash with hproper
  cases hcrash
  cases hopen
  simp only [WalRun.step, if_true] at happend
  cases happend
  have hscan := le_scan_torn hfits hnext.1 hcut hproper.2
  have hother : scanLoop (rs.flatMap WalRecord.text ++ torn.text.take cut).length 0
      (rs.flatMap WalRecord.text ++ torn.text.take cut) + 1 ≠ torn.walSeq :=
    add_one_ne_of_le hpos hscan
  let opened : WalFile := { s.wal with log := s.wal.log ++ torn.text.take cut }.open
  have hseq : (opened.append crc op' tsMs' payloadJson').2 ≠ torn.walSeq := by
    simpa [opened, WalFile.append, WalFile.nextRecord, WalFile.open, hlog] using hother
  have hhidden : Hidden rs (torn.text.take cut) torn.walSeq s' := by
    refine Reach.invariant
      ⟨⟨(opened.nextRecord crc op' tsMs' payloadJson').text, ?_⟩,
        ((opened.append crc op' tsMs' payloadJson').2, op', payloadJson'), [], ?_, hseq⟩
      (fun _ hs happends hstep => hs.step happends hstep) hlater
    · change s.wal.log ++ torn.text.take cut ++ (opened.nextRecord crc op' tsMs' payloadJson').text = _
      rw [hlog, List.append_assoc]
    · rw [← hreturned]
  exact hhidden.not_recovered hfits hnumbered hnext.1 hpos hcut

end WalRun
end ControlDB
