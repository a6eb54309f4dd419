import ControlDB.Core.HashChain

/-!
# Time stamps are determined by their ISO text

`msToIso` is injective on the values of an `int64_t`: `gmtime` loses nothing, each printed number
ends at a separator, and the buffer is just large enough for the earliest year.
-/

namespace ControlDB

open Library

/-- Day of year and year of era stay in their ranges for every day of an era. -/
theorem dayOfYear_bounds (doe : Int) {yoe : Int} (h0 : 0 ≤ doe) (h1 : doe < 146097)
    (hy : yoe = (doe - doe / 1460 + doe / 36524 - doe / 146096) / 365) :
    0 ≤ yoe ∧ yoe ≤ 399 ∧ 0 ≤ doe - (365 * yoe + yoe / 4 - yoe / 100) ∧
      doe - (365 * yoe + yoe / 4 - yoe / 100) ≤ 365 := by
  have hyoe : 0 ≤ yoe ∧ yoe ≤ 399 := by omega
  -- Fixing the century and the year of the four-year cycle makes the bounds linear.
  have hcentury : doe / 36524 = 0 ∨ doe / 36524 = 1 ∨ doe / 36524 = 2 ∨ doe / 36524 = 3 ∨
      doe / 36524 = 4 := by omega
  have hcycle : yoe - 4 * (doe / 1460) = -1 ∨ yoe - 4 * (doe / 1460) = 0 ∨
      yoe - 4 * (doe / 1460) = 1 ∨ yoe - 4 * (doe / 1460) = 2 ∨ yoe - 4 * (doe / 1460) = 3 := by
    omega
  refine ⟨hyoe.1, hyoe.2, ?_⟩
  rcases hcentury with hc | hc | hc | hc | hc <;>
    rcases hcycle with hk | hk | hk | hk | hk <;> omega

/-- The intermediate values of `gmtime`, with the facts that make them recoverable. -/
theorem gmtime_spec (sec : Int) :
    ∃ era yoe doy mp : Int,
      sec / 86400 + 719468 = era * 146097 + (doy + (365 * yoe + yoe / 4 - yoe / 100)) ∧
      0 ≤ yoe ∧ yoe ≤ 399 ∧ 0 ≤ doy ∧ doy ≤ 365 ∧ mp = (5 * doy + 2) / 153 ∧
      (gmtime sec).tmMon = (if mp < 10 then mp + 3 else mp - 9) - 1 ∧
      (gmtime sec).tmYear = yoe + era * 400 + (if mp < 10 then 0 else 1) - 1900 ∧
      (gmtime sec).tmMday = doy - (153 * mp + 2) / 5 + 1 ∧
      (gmtime sec).tmHour = sec % 86400 / 3600 ∧
      (gmtime sec).tmMin = sec % 3600 / 60 ∧ (gmtime sec).tmSec = sec % 60 := by
  have hdoe := dayOfYear_bounds ((sec / 86400 + 719468) % 146097)
    (Int.emod_nonneg _ (by decide)) (Int.emod_lt_of_pos _ (by decide)) rfl
  rcases hdoe with ⟨hy0, hy1, hd0, hd1⟩
  refine ⟨(sec / 86400 + 719468) / 146097, _, _, _, ?_, hy0, hy1, hd0, hd1, rfl, rfl, ?_, rfl, rfl,
    rfl, rfl⟩
  · omega
  · -- the year starts in March: January and February belong to the next calendar year
    simp only [gmtime]
    split_ifs <;> omega

theorem gmtime_injective : Function.Injective gmtime := by
  intro s t h
  rcases gmtime_spec s with ⟨e, y, d, m, hz, hy0, hy1, hd0, hd1, hm, hmon, hyear, hmday, hh, hmi, hs⟩
  rcases gmtime_spec t with
    ⟨e', y', d', m', hz', hy0', hy1', hd0', hd1', hm', hmon', hyear', hmday', hh', hmi', hs'⟩
  rw [h] at hmon hyear hmday hh hmi hs
  -- the month is determined, and with it whether the year was carried over
  have hmp : m = m' := by
    have := hmon.symm.trans hmon'
    split_ifs at this <;> omega
  have hye : e = e' ∧ y = y' := by
    have := hyear.symm.trans hyear'
    rw [hmp] at this
    split_ifs at this <;> omega
  -- the day of the era follows from year, month and day of the month
  have hday : s / 86400 = t / 86400 := by
    have hdoy : d = d' := by omega
    rcases hye with ⟨rfl, rfl⟩
    omega
  omega

/-- Milliseconds from 1970-01-01 to the end of year 9999. -/
def InIsoRange (ms : Int) : Prop :=
  0 ≤ ms ∧ ms < 253402300800000

instance (ms : Int) : Decidable (InIsoRange ms) :=
  inferInstanceAs (Decidable (_ ∧ _))

/-- The values of an `int64_t`. -/
def IsInt64 (v : Int) : Prop :=
  -2 ^ 63 ≤ v ∧ v < 2 ^ 63

instance (v : Int) : Decidable (IsInt64 v) :=
  inferInstanceAs (Decidable (_ ∧ _))

theorem InIsoRange.isInt64 {ms : Int} (h : InIsoRange ms) : IsInt64 ms := by
  rcases h with ⟨h0, h1⟩
  constructor <;> omega

/-- The members of `struct tm` as `ms_to_iso` prints them. -/
theorem gmtime_widths {sec : Int} (h0 : -9223372036854777 < sec) (h1 : sec < 9223372036854777) :
    (gmtime sec).tmYear.natAbs + 1900 < 10 ^ 9 ∧
      (0 ≤ (gmtime sec).tmMon + 1 ∧ (gmtime sec).tmMon + 1 < 100) ∧
      (0 ≤ (gmtime sec).tmMday ∧ (gmtime sec).tmMday < 100) ∧
      (0 ≤ (gmtime sec).tmHour ∧ (gmtime sec).tmHour < 100) ∧
      (0 ≤ (gmtime sec).tmMin ∧ (gmtime sec).tmMin < 100) ∧
      (0 ≤ (gmtime sec).tmSec ∧ (gmtime sec).tmSec < 100) := by
  rcases gmtime_spec sec with ⟨e, y, d, m, hz, hy0, hy1, hd0, hd1, hm, hmon, hyear, hmday, hh, hmi, hs⟩
  -- the era is bounded because the seconds come from an `int64_t` of milliseconds
  have hera : -731000 ≤ e ∧ e ≤ 731000 := by omega
  refine ⟨?_, ?_, ?_, ?_, ?_, ?_⟩
  · rw [hyear]
    split_ifs <;> omega
  · rw [hmon]
    split_ifs <;> omega
  · omega
  · omega
  · omega
  · omega

/-- A printed number is determined by the text up to a separator that is no digit. -/
theorem padded_append_inj {w : Nat} {u v : Int} {sep : UInt8} {x y : Bytes}
    (hsep : ¬ (0x30 ≤ sep ∧ sep ≤ 0x39))
    (h : padded w u ++ ([sep] ++ x) = padded w v ++ ([sep] ++ y)) : u = v ∧ x = y := by
  -- digits never begin with a minus sign
  have hsign : ∀ {n : Nat} {x y : Bytes}, zeroPadded w n ++ x ≠ 0x2d :: y := by
    intro n x y hsame
    have hne : zeroPadded w n ≠ [] := by simp [zeroPadded, decimal_ne_nil]
    rcases List.exists_cons_of_ne_nil hne with ⟨d, rest, hd⟩
    have hdigit := isDigit_of_mem_zeroPadded (hd ▸ List.mem_cons_self : d ∈ zeroPadded w n)
    rw [hd] at hsame
    rw [(List.cons.inj hsame).1] at hdigit
    exact absurd hdigit (by decide)
  unfold padded at h
  split_ifs at h with hu hv hv
  · rcases digits_append_inj (fun d => isDigit_of_mem_zeroPadded)
      (fun d => isDigit_of_mem_zeroPadded) hsep (List.cons.inj h).2 with ⟨hdigits, hrest⟩
    have habs := zeroPadded_injective _ hdigits
    exact ⟨by omega, hrest⟩
  · exact absurd h.symm hsign
  · exact absurd h hsign
  · rcases digits_append_inj (fun d => isDigit_of_mem_zeroPadded)
      (fun d => isDigit_of_mem_zeroPadded) hsep h with ⟨hdigits, hrest⟩
    have hnat := zeroPadded_injective _ hdigits
    exact ⟨by omega, hrest⟩

/-- With its sign a number of at most `k` digits takes one more character. -/
theorem length_padded_le {w k : Nat} {v : Int} (hk : 0 < k) (hwk : w ≤ k) (hv : v.natAbs < 10 ^ k) :
    (padded w v).length ≤ k + 1 := by
  unfold padded
  split_ifs with hneg
  · exact Nat.succ_le_succ (length_zeroPadded_le hk ((Nat.sub_le w 1).trans hwk) hv)
  · have hnat : v.toNat < 10 ^ k := by omega
    exact (length_zeroPadded_le hk hwk hnat).trans (Nat.le_succ k)

theorem length_padded_two {v : Int} (hv : 0 ≤ v ∧ v < 100) : (padded 2 v).length ≤ 2 := by
  have hnat : v.toNat < 10 ^ 2 := by omega
  simpa [padded, not_lt.2 hv.1] using length_zeroPadded_le (by decide) le_rfl hnat

/-- The untruncated text of `msToIso`, nested to the right. -/
def isoText (t : Tm) (millis : Int) : Bytes :=
  padded 4 (t.tmYear + 1900) ++ (bytes "-" ++ (padded 2 (t.tmMon + 1) ++ (bytes "-" ++
    (padded 2 t.tmMday ++ (bytes "T" ++ (padded 2 t.tmHour ++ (bytes ":" ++ (padded 2 t.tmMin ++
      (bytes ":" ++ (padded 2 t.tmSec ++ (bytes "." ++ (padded 3 millis ++
        (bytes "Z" ++ [])))))))))))))

/-- The text has at most 31 characters, so the buffer holds all of it. -/
theorem msToIso_eq {ms : Int} (hms : IsInt64 ms) :
    msToIso ms = isoText (gmtime (ms.tdiv 1000)) (ms.tmod 1000) := by
  rcases hms with ⟨h0, h1⟩
  have hparts := Int.mul_tdiv_add_tmod ms 1000
  have hlow : -1000 < ms.tmod 1000 := Int.lt_tmod_of_pos ms (by decide)
  have hhigh : ms.tmod 1000 < 1000 := Int.tmod_lt_of_pos ms (by decide)
  have hsec : -9223372036854777 < ms.tdiv 1000 ∧ ms.tdiv 1000 < 9223372036854777 := by omega
  rcases gmtime_widths hsec.1 hsec.2 with ⟨hY, hM, hD, hh, hm, hs⟩
  -- the longest fields are the year and the milliseconds
  have hyear : (padded 4 ((gmtime (ms.tdiv 1000)).tmYear + 1900)).length ≤ 10 :=
    length_padded_le (by decide) (by decide) (by omega)
  have hmillis : (padded 3 (ms.tmod 1000)).length ≤ 4 :=
    length_padded_le (by decide) (by decide) (by omega)
  have hM' := length_padded_two hM
  have hD' := length_padded_two hD
  have hh' := length_padded_two hh
  have hm' := length_padded_two hm
  have hs' := length_padded_two hs
  unfold msToIso
  -- so nothing is cut off by the size of the buffer
  rw [List.take_of_length_le]
  · simp [isoText, List.append_assoc]
  · simp only [List.length_append]
    have hone : (bytes "-").length = 1 ∧ (bytes "T").length = 1 ∧ (bytes ":").length = 1 ∧
        (bytes ".").length = 1 ∧ (bytes "Z").length = 1 := by decide
    omega

theorem msToIso_injOn : Set.InjOn msToIso {ms | IsInt64 ms} := by
  intro a ha b hb h
  rw [msToIso_eq ha, msToIso_eq hb] at h
  rcases padded_append_inj (by decide) h with ⟨hyear, h⟩
  rcases padded_append_inj (by decide) h with ⟨hmon, h⟩
  rcases padded_append_inj (by decide) h with ⟨hmday, h⟩
  rcases padded_append_inj (by decide) h with ⟨hhour, h⟩
  rcases padded_append_inj (by decide) h with ⟨hmin, h⟩
  rcases padded_append_inj (by decide) h with ⟨hsec, h⟩
  have hmillis := (padded_append_inj (by decide) h).1
  -- all fields agree, so the times do
  have htm : gmtime (a.tdiv 1000) = gmtime (b.tdiv 1000) := by
    rcases ha : gmtime (a.tdiv 1000) with ⟨y, mo, d, hr, mi, s⟩
    rcases hb : gmtime (b.tdiv 1000) with ⟨y', mo', d', hr', mi', s'⟩
    simp only [ha, hb] at hyear hmon hmday hhour hmin hsec
    simp only [Tm.mk.injEq]
    omega
  calc a = 1000 * a.tdiv 1000 + a.tmod 1000 := (Int.mul_tdiv_add_tmod a 1000).symm
    _ = 1000 * b.tdiv 1000 + b.tmod 1000 := by rw [gmtime_injective htm, hmillis]
    _ = b := Int.mul_tdiv_add_tmod b 1000

end ControlDB
