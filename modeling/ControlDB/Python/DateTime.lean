import Mathlib

/-!
# `datetime` objects

The fields of a `datetime` and its text `isoformat()`.  An offset from UTC is a number of
microseconds, less than a day; a naive value has none.
-/

namespace ControlDB
namespace Python

structure DateTime where
  year : Nat
  month : Nat
  day : Nat
  hour : Nat
  minute : Nat
  second : Nat
  microsecond : Nat
  utcoffset : Option Int
  inRange : year < 10000 ∧ month < 100 ∧ day < 100 ∧ hour < 100 ∧ minute < 100 ∧ second < 100 ∧
    microsecond < 1000000 ∧ ∀ o ∈ utcoffset, o.natAbs < 86400000000
  deriving DecidableEq

namespace DateTime

/-- `value.replace(tzinfo=timezone.utc)` on a naive value; others stay as they are. -/
def attachUtc (t : DateTime) : DateTime :=
  match t.utcoffset with
  | some _ => t
  | none =>
      { t with
        utcoffset := some 0
        inRange := by
          have h := t.inRange
          refine ⟨h.1, h.2.1, h.2.2.1, h.2.2.2.1, h.2.2.2.2.1, h.2.2.2.2.2.1, h.2.2.2.2.2.2.1, ?_⟩
          simp }

/-- `value.replace(tzinfo=None)`. -/
def naive (t : DateTime) : DateTime :=
  { t with
    utcoffset := none
    inRange := by
      have h := t.inRange
      refine ⟨h.1, h.2.1, h.2.2.1, h.2.2.2.1, h.2.2.2.2.1, h.2.2.2.2.2.1, h.2.2.2.2.2.2.1, ?_⟩
      simp }

/-- A decimal of at least `w` digits. -/
def padded (w n : Nat) : List Char :=
  let digits := Nat.toDigits 10 n
  List.replicate (w - digits.length) '0' ++ digits

/-- `.ffffff`, if there are microseconds. -/
def fraction (us : Nat) : List Char :=
  if us = 0 then [] else '.' :: padded 6 us

/-- `+HH:MM[:SS[.ffffff]]`. -/
def offsetText (o : Int) : List Char :=
  let us := o.natAbs
  let sec := us / 1000000
  (if o < 0 then '-' else '+') :: padded 2 (sec / 3600) ++ ':' :: padded 2 (sec / 60 % 60) ++
    if us % 60000000 = 0 then [] else ':' :: padded 2 (sec % 60) ++ fraction (us % 1000000)

def isoformat (t : DateTime) : String :=
  String.ofList (padded 4 t.year ++ '-' :: padded 2 t.month ++ '-' :: padded 2 t.day ++
    'T' :: padded 2 t.hour ++ ':' :: padded 2 t.minute ++ ':' :: padded 2 t.second ++
    fraction t.microsecond ++
    match t.utcoffset with
    | some o => offsetText o
    | none => [])

/-- `str(value)`: a blank between the date and the time. -/
def str (t : DateTime) : String :=
  String.ofList (t.isoformat.toList.set 10 ' ')

/-- The order of `ORDER BY`: field by field. -/
def le (s t : DateTime) : Bool :=
  decide ([s.year, s.month, s.day, s.hour, s.minute, s.second, s.microsecond] ≤
    [t.year, t.month, t.day, t.hour, t.minute, t.second, t.microsecond])

/-! ## The text of a datetime -/

theorem padded_injective (w : Nat) : Function.Injective (padded w) := by
  intro a b h
  have hread := congrArg (fun digits => Nat.ofDigitChars 10 digits 0) h
  simpa [padded, Nat.ofDigitChars_append] using hread

theorem length_padded {w n : Nat} (hw : 0 < w) (hn : n < 10 ^ w) : (padded w n).length = w := by
  have hlength : (Nat.toDigits 10 n).length ≤ w :=
    (Nat.length_toDigits_le_iff (by decide) hw).2 hn
  simp only [padded, List.length_append, List.length_replicate]
  omega

/-- A field of fixed width is read off the front. -/
theorem padded_read {w a b : Nat} {x y : List Char} (hw : 0 < w) (ha : a < 10 ^ w)
    (hb : b < 10 ^ w) (h : padded w a ++ x = padded w b ++ y) : a = b ∧ x = y := by
  have hlength : (padded w a).length = (padded w b).length := by
    rw [length_padded hw ha, length_padded hw hb]
  rcases List.append_inj h hlength with ⟨hpadded, hrest⟩
  exact ⟨padded_injective w hpadded, hrest⟩

/-- A fraction ends where something other than a point follows. -/
theorem fraction_read {a b : Nat} {x y : List Char} (ha : a < 1000000) (hb : b < 1000000)
    (hx : ∀ rest, x ≠ '.' :: rest) (hy : ∀ rest, y ≠ '.' :: rest)
    (h : fraction a ++ x = fraction b ++ y) : a = b ∧ x = y := by
  unfold fraction at h
  split_ifs at h with hazero hbzero hbzero
  · exact ⟨hazero.trans hbzero.symm, h⟩
  · exact (hx _ h).elim
  · exact (hy _ h.symm).elim
  · exact padded_read (by decide) ha hb (List.cons.inj h).2

theorem offsetText_injOn {a b : Int} (ha : a.natAbs < 86400000000) (hb : b.natAbs < 86400000000)
    (h : offsetText a = offsetText b) : a = b := by
  unfold offsetText at h
  simp only [List.cons_append, List.append_assoc, List.cons.injEq] at h
  rcases h with ⟨hsign, h⟩
  rcases padded_read (by decide) (by omega) (by omega) h with ⟨hhours, h⟩
  rcases padded_read (by decide) (by omega) (by omega) (List.cons.inj h).2 with ⟨hminutes, h⟩
  -- the sign, then hours and minutes, then what is left
  have hsigns : a < 0 ↔ b < 0 := by
    split_ifs at hsign with ha' hb' hb'
    · exact iff_of_true ha' hb'
    · exact absurd hsign (by decide)
    · exact absurd hsign (by decide)
    · exact iff_of_false ha' hb'
  have hrest : a.natAbs % 60000000 = b.natAbs % 60000000 := by
    split_ifs at h with hazero hbzero
    · exact hazero.trans hbzero.symm
    · -- seconds, and what is left of them
      rcases padded_read (by decide) (by omega) (by omega) (List.cons.inj h).2 with ⟨hseconds, h⟩
      have hfraction := fraction_read (by omega) (by omega) (by simp) (by simp)
        (by simpa using h : fraction (a.natAbs % 1000000) ++ [] =
          fraction (b.natAbs % 1000000) ++ [])
      omega
  have habs : a.natAbs = b.natAbs := by omega
  rcases Int.natAbs_eq_natAbs_iff.1 habs with heq | hneg
  · exact heq
  · omega

/-- The text after the seconds ends with an offset or without one. -/
theorem zone_read {x y : Option Int} (hx : ∀ o ∈ x, o.natAbs < 86400000000)
    (hy : ∀ o ∈ y, o.natAbs < 86400000000)
    (h : x.elim [] offsetText = y.elim [] offsetText) : x = y := by
  have hnil : ∀ o, offsetText o ≠ [] := fun o => by simp [offsetText]
  cases x with
  | none =>
      cases y with
      | none => rfl
      | some o' => exact absurd h.symm (hnil o')
  | some o =>
      cases y with
      | none => exact absurd h (hnil o)
      | some o' => rw [offsetText_injOn (hx o rfl) (hy o' rfl) h]

theorem isoformat_injective : Function.Injective isoformat := by
  rintro ⟨y, mo, d, hour, mi, sec, us, off, hin⟩ ⟨y', mo', d', hour', mi', sec', us', off', hin'⟩ htexts
  rcases hin with ⟨hy, hmo, hd, hho, hmi, hsec, hus, ho⟩
  rcases hin' with ⟨hy', hmo', hd', hho', hmi', hsec', hus', ho'⟩
  have hzone : ∀ z : Option Int, (match z with
      | some o => offsetText o
      | none => []) = z.elim [] offsetText := by
    intro z
    cases z <;> rfl
  have hlists := congrArg String.toList htexts
  clear htexts
  simp only [isoformat, hzone, String.toList_ofList, List.append_assoc, List.cons_append] at hlists
  -- the fields have fixed widths, up to the microseconds
  rcases padded_read (by decide) hy hy' hlists with ⟨rfl, hmonth⟩
  rcases padded_read (by decide) hmo hmo' (List.cons.inj hmonth).2 with ⟨rfl, hday⟩
  rcases padded_read (by decide) hd hd' (List.cons.inj hday).2 with ⟨rfl, hhour⟩
  rcases padded_read (by decide) hho hho' (List.cons.inj hhour).2 with ⟨rfl, hminute⟩
  rcases padded_read (by decide) hmi hmi' (List.cons.inj hminute).2 with ⟨rfl, hsecond⟩
  rcases padded_read (by decide) hsec hsec' (List.cons.inj hsecond).2 with ⟨rfl, hfraction⟩
  have hsign : ∀ (z : Option Int) (rest : List Char), z.elim [] offsetText ≠ '.' :: rest := by
    intro z rest hpoint
    cases z with
    | none => cases hpoint
    | some n =>
        simp only [Option.elim_some, offsetText, List.cons_append, List.cons.injEq] at hpoint
        have hne : (if n < 0 then '-' else '+') ≠ '.' := by
          split_ifs
          · decide
          · decide
        exact hne hpoint.1
  rcases fraction_read hus hus' (hsign off) (hsign off') hfraction with ⟨rfl, hoffset⟩
  obtain rfl := zone_read ho ho' hoffset
  rfl

end DateTime

end Python
end ControlDB
