import ControlDB.Library.KeyOrder

/-!
# UTF-16

A text as code units, and the code points of a list of units, which need not be a text.  Units in
numeric order put two texts the other way round than their characters exactly if the texts straddle
the end of the Basic Multilingual Plane: a character above it begins with a surrogate, and some
characters below it come behind the surrogates.
-/

namespace ControlDB
namespace Library
namespace Utf16

instance instLinearOrderUInt16 : LinearOrder UInt16 where
  le_refl := UInt16.le_refl
  le_trans _ _ _ := UInt16.le_trans
  le_antisymm _ _ := UInt16.le_antisymm
  le_total := UInt16.le_total
  lt_iff_le_not_ge a b := by simp [UInt16.lt_iff_toNat_lt, UInt16.le_iff_toNat_le]; omega
  toDecidableLE := inferInstance
  toDecidableEq := inferInstance
  toDecidableLT := inferInstance

/-! ## Code units and code points -/

/-- The code units of a character, a surrogate pair above the Basic Multilingual Plane. -/
def encodeChar (c : Char) : List UInt16 :=
  if c.toNat < 0x10000 then [UInt16.ofNat c.toNat]
  else
    [UInt16.ofNat (0xd800 + (c.toNat - 0x10000) / 0x400),
      UInt16.ofNat (0xdc00 + (c.toNat - 0x10000) % 0x400)]

def encode (text : List Char) : List UInt16 :=
  text.flatMap encodeChar

/-- A character, or a surrogate that is not part of a pair. -/
inductive CodePoint
  | scalar (c : Char)
  | surrogate (u : UInt16)
  deriving DecidableEq

/-- The code point of a unit that is not part of a pair. -/
def single (u : UInt16) : CodePoint :=
  if 0xd800 ≤ u.toNat ∧ u.toNat < 0xe000 then .surrogate u else .scalar (Char.ofNat u.toNat)

/-- Two units are a surrogate pair. -/
def IsPair (u v : UInt16) : Prop :=
  (0xd800 ≤ u.toNat ∧ u.toNat < 0xdc00) ∧ 0xdc00 ≤ v.toNat ∧ v.toNat < 0xe000

instance (u v : UInt16) : Decidable (IsPair u v) :=
  inferInstanceAs (Decidable (_ ∧ _))

/-- The character of a surrogate pair. -/
def pairChar (u v : UInt16) : Char :=
  Char.ofNat (0x10000 + (u.toNat - 0xd800) * 0x400 + (v.toNat - 0xdc00))

/-- The code points of a list of units, read from the left. -/
def codePoints : List UInt16 → List CodePoint
  | [] => []
  | [u] => [single u]
  | u :: v :: rest =>
      if IsPair u v then .scalar (pairChar u v) :: codePoints rest
      else single u :: codePoints (v :: rest)

@[simp] theorem encode_nil : encode [] = [] := rfl

theorem encode_cons (c : Char) (text : List Char) :
    encode (c :: text) = encodeChar c ++ encode text := List.flatMap_cons

theorem encode_append (a b : List Char) : encode (a ++ b) = encode a ++ encode b :=
  List.flatMap_append

theorem toNat_cases (c : Char) : c.toNat < 0xd800 ∨ 0xdfff < c.toNat ∧ c.toNat < 0x110000 := by
  rcases c.valid with hlow | hhigh
  · exact .inl hlow
  · exact .inr hhigh

/-- The two forms of the code of a character. -/
theorem encodeChar_cases (c : Char) :
    (∃ u : UInt16, encodeChar c = [u] ∧ u.toNat = c.toNat ∧ c.toNat < 0x10000) ∨
      ∃ u v : UInt16, encodeChar c = [u, v] ∧ 0x10000 ≤ c.toNat ∧
        u.toNat = 0xd800 + (c.toNat - 0x10000) / 0x400 ∧
        v.toNat = 0xdc00 + (c.toNat - 0x10000) % 0x400 := by
  have hrange := toNat_cases c
  unfold encodeChar
  split_ifs with hplane
  · refine .inl ⟨_, rfl, ?_, hplane⟩
    rw [UInt16.toNat_ofNat', Nat.mod_eq_of_lt hplane]
  · refine .inr ⟨_, _, rfl, not_lt.1 hplane, ?_, ?_⟩
    · rw [UInt16.toNat_ofNat', Nat.mod_eq_of_lt (by omega)]
    · rw [UInt16.toNat_ofNat', Nat.mod_eq_of_lt (by omega)]

theorem codePoints_cons {u : UInt16} (hu : u.toNat < 0xd800 ∨ 0xe000 ≤ u.toNat)
    (rest : List UInt16) : codePoints (u :: rest) = single u :: codePoints rest := by
  cases rest with
  | nil => rfl
  | cons v rest =>
      have hpair : ¬ IsPair u v := fun h => by
        have hlead := h.1
        omega
      rw [codePoints, if_neg hpair]

/-- A character is read back. -/
theorem codePoints_encodeChar (c : Char) (rest : List UInt16) :
    codePoints (encodeChar c ++ rest) = .scalar c :: codePoints rest := by
  have hrange := toNat_cases c
  rcases encodeChar_cases c with ⟨u, hcode, hu, hplane⟩ | ⟨u, v, hcode, hplane, hu, hv⟩
  · rw [hcode, List.singleton_append, codePoints_cons (by omega), single, if_neg (by omega), hu,
      Char.ofNat_toNat]
  · have hpair : IsPair u v := by
      unfold IsPair
      omega
    have hchar : pairChar u v = c := by
      have hvalue : 0x10000 + (u.toNat - 0xd800) * 0x400 + (v.toNat - 0xdc00) = c.toNat := by omega
      rw [pairChar, hvalue, Char.ofNat_toNat]
    rw [hcode, List.cons_append, List.singleton_append, codePoints, if_pos hpair, hchar]

theorem codePoints_encode (text : List Char) : codePoints (encode text) = text.map .scalar := by
  induction text with
  | nil => rfl
  | cons c text ih => rw [encode_cons, codePoints_encodeChar, ih, List.map_cons]

theorem encode_injective : Function.Injective encode := by
  intro a b h
  have hpoints : a.map CodePoint.scalar = b.map CodePoint.scalar := by
    rw [← codePoints_encode, ← codePoints_encode, h]
  exact List.map_injective_iff.2 (fun _ _ => CodePoint.scalar.inj) hpoints

/-! ## Every list of units is made of code points -/

/-- The code units of a code point. -/
def CodePoint.units : CodePoint → List UInt16
  | .scalar c => encodeChar c
  | .surrogate u => [u]

/-- A code point as `codePoints` makes it: what stands alone as a surrogate is one. -/
def CodePoint.Valid : CodePoint → Prop
  | .scalar _ => True
  | .surrogate u => 0xd800 ≤ u.toNat ∧ u.toNat < 0xe000

theorem toNat_ofNat_of_valid {n : Nat} (h : n < 0xd800 ∨ 0xdfff < n ∧ n < 0x110000) :
    (Char.ofNat n).toNat = n := by
  have hvalid : n.isValidChar := h
  rw [Char.ofNat, dif_pos hvalid]
  rfl

theorem units_single (u : UInt16) : (single u).units = [u] := by
  have hu : u.toNat < 0x10000 := u.toNat_lt
  unfold single
  split_ifs with hsurrogate
  · rfl
  · have hvalue : (Char.ofNat u.toNat).toNat = u.toNat := toNat_ofNat_of_valid (by omega)
    rw [CodePoint.units, encodeChar, hvalue, if_pos hu, UInt16.ofNat_toNat]

theorem valid_single (u : UInt16) : (single u).Valid := by
  unfold single
  split_ifs with hsurrogate
  · exact hsurrogate
  · exact trivial

theorem units_pairChar {u v : UInt16} (h : IsPair u v) : encodeChar (pairChar u v) = [u, v] := by
  rcases h with ⟨⟨hu, hu'⟩, hv, hv'⟩
  have hvalue : (pairChar u v).toNat =
      0x10000 + (u.toNat - 0xd800) * 0x400 + (v.toNat - 0xdc00) := toNat_ofNat_of_valid (by omega)
  have hhigh : 0xd800 + ((pairChar u v).toNat - 0x10000) / 0x400 = u.toNat := by omega
  have hlow : 0xdc00 + ((pairChar u v).toNat - 0x10000) % 0x400 = v.toNat := by omega
  rw [encodeChar, if_neg (by omega), hhigh, hlow, UInt16.ofNat_toNat, UInt16.ofNat_toNat]

/-- The units are those of the code points. -/
theorem flatMap_units_codePoints (s : List UInt16) : (codePoints s).flatMap CodePoint.units = s := by
  fun_induction codePoints s with
  | case1 => rfl
  | case2 u => simp [units_single]
  | case3 u v rest hpair ih => simp [CodePoint.units, units_pairChar hpair, ih]
  | case4 u v rest hpair ih => simp [units_single, ih]

theorem codePoints_injective : Function.Injective codePoints :=
  Function.LeftInverse.injective flatMap_units_codePoints

theorem valid_of_mem_codePoints {s : List UInt16} {p : CodePoint} (hp : p ∈ codePoints s) :
    p.Valid := by
  fun_induction codePoints s with
  | case1 => cases hp
  | case2 u =>
      rw [List.mem_singleton.1 hp]
      exact valid_single u
  | case3 u v rest hpair ih =>
      rcases List.mem_cons.1 hp with rfl | hrest
      · exact trivial
      · exact ih hrest
  | case4 u v rest hpair ih =>
      rcases List.mem_cons.1 hp with rfl | hrest
      · exact valid_single u
      · exact ih hrest

/-! ## The order of the code units -/

/-- Where the texts part, the first has a character of the Basic Multilingual Plane behind the
surrogates, and the second a character above the plane. -/
def Straddle (a b : List Char) : Prop :=
  ∃ p c d x y, a = p ++ c :: x ∧ b = p ++ d :: y ∧
    0xe000 ≤ c.toNat ∧ c.toNat < 0x10000 ∧ 0x10000 ≤ d.toNat

/-- The place of a character in the order of code units. -/
def place (c : Char) : Nat :=
  if 0xe000 ≤ c.toNat ∧ c.toNat < 0x10000 then c.toNat + 0x110000 else c.toNat

theorem encodeChar_lt_iff {c d : Char} (hcd : c ≠ d) (x y : List UInt16) :
    encodeChar c ++ x < encodeChar d ++ y ↔ place c < place d := by
  have hne : c.toNat ≠ d.toNat := fun h => hcd (Char.toNat_inj.1 h)
  have hc := toNat_cases c
  have hd := toNat_cases d
  -- units are compared by their values
  have heq : ∀ {u v : UInt16}, u = v → u.toNat = v.toNat := congrArg _
  have hlt : ∀ u v : UInt16, u < v ↔ u.toNat < v.toNat := fun u v => UInt16.lt_iff_toNat_lt
  have hsame : ∀ u v : UInt16, u = v ↔ u.toNat = v.toNat := fun u v =>
    ⟨congrArg _, UInt16.toNat_inj.1⟩
  unfold place
  rcases encodeChar_cases c with ⟨u, hcode, hu, hplane⟩ | ⟨u, v, hcode, hplane, hu, hv⟩ <;>
    rcases encodeChar_cases d with ⟨u', hcode', hu', hplane'⟩ | ⟨u', v', hcode', hplane', hu', hv'⟩ <;>
    simp only [hcode, hcode', List.cons_append, List.nil_append, List.cons_lt_cons_iff, hlt, hsame,
      hu, hu'] <;>
    split_ifs <;> omega

theorem straddle_cons_self {c : Char} {a b : List Char} :
    Straddle (c :: a) (c :: b) ↔ Straddle a b := by
  constructor
  · rintro ⟨p, d, e, x, y, ha, hb, hd, hd', he⟩
    cases p with
    | nil =>
        -- both begin with the same character
        rw [List.nil_append] at ha hb
        have hde := (List.cons.inj ha).1.symm.trans (List.cons.inj hb).1
        rw [hde] at hd'
        omega
    | cons q p => exact ⟨p, d, e, x, y, (List.cons.inj ha).2, (List.cons.inj hb).2, hd, hd', he⟩
  · rintro ⟨p, d, e, x, y, rfl, rfl, hd, hd', he⟩
    exact ⟨c :: p, d, e, x, y, rfl, rfl, hd, hd', he⟩

theorem straddle_cons_of_ne {c d : Char} (hcd : c ≠ d) {a b : List Char} :
    Straddle (c :: a) (d :: b) ↔
      0xe000 ≤ c.toNat ∧ c.toNat < 0x10000 ∧ 0x10000 ≤ d.toNat := by
  constructor
  · rintro ⟨p, c', d', x, y, ha, hb, h⟩
    cases p with
    | nil =>
        rw [(List.cons.inj ha).1, (List.cons.inj hb).1]
        exact h
    | cons q p => exact (hcd ((List.cons.inj ha).1.trans (List.cons.inj hb).1.symm)).elim
  · intro h
    exact ⟨[], c, d, a, b, rfl, rfl, h⟩

theorem not_straddle_nil_left (b : List Char) : ¬ Straddle [] b := by
  rintro ⟨p, c, d, x, y, ha, _⟩
  simp at ha

theorem not_straddle_nil_right (a : List Char) : ¬ Straddle a [] := by
  rintro ⟨p, c, d, x, y, _, hb, _⟩
  simp at hb

/-- Code units order two texts like their characters exactly if the texts do not straddle. -/
theorem encode_lt_iff (a b : List Char) :
    (encode a < encode b ↔ a < b) ↔ ¬ Straddle a b ∧ ¬ Straddle b a := by
  have hnil : ∀ (c : Char) (a : List Char), ∃ u units, encode (c :: a) = u :: units := by
    intro c a
    rw [encode_cons]
    rcases encodeChar_cases c with ⟨u, hcode, _⟩ | ⟨u, v, hcode, _⟩ <;> rw [hcode]
    · exact ⟨u, encode a, rfl⟩
    · exact ⟨u, v :: encode a, rfl⟩
  induction a generalizing b with
  | nil =>
      have hnone := And.intro (not_straddle_nil_left b) (not_straddle_nil_right b)
      cases b with
      | nil => simp [hnone]
      | cons d b =>
          rcases hnil d b with ⟨u, units, hcode⟩
          simp [hnone, hcode]
  | cons c a ih =>
      cases b with
      | nil => simp [not_straddle_nil_left, not_straddle_nil_right]
      | cons d b =>
          by_cases hcd : c = d
          · subst hcd
            have hchars : c :: a < c :: b ↔ a < b := by simp
            rw [encode_cons, encode_cons, append_lt_append_iff, straddle_cons_self,
              straddle_cons_self, hchars]
            exact ih b
          · -- the first characters decide
            have hunits := encodeChar_lt_iff hcd (encode a) (encode b)
            have hchars : c :: a < d :: b ↔ c.toNat < d.toNat := by
              rw [List.cons_lt_cons_iff]
              simp only [hcd, false_and, or_false]
              rfl
            rw [encode_cons, encode_cons, hunits, hchars, straddle_cons_of_ne hcd,
              straddle_cons_of_ne (Ne.symm hcd)]
            have hne : c.toNat ≠ d.toNat := fun h => hcd (Char.toNat_inj.1 h)
            have hc := toNat_cases c
            have hd := toNat_cases d
            unfold place
            split_ifs <;> omega

end Utf16
end Library
end ControlDB
