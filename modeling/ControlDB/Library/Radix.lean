import ControlDB.Library.BigEndian

/-!
# Integers as bits and as digits

The bitwise operations of integers of any size, negative ones in two's complement, and the digits
of such an integer in a base, taken from the low end.
-/

namespace ControlDB
namespace Library

/-! ## Masks and shifts -/

/-- What a mask of a negative number leaves. -/
theorem ldiff_mask (k a : Nat) : Nat.ldiff (2 ^ k - 1) a = 2 ^ k - (a % 2 ^ k + 1) := by
  refine Nat.eq_of_testBit_eq fun i => ?_
  have hlt : a % 2 ^ k < 2 ^ k := Nat.mod_lt _ (Nat.two_pow_pos k)
  rw [Nat.testBit_ldiff, Nat.testBit_two_pow_sub_succ hlt, Nat.testBit_two_pow_sub_one,
    Nat.testBit_mod_two_pow]
  by_cases hi : i < k <;> simp [hi]

/-- The bits below `k` are the rest modulo `2 ^ k`, of negative numbers also. -/
theorem land_mask (x : Int) (k : Nat) : Int.land x ((2 ^ k - 1 : Nat) : Int) = x % 2 ^ k := by
  have hpos : 0 < 2 ^ k := Nat.two_pow_pos k
  cases x with
  | ofNat a =>
      calc Int.land (Int.ofNat a) ((2 ^ k - 1 : Nat) : Int)
          = ((a &&& (2 ^ k - 1) : Nat) : Int) := rfl
        _ = ((a % 2 ^ k : Nat) : Int) := by rw [Nat.and_two_pow_sub_one_eq_mod]
        _ = Int.ofNat a % 2 ^ k := by simp
  | negSucc a =>
      have hlt : a % 2 ^ k < 2 ^ k := Nat.mod_lt _ hpos
      calc Int.land (Int.negSucc a) ((2 ^ k - 1 : Nat) : Int)
          = ((Nat.ldiff (2 ^ k - 1) a : Nat) : Int) := rfl
        _ = ((2 ^ k - (a % 2 ^ k + 1) : Nat) : Int) := by rw [ldiff_mask]
        _ = 2 ^ k - 1 - (a : Int) % 2 ^ k := by
            rw [Nat.cast_sub hlt]
            push_cast
            ring
        _ = Int.negSucc a % 2 ^ k := by
            rw [Int.negSucc_emod a (by exact_mod_cast hpos)]

/-- Clearing the low bits of a block of ones. -/
theorem ldiff_block {k r : Nat} (a : Nat) (hr : r < 2 ^ k) :
    Nat.ldiff (2 ^ k * a + (2 ^ k - 1)) r = 2 ^ k * a + (2 ^ k - (r + 1)) := by
  have hones : 2 ^ k - 1 < 2 ^ k := Nat.sub_lt (Nat.two_pow_pos k) Nat.one_pos
  have hrest : 2 ^ k - (r + 1) < 2 ^ k := Nat.sub_lt (Nat.two_pow_pos k) (Nat.succ_pos r)
  refine Nat.eq_of_testBit_eq fun i => ?_
  rw [Nat.testBit_ldiff, Nat.testBit_two_pow_mul_add a hones, Nat.testBit_two_pow_mul_add a hrest,
    Nat.testBit_two_pow_sub_succ hr, Nat.testBit_two_pow_sub_one]
  by_cases hi : i < k
  · simp [hi]
  -- above the block the number `r` has no bits
  · have hbit : r.testBit i = false :=
      Nat.testBit_lt_two_pow (Nat.lt_of_lt_of_le hr (Nat.pow_le_pow_right (by decide) (Nat.le_of_not_lt hi)))
    simp [hi, hbit]

/-- Filling the bits that a shift has freed adds. -/
theorem lor_shiftLeft (x : Int) {k r : Nat} (hr : r < 2 ^ k) :
    Int.lor (x <<< k) (r : Int) = x * 2 ^ k + r := by
  rw [Int.shiftLeft_eq]
  cases x with
  | ofNat a =>
      calc Int.lor (Int.ofNat a * (2 ^ k : Nat)) (r : Int)
          = ((a * 2 ^ k ||| r : Nat) : Int) := rfl
        _ = ((a * 2 ^ k + r : Nat) : Int) := by
            rw [← Nat.shiftLeft_eq, Nat.shiftLeft_add_eq_or_of_lt hr]
        _ = Int.ofNat a * 2 ^ k + r := by simp
  | negSucc a =>
      have hpos : 0 < 2 ^ k := Nat.two_pow_pos k
      have hneg : Int.negSucc a * ((2 ^ k : Nat) : Int) = Int.negSucc (2 ^ k * a + (2 ^ k - 1)) := by
        rw [Int.negSucc_eq, Int.negSucc_eq]
        push_cast [Nat.cast_sub (Nat.one_le_two_pow (n := k))]
        ring
      calc Int.lor (Int.negSucc a * (2 ^ k : Nat)) (r : Int)
          = Int.lor (Int.negSucc (2 ^ k * a + (2 ^ k - 1))) (r : Int) := by rw [hneg]
        _ = Int.negSucc (Nat.ldiff (2 ^ k * a + (2 ^ k - 1)) r) := rfl
        _ = Int.negSucc (2 ^ k * a + (2 ^ k - (r + 1))) := by rw [ldiff_block a hr]
        _ = Int.negSucc a * 2 ^ k + r := by
            rw [Int.negSucc_eq, Int.negSucc_eq]
            push_cast [Nat.cast_sub (Nat.succ_le_of_lt hr)]
            ring

/-! ## Digits -/

/-- The low `width` digits of `v` in base `b`, lowest first. -/
def lowDigits (b : Int) : Nat → Int → List Int
  | 0, _ => []
  | width + 1, v => v % b :: lowDigits b width (v / b)

@[simp] theorem length_lowDigits (b : Int) (width : Nat) (v : Int) :
    (lowDigits b width v).length = width := by
  induction width generalizing v with
  | zero => rfl
  | succ width ih => simp [lowDigits, ih]

/-- The lowest digit and the digits above it make up the rest. -/
theorem emod_pow_succ {b : Int} (hb : 0 < b) (width : Nat) (v : Int) :
    v % b ^ (width + 1) = v % b + b * (v / b % b ^ width) := by
  have hdiv : v / (b * b ^ width) = v / b / b ^ width := (Int.ediv_ediv_of_nonneg (le_of_lt hb)).symm
  calc v % b ^ (width + 1)
      = v - b * b ^ width * (v / b / b ^ width) := by rw [pow_succ', Int.emod_def, hdiv]
    _ = v - b * (v / b) + b * (v / b - b ^ width * (v / b / b ^ width)) := by ring
    _ = v % b + b * (v / b % b ^ width) := by rw [Int.emod_def v b, Int.emod_def (v / b)]

/-- Of two numbers written with a lowest digit, the higher part decides first. -/
theorem add_mul_lt_iff {b d e x y : Int} (hd : d ∈ Set.Ico 0 b) (he : e ∈ Set.Ico 0 b) :
    d + b * x < e + b * y ↔ x < y ∨ x = y ∧ d < e := by
  have hb : 0 ≤ b := le_trans hd.1 (le_of_lt hd.2)
  constructor
  · intro h
    rcases lt_trichotomy x y with hxy | rfl | hxy
    · exact Or.inl hxy
    · exact Or.inr ⟨rfl, by linarith⟩
    · have hgap : b * (y + 1) ≤ b * x := mul_le_mul_of_nonneg_left hxy hb
      linarith [hd.1, he.2]
  · intro h
    rcases h with hxy | ⟨rfl, hde⟩
    · have hgap : b * (x + 1) ≤ b * y := mul_le_mul_of_nonneg_left hxy hb
      linarith [he.1, hd.2]
    · linarith

theorem add_mul_inj {b d e x y : Int} (hd : d ∈ Set.Ico 0 b) (he : e ∈ Set.Ico 0 b) :
    d + b * x = e + b * y ↔ d = e ∧ x = y := by
  constructor
  · intro h
    rcases lt_trichotomy x y with hxy | rfl | hxy
    · exact absurd h (ne_of_lt ((add_mul_lt_iff hd he).2 (Or.inl hxy)))
    · exact ⟨by linarith, rfl⟩
    · exact absurd h.symm (ne_of_lt ((add_mul_lt_iff he hd).2 (Or.inl hxy)))
  · intro h
    rw [h.1, h.2]

theorem emod_mem_Ico {b : Int} (hb : 0 < b) (v : Int) : v % b ∈ Set.Ico 0 b :=
  ⟨Int.emod_nonneg v (ne_of_gt hb), Int.emod_lt_of_pos v hb⟩

/-- Equal digits, through any alphabet without repetitions, mean equal rests. -/
theorem map_lowDigits_inj {α : Type} {b : Int} (hb : 0 < b) {f : Int → α}
    (hf : Set.InjOn f (Set.Ico 0 b)) (width : Nat) (v w : Int) :
    (lowDigits b width v).map f = (lowDigits b width w).map f ↔ v % b ^ width = w % b ^ width := by
  induction width generalizing v w with
  | zero => simp [lowDigits]
  | succ width ih =>
      have hv := emod_mem_Ico hb v
      have hw := emod_mem_Ico hb w
      calc (lowDigits b (width + 1) v).map f = (lowDigits b (width + 1) w).map f
          ↔ v % b = w % b ∧ v / b % b ^ width = w / b % b ^ width := by
            simp only [lowDigits, List.map_cons, List.cons.injEq, hf.eq_iff hv hw, ih]
        _ ↔ v % b ^ (width + 1) = w % b ^ (width + 1) := by
            rw [emod_pow_succ hb, emod_pow_succ hb, add_mul_inj hv hw]

/-- Digits, highest first, compare through a rising alphabet as the rests do. -/
theorem map_reverse_lowDigits_lt_iff {α : Type} [LinearOrder α] {b : Int} (hb : 0 < b) {f : Int → α}
    (hf : StrictMonoOn f (Set.Ico 0 b)) (width : Nat) (v w : Int) :
    ((lowDigits b width v).map f).reverse < ((lowDigits b width w).map f).reverse ↔
      v % b ^ width < w % b ^ width := by
  induction width generalizing v w with
  | zero => simp [lowDigits]
  -- the lowest digit stands last, and decides only where all the others agree
  | succ width ih =>
      have hv := emod_mem_Ico hb v
      have hw := emod_mem_Ico hb w
      calc ((lowDigits b (width + 1) v).map f).reverse < ((lowDigits b (width + 1) w).map f).reverse
          ↔ v / b % b ^ width < w / b % b ^ width ∨
              v / b % b ^ width = w / b % b ^ width ∧ v % b < w % b := by
            simp only [lowDigits, List.map_cons, List.reverse_cons]
            rw [concat_lt_concat_iff (by simp), ih, List.reverse_inj, map_lowDigits_inj hb hf.injOn,
              hf.lt_iff_lt hv hw]
        _ ↔ v % b ^ (width + 1) < w % b ^ (width + 1) := by
            rw [emod_pow_succ hb, emod_pow_succ hb, add_mul_lt_iff hv hw]

end Library
end ControlDB
