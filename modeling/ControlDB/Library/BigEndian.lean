import Mathlib

/-!
# Fixed-width big-endian numbers

Writing a number into `width` bytes, most significant byte first, and reading such bytes back.
-/

namespace ControlDB
namespace Library

/-- The low `width` bytes of `n`, filled in from the last one as a shifting loop does. -/
def toBigEndian : Nat → Nat → List UInt8
  | 0, _ => []
  | width + 1, n => toBigEndian width (n / 256) ++ [UInt8.ofNat n]

/-- One byte after another is shifted in. -/
def ofBigEndian (bs : List UInt8) : Nat :=
  bs.foldl (fun acc b => acc * 256 + b.toNat) 0

@[simp] theorem length_toBigEndian (width n : Nat) : (toBigEndian width n).length = width := by
  induction width generalizing n with
  | zero => rfl
  | succ width ih => simp [toBigEndian, ih]

theorem ofBigEndian_concat (bs : List UInt8) (b : UInt8) :
    ofBigEndian (bs ++ [b]) = ofBigEndian bs * 256 + b.toNat := by
  simp [ofBigEndian]

/-- What is read back is the number modulo the width. -/
theorem ofBigEndian_toBigEndian (width n : Nat) :
    ofBigEndian (toBigEndian width n) = n % 256 ^ width := by
  induction width generalizing n with
  | zero => simp [toBigEndian, ofBigEndian, Nat.mod_one]
  | succ width ih =>
      calc ofBigEndian (toBigEndian (width + 1) n)
          = (n / 256 % 256 ^ width) * 256 + n % 256 := by
            simp [toBigEndian, ofBigEndian_concat, ih]
        _ = n % 256 + 256 * (n / 256 % 256 ^ width) := by omega
        _ = n % 256 ^ (width + 1) := by rw [← Nat.mod_mul, Nat.pow_succ, Nat.mul_comm 256]

theorem ofBigEndian_toBigEndian_of_lt {width n : Nat} (h : n < 256 ^ width) :
    ofBigEndian (toBigEndian width n) = n := by
  simpa [Nat.mod_eq_of_lt h] using ofBigEndian_toBigEndian width n

theorem ofBigEndian_lt (bs : List UInt8) : ofBigEndian bs < 256 ^ bs.length := by
  induction bs using List.reverseRecOn with
  | nil => exact Nat.zero_lt_one
  | append_singleton bs b ih =>
      have hb : b.toNat < 256 := b.toNat_lt
      rw [ofBigEndian_concat, List.length_append, List.length_singleton, Nat.pow_succ]
      omega

/-- Writing a number that was read gives the bytes back. -/
theorem toBigEndian_ofBigEndian (bs : List UInt8) :
    toBigEndian bs.length (ofBigEndian bs) = bs := by
  induction bs using List.reverseRecOn with
  | nil => rfl
  | append_singleton bs b ih =>
      have hb : b.toNat < 256 := b.toNat_lt
      have hhigh : (ofBigEndian bs * 256 + b.toNat) / 256 = ofBigEndian bs := by omega
      have hlow : UInt8.ofNat (ofBigEndian bs * 256 + b.toNat) = b := by
        refine UInt8.toNat_inj.1 ?_
        rw [UInt8.toNat_ofNat']
        omega
      rw [ofBigEndian_concat, List.length_append, List.length_singleton, toBigEndian, hhigh, ih, hlow]

theorem toBigEndian_inj {width m n : Nat} (hm : m < 256 ^ width) (hn : n < 256 ^ width)
    (h : toBigEndian width m = toBigEndian width n) : m = n := by
  calc m = ofBigEndian (toBigEndian width m) := (ofBigEndian_toBigEndian_of_lt hm).symm
    _ = ofBigEndian (toBigEndian width n) := by rw [h]
    _ = n := ofBigEndian_toBigEndian_of_lt hn

/-- The last place decides between texts that agree before it. -/
theorem concat_lt_concat_iff {α : Type} [LT α] {a b : List α} {x y : α}
    (hlen : a.length = b.length) :
    a ++ [x] < b ++ [y] ↔ a < b ∨ a = b ∧ x < y := by
  induction a generalizing b with
  | nil =>
      rcases List.length_eq_zero_iff.1 hlen.symm with rfl
      simp [List.cons_lt_cons_iff]
  | cons d a ih =>
      cases b with
      | nil => simp at hlen
      | cons e b =>
          simp only [List.cons_append, List.cons_lt_cons_iff, ih (Nat.succ.inj hlen), List.cons.injEq]
          tauto

/-- The bytes compare as the numbers do. -/
theorem toBigEndian_lt_iff {width m n : Nat} (hm : m < 256 ^ width) (hn : n < 256 ^ width) :
    toBigEndian width m < toBigEndian width n ↔ m < n := by
  induction width generalizing m n with
  | zero => simp [toBigEndian, Nat.lt_one_iff.1 hm, Nat.lt_one_iff.1 hn]
  -- the last byte decides only where the bytes before it agree
  | succ width ih =>
      have hm' : m / 256 < 256 ^ width := by
        rw [Nat.pow_succ] at hm
        omega
      have hn' : n / 256 < 256 ^ width := by
        rw [Nat.pow_succ] at hn
        omega
      have hhigh : toBigEndian width (m / 256) = toBigEndian width (n / 256) ↔
          m / 256 = n / 256 := ⟨toBigEndian_inj hm' hn', fun h => by rw [h]⟩
      have hlow : UInt8.ofNat m < UInt8.ofNat n ↔ m % 256 < n % 256 := by
        rw [UInt8.lt_iff_toNat_lt, UInt8.toNat_ofNat', UInt8.toNat_ofNat']
      rw [toBigEndian, toBigEndian, concat_lt_concat_iff (by simp), ih hm' hn', hhigh, hlow]
      omega

end Library
end ControlDB
