import Mathlib

/-!
# Decimal numerals as bytes

Printing a natural number in base ten, with or without zero padding, and reading it back.  The
digits are those of core's `Nat.toDigits`.
-/

namespace ControlDB
namespace Library

/-- The decimal digits of `n`, most significant first. -/
def decimal (n : Nat) : List UInt8 :=
  (Nat.toDigits 10 n).map fun c => UInt8.ofNat c.toNat

/-- The digits of `n`, padded with zeros on the left to at least `w` of them. -/
def zeroPadded (w n : Nat) : List UInt8 :=
  List.replicate (w - (decimal n).length) 0x30 ++ decimal n

/-- The value of a sequence of digits. -/
def ofDecimal (l : List UInt8) : Nat :=
  l.foldl (fun n d => 10 * n + (d.toNat - 48)) 0

/-- Fewer digits spell a smaller number. -/
theorem ofDecimal_take_le (l : List UInt8) (k : Nat) : ofDecimal (l.take k) ≤ ofDecimal l := by
  have hmono : ∀ (l : List UInt8) (init : Nat),
      init ≤ l.foldl (fun n d => 10 * n + (d.toNat - 48)) init := by
    intro l
    induction l with
    | nil => exact fun _ => Nat.le_refl _
    | cons d l ih => exact fun init => Nat.le_trans (by omega) (ih (10 * init + (d.toNat - 48)))
  calc ofDecimal (l.take k)
      ≤ (l.drop k).foldl (fun n d => 10 * n + (d.toNat - 48)) (ofDecimal (l.take k)) := hmono _ _
    _ = ofDecimal (l.take k ++ l.drop k) := List.foldl_append.symm
    _ = ofDecimal l := by rw [List.take_append_drop]

theorem isDigit_of_mem_decimal {n : Nat} {d : UInt8} (hd : d ∈ decimal n) :
    0x30 ≤ d ∧ d ≤ 0x39 := by
  rcases List.mem_map.1 hd with ⟨c, hc, rfl⟩
  have hdigit := Nat.isDigit_of_mem_toDigits (by decide) (by decide) hc
  simp only [Char.isDigit, ge_iff_le, Bool.and_eq_true, decide_eq_true_eq] at hdigit
  have hlo : 48 ≤ c.toNat := hdigit.1
  have hhi : c.toNat ≤ 57 := hdigit.2
  constructor <;> simp [UInt8.le_iff_toNat_le] <;> omega

theorem decimal_ne_nil (n : Nat) : decimal n ≠ [] := by
  simp [decimal, Nat.toDigits_ne_nil]

/-- Reading the characters of `Nat.toDigits` as bytes does not change their value. -/
theorem foldl_ofDigitChars (cs : List Char) (hcs : ∀ c ∈ cs, c.toNat < 256) (init : Nat) :
    (cs.map fun c => UInt8.ofNat c.toNat).foldl (fun n d => 10 * n + (d.toNat - 48)) init =
      Nat.ofDigitChars 10 cs init := by
  induction cs generalizing init with
  | nil => simp
  | cons c cs ih =>
      have hc : (UInt8.ofNat c.toNat).toNat = c.toNat := by
        have := hcs c (by simp)
        simp [Nat.mod_eq_of_lt this]
      have htail := ih (fun d hd => hcs d (List.mem_cons_of_mem _ hd))
      simp [Nat.ofDigitChars_cons, htail, hc]

@[simp] theorem ofDecimal_decimal (n : Nat) : ofDecimal (decimal n) = n := by
  have hsmall : ∀ c ∈ Nat.toDigits 10 n, c.toNat < 256 := by
    intro c hc
    have hdigit := Nat.isDigit_of_mem_toDigits (by decide) (by decide) hc
    simp only [Char.isDigit, ge_iff_le, Bool.and_eq_true, decide_eq_true_eq] at hdigit
    have hhi : c.toNat ≤ 57 := hdigit.2
    omega
  simpa [ofDecimal, decimal] using foldl_ofDigitChars _ hsmall 0

theorem decimal_injective : Function.Injective decimal :=
  Function.LeftInverse.injective ofDecimal_decimal

@[simp] theorem ofDecimal_zeroPadded (w n : Nat) : ofDecimal (zeroPadded w n) = n := by
  have hzeros : ∀ k : Nat,
      (List.replicate k (0x30 : UInt8)).foldl (fun n d => 10 * n + (d.toNat - 48)) 0 = 0 := by
    intro k
    induction k with
    | zero => rfl
    | succ k ih => simpa [List.replicate_succ] using ih
  have h := ofDecimal_decimal n
  unfold ofDecimal at h
  simp [ofDecimal, zeroPadded, List.foldl_append, hzeros, h]

theorem zeroPadded_injective (w : Nat) : Function.Injective (zeroPadded w) :=
  Function.LeftInverse.injective (ofDecimal_zeroPadded w)

theorem isDigit_of_mem_zeroPadded {w n : Nat} {d : UInt8} (hd : d ∈ zeroPadded w n) :
    0x30 ≤ d ∧ d ≤ 0x39 := by
  rcases List.mem_append.1 hd with hzero | hdigit
  · rcases List.eq_of_mem_replicate hzero with rfl
    decide
  · exact isDigit_of_mem_decimal hdigit

theorem length_zeroPadded_le {w n k : Nat} (hk : 0 < k) (hwk : w ≤ k) (hn : n < 10 ^ k) :
    (zeroPadded w n).length ≤ k := by
  have hlen : (decimal n).length ≤ k := by
    simpa [decimal] using (Nat.length_toDigits_le_iff (by decide) hk).2 hn
  simp [zeroPadded]
  omega

/-- Where digits end and something else follows, they are determined. -/
theorem digits_append_inj {a b x y : List UInt8} {sep : UInt8}
    (ha : ∀ d ∈ a, 0x30 ≤ d ∧ d ≤ 0x39) (hb : ∀ d ∈ b, 0x30 ≤ d ∧ d ≤ 0x39)
    (hsep : ¬ (0x30 ≤ sep ∧ sep ≤ 0x39)) (h : a ++ sep :: x = b ++ sep :: y) :
    a = b ∧ x = y := by
  have hcut : ∀ {a x : List UInt8}, (∀ d ∈ a, 0x30 ≤ d ∧ d ≤ 0x39) →
      (a ++ sep :: x).takeWhile (fun d => decide (0x30 ≤ d ∧ d ≤ 0x39)) = a := by
    intro a x ha
    rw [List.takeWhile_append_of_pos fun d hd => decide_eq_true (ha d hd),
      List.takeWhile_cons_of_neg (by simpa using hsep), List.append_nil]
  have hab : a = b := by rw [← hcut (x := x) ha, h, hcut hb]
  subst hab
  simpa using h

end Library
end ControlDB
