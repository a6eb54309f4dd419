import ControlDB.Python.Ids

/-!
# ULIDs of the TypeScript SDK

`ulid` mirrors the `_ulid` of the Python SDK, but masks the clock with a bitwise operator on
numbers, which works on signed integers of 32 bits.
-/

namespace ControlDB
namespace TypeScript

open Library Python

/-- `ALPHABET` of `ids.ts`. -/
def ulidAlphabet : List Char := "0123456789ABCDEFGHJKMNPQRSTVWXYZ".toList

/-- `&` on two numbers. -/
def numberAnd (x y : Int) : Int := (BitVec.ofInt 32 x &&& BitVec.ofInt 32 y).toInt

/-- The random bytes as a BigInt. -/
def randBig (rand : List UInt8) : Int :=
  rand.foldl (fun randBig byte => Int.lor (randBig <<< (8 : Nat)) (byte.toNat : Int)) 0

/-- `ulid` of `ids.ts`.  BigInts are masked and shifted as the integers of Python, so the loop is
the same. -/
def ulid (now : Int) (rand : List UInt8) : String :=
  let ms := numberAnd now 0xffffffffffff
  let value := Int.lor (ms <<< (80 : Nat)) (randBig rand)
  String.ofList (ulidChars ulidAlphabet 26 value).reverse

/-! ## The clock in 32 bits -/

/-- A mask with 32 or more bits set does nothing after the conversion. -/
theorem numberAnd_mask (now : Int) : numberAnd now 0xffffffffffff = now.bmod (2 ^ 32) := by
  have hmask : BitVec.ofInt 32 0xffffffffffff = BitVec.allOnes 32 := by decide
  rw [numberAnd, hmask, BitVec.and_allOnes, BitVec.toInt_ofInt]

theorem randBig_eq (rand : List UInt8) : randBig rand = ofBigEndian rand := by
  induction rand using List.reverseRecOn with
  | nil => rfl
  | append_singleton rand byte ih =>
      have hbyte : byte.toNat < 2 ^ 8 := byte.toNat_lt
      calc randBig (rand ++ [byte])
          = Int.lor (randBig rand <<< (8 : Nat)) (byte.toNat : Int) := by simp [randBig]
        _ = ofBigEndian rand * 2 ^ 8 + byte.toNat := by rw [ih, lor_shiftLeft _ hbyte]
        _ = ofBigEndian (rand ++ [byte]) := by
            rw [ofBigEndian_concat]
            push_cast
            norm_num

theorem ulid_eq (now : Int) {rand : List UInt8} (hrand : rand.length = 10) :
    ulid now rand = String.ofList
      (ulidChars ulidAlphabet 26 (now.bmod (2 ^ 32) * 2 ^ 80 + ofBigEndian rand)).reverse := by
  have hlt : ofBigEndian rand < 2 ^ 80 := by
    have := ofBigEndian_lt rand
    rwa [hrand] at this
  simp only [ulid, numberAnd_mask, randBig_eq, lor_shiftLeft _ hlt]

/-- The two SDKs agree as long as the clock fits 31 bits, which it last did in January 1970. -/
theorem ulid_eq_python_iff {m : Nat} (hm : m < 2 ^ 48) {rand : List UInt8}
    (hrand : rand.length = 10) : ulid m rand = Sdk.ulid m rand ↔ m < 2 ^ 31 := by
  have hf := (strictMonoOn_getD ulidAlphabet_rising.1 ulidAlphabet_rising.2).injOn
  have hlt : ofBigEndian rand < 2 ^ 80 := by
    have := ofBigEndian_lt rand
    rwa [hrand] at this
  have hbmod : ((m : Int).bmod (2 ^ 32) = m ∧ m < 2 ^ 31) ∨
      ((m : Int).bmod (2 ^ 32) < 2 ^ 31 ∧ -(2 ^ 31) ≤ (m : Int).bmod (2 ^ 32) ∧ 2 ^ 31 ≤ m) := by
    rcases Nat.lt_or_ge m (2 ^ 31) with hsmall | hlarge
    · refine Or.inl ⟨?_, hsmall⟩
      exact Int.bmod_eq_of_le (by omega) (by omega)
    · have := Int.bmod_lt (x := (m : Int)) (m := 2 ^ 32) (by decide)
      have := Int.le_bmod (x := (m : Int)) (m := 2 ^ 32) (by decide)
      omega
  calc ulid m rand = Sdk.ulid m rand
      ↔ ((m : Int).bmod (2 ^ 32) * 2 ^ 80 + ofBigEndian rand) % 32 ^ 26 =
          ((m : Int) * 2 ^ 80 + ofBigEndian rand) % 32 ^ 26 := by
        rw [ulid_eq m hrand, Sdk.ulid, ulidWith_eq _ hm hrand, String.ofList_inj, List.reverse_inj,
          ulidChars_eq, ulidChars_eq]
        exact map_lowDigits_inj (by norm_num) hf 26 _ _
    _ ↔ m < 2 ^ 31 := by
        generalize (m : Int).bmod (2 ^ 32) = t at hbmod
        norm_num at hm hlt ⊢
        omega

theorem ulid_eq_python_in_1970 :
    ulid 86400000 (List.replicate 10 7) = Sdk.ulid 86400000 (List.replicate 10 7) :=
  (ulid_eq_python_iff (m := 86400000) (by norm_num) (by rfl)).2 (by norm_num)

/-- On 13 May 2026 the TypeScript SDK writes a time in the first week of 1970. -/
theorem ulid_ne_python_in_2026 :
    ¬ ∀ m : Nat, m < 2 ^ 48 → ∀ rand : List UInt8, rand.length = 10 →
      ulid m rand = Sdk.ulid m rand := by
  intro h
  have hsame := h 1778673600000 (by norm_num) (List.replicate 10 7) (by rfl)
  rw [ulid_eq _ (by rfl), Sdk.ulid, ulidWith_eq (m := 1778673600000) _ (by norm_num) (by rfl),
    String.ofList_inj, ulidChars_eq, ulidChars_eq] at hsame
  revert hsame
  decide

end TypeScript
end ControlDB
