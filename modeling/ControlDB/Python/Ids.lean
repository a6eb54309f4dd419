import ControlDB.Library.Radix

/-!
# ULIDs of the Python code

The SDK and the collector each have a `_ulid` of their own, with one body.
-/

namespace ControlDB
namespace Python

open Library

/-- The loop of `_ulid`: a character for the low five bits, the rest of the value shifted down. -/
def ulidChars (alphabet : List Char) : Nat → Int → List Char
  | 0, _ => []
  | n + 1, value =>
      alphabet.getD (Int.land value 0x1F).toNat '?' :: ulidChars alphabet n (value >>> (5 : Nat))

/-- The body of `_ulid`.  The clock, `int(time.time() * 1000)`, and the ten bytes of `os.urandom`
are inputs. -/
def ulidWith (alphabet : List Char) (now : Int) (urandom : List UInt8) : String :=
  let ms := Int.land now ((1 <<< 48 : Nat) - 1 : Int)
  let rand : Int := ofBigEndian urandom
  let value := Int.lor (ms <<< (80 : Nat)) rand
  String.ofList (ulidChars alphabet 26 value).reverse

end Python

namespace Sdk

/-- `_ALPHABET` of `controldb/ids.py`. -/
def ulidAlphabet : List Char := "0123456789ABCDEFGHJKMNPQRSTVWXYZ".toList

/-- `_ulid` of `controldb/ids.py`. -/
def ulid (now : Int) (urandom : List UInt8) : String :=
  Python.ulidWith ulidAlphabet now urandom

end Sdk

namespace Collector

/-- `_ALPHABET` of `controldb_collector/ids.py`. -/
def ulidAlphabet : List Char := "0123456789ABCDEFGHJKMNPQRSTVWXYZ".toList

/-- `_ulid` of `controldb_collector/ids.py`. -/
def ulid (now : Int) (urandom : List UInt8) : String :=
  Python.ulidWith ulidAlphabet now urandom

end Collector

namespace Python

open Library

/-! ## The characters are digits in base 32 -/

theorem ulidChars_eq (alphabet : List Char) (n : Nat) (value : Int) :
    ulidChars alphabet n value =
      (lowDigits 32 n value).map fun d => alphabet.getD d.toNat '?' := by
  induction n generalizing value with
  | zero => rfl
  | succ n ih =>
      have hlow : Int.land value 0x1F = value % 32 := land_mask value 5
      have hrest : value >>> (5 : Nat) = value / 32 := Int.shiftRight_eq_div_pow value 5
      simp only [ulidChars, lowDigits, List.map_cons, hlow, hrest, ih]

/-- A time that fits 48 bits stands above the 80 random bits. -/
theorem ulidWith_eq (alphabet : List Char) {m : Nat} (hm : m < 2 ^ 48) {b : List UInt8}
    (hb : b.length = 10) :
    ulidWith alphabet m b = String.ofList (ulidChars alphabet 26 (m * 2 ^ 80 + ofBigEndian b)).reverse := by
  have hrand : ofBigEndian b < 2 ^ 80 := by
    have := ofBigEndian_lt b
    rwa [hb] at this
  have hms : Int.land m ((1 <<< 48 : Nat) - 1 : Int) = m := by
    calc Int.land m ((1 <<< 48 : Nat) - 1 : Int)
        = (m : Int) % 2 ^ 48 := land_mask m 48
      _ = m := Int.emod_eq_of_lt (Int.natCast_nonneg m) (by exact_mod_cast hm)
  simp only [ulidWith, hms, lor_shiftLeft _ hrand]

/-- No character of a rising alphabet repeats, and later ones are greater. -/
theorem strictMonoOn_getD {alphabet : List Char} (hlen : alphabet.length = 32)
    (hrising : alphabet.Pairwise (· < ·)) :
    StrictMonoOn (fun d : Int => alphabet.getD d.toNat '?') (Set.Ico 0 32) := by
  intro d hd e he hde
  have hd' : d.toNat < alphabet.length := by
    have := hd.1
    have := hd.2
    omega
  have he' : e.toNat < alphabet.length := by
    have := he.1
    have := he.2
    omega
  have hlt : d.toNat < e.toNat := by
    have := hd.1
    omega
  simpa [List.getD_eq_getElem?_getD, hd', he'] using List.pairwise_iff_getElem.1 hrising _ _ hd' he' hlt

/-- The 26 characters hold 130 bits, so the 128 bits of the value order them. -/
theorem ulidWith_order {alphabet : List Char} (hlen : alphabet.length = 32)
    (hrising : alphabet.Pairwise (· < ·)) {m₁ m₂ : Nat} (hm₁ : m₁ < 2 ^ 48) (hm₂ : m₂ < 2 ^ 48)
    {b₁ b₂ : List UInt8} (hb₁ : b₁.length = 10) (hb₂ : b₂.length = 10) :
    (ulidWith alphabet m₁ b₁ < ulidWith alphabet m₂ b₂ ↔
        toLex (m₁, ofBigEndian b₁) < toLex (m₂, ofBigEndian b₂)) ∧
      (ulidWith alphabet m₁ b₁ = ulidWith alphabet m₂ b₂ ↔
        m₁ = m₂ ∧ ofBigEndian b₁ = ofBigEndian b₂) := by
  have hr₁ : ofBigEndian b₁ < 2 ^ 80 := by
    have := ofBigEndian_lt b₁
    rwa [hb₁] at this
  have hr₂ : ofBigEndian b₂ < 2 ^ 80 := by
    have := ofBigEndian_lt b₂
    rwa [hb₂] at this
  have hf := strictMonoOn_getD hlen hrising
  have hrest : ∀ {m r : Nat}, m < 2 ^ 48 → r < 2 ^ 80 →
      ((m : Int) * 2 ^ 80 + r) % 32 ^ 26 = (m : Int) * 2 ^ 80 + r := by
    intro m r hm hr
    refine Int.emod_eq_of_lt (by positivity) ?_
    norm_num at hm hr ⊢
    omega
  rw [ulidWith_eq alphabet hm₁ hb₁, ulidWith_eq alphabet hm₂ hb₂, ulidChars_eq, ulidChars_eq]
  constructor
  · calc String.ofList _ < String.ofList _
        ↔ (m₁ : Int) * 2 ^ 80 + ofBigEndian b₁ < (m₂ : Int) * 2 ^ 80 + ofBigEndian b₂ := by
          rw [String.lt_iff, String.toList_ofList, String.toList_ofList,
            map_reverse_lowDigits_lt_iff (by norm_num) hf, hrest hm₁ hr₁, hrest hm₂ hr₂]
      _ ↔ toLex (m₁, ofBigEndian b₁) < toLex (m₂, ofBigEndian b₂) := by
          rw [Prod.Lex.toLex_lt_toLex]
          norm_num at hr₁ hr₂ ⊢
          omega
  · calc String.ofList _ = String.ofList _
        ↔ (m₁ : Int) * 2 ^ 80 + ofBigEndian b₁ = (m₂ : Int) * 2 ^ 80 + ofBigEndian b₂ := by
          rw [String.ofList_inj, List.reverse_inj, map_lowDigits_inj (by norm_num) hf.injOn,
            hrest hm₁ hr₁, hrest hm₂ hr₂]
      _ ↔ m₁ = m₂ ∧ ofBigEndian b₁ = ofBigEndian b₂ := by
          norm_num at hr₁ hr₂ ⊢
          omega

theorem ulidAlphabet_rising : Sdk.ulidAlphabet.length = 32 ∧
    Sdk.ulidAlphabet.Pairwise (· < ·) := by
  constructor <;> decide

@[simp] theorem length_ulidChars (alphabet : List Char) (n : Nat) (value : Int) :
    (ulidChars alphabet n value).length = n := by
  rw [ulidChars_eq, List.length_map, length_lowDigits]

/-- Both generators order their ids by time, and within a millisecond by the random value. -/
theorem ulid_order {m₁ m₂ r₁ r₂ : Nat} (hm₁ : m₁ < 2 ^ 48) (hm₂ : m₂ < 2 ^ 48)
    (hr₁ : r₁ < 2 ^ 80) (hr₂ : r₂ < 2 ^ 80) :
    ∀ ulid ∈ [Sdk.ulid, Collector.ulid],
      (ulid m₁ (toBigEndian 10 r₁)).length = 26 ∧
      (ulid m₁ (toBigEndian 10 r₁) < ulid m₂ (toBigEndian 10 r₂) ↔
        toLex (m₁, r₁) < toLex (m₂, r₂)) ∧
      (ulid m₁ (toBigEndian 10 r₁) = ulid m₂ (toBigEndian 10 r₂) ↔ m₁ = m₂ ∧ r₁ = r₂) ∧
      (m₁ < m₂ → ulid m₁ (toBigEndian 10 r₁) < ulid m₂ (toBigEndian 10 r₂)) := by
  intro ulid hulid
  have hbody : ulid = ulidWith Sdk.ulidAlphabet := by
    rcases List.mem_pair.1 hulid with rfl | rfl
    · rfl
    · rfl
  have horder := ulidWith_order ulidAlphabet_rising.1 ulidAlphabet_rising.2 hm₁ hm₂
    (length_toBigEndian 10 r₁) (length_toBigEndian 10 r₂)
  rw [ofBigEndian_toBigEndian_of_lt hr₁,
    ofBigEndian_toBigEndian_of_lt hr₂] at horder
  rw [hbody]
  refine ⟨?_, horder.1, horder.2, ?_⟩
  · simp [ulidWith]
  · intro hm
    exact horder.1.2 (Prod.Lex.toLex_lt_toLex.2 (Or.inl hm))

/-- Two ids made within one millisecond of the year 2026. -/
theorem ulid_order_2026 :
    Sdk.ulid 1778673600000 (toBigEndian 10 41) < Sdk.ulid 1778673600000 (toBigEndian 10 42) ∧
      Collector.ulid 1778673600000 (toBigEndian 10 41) <
        Collector.ulid 1778673600000 (toBigEndian 10 42) := by
  have horder : ∀ ulid ∈ [Sdk.ulid, Collector.ulid],
      ulid 1778673600000 (toBigEndian 10 41) < ulid 1778673600000 (toBigEndian 10 42) :=
    fun ulid hulid =>
      (ulid_order (by norm_num) (by norm_num) (by norm_num) (by norm_num) ulid hulid).2.1.2 (by decide)
  exact ⟨horder _ List.mem_cons_self, horder _ (List.mem_cons_of_mem _ List.mem_cons_self)⟩

end Python
end ControlDB
