import ControlDB.Collector.EngineParity
import ControlDB.Python.Loads

/-!
# The payload hashes of the two engines

`compute_payload_hash` of the C++ engine takes the digest of the text it is given, the collector's that
of the canonical JSON of a value.  Two texts of one value have one hash in C++, the one of the
collector, exactly if they are one text, and that is canonical.
-/

namespace ControlDB
namespace Collector

open Library JsonTree Python

/-! ## Hashes of texts -/

section Digest

variable (sha256 : Sha256)

/-- Both engines write a digest in the same way. -/
theorem utf8_sha256Hex (data : Bytes) :
    utf8 (Python.sha256Hex sha256 data) = ControlDB.sha256Hex sha256 data := by
  have hprefix : encodeUtf8 "sha256:".toList = bytes "sha256:" := by decide
  have hdigit : ∀ n < 16, String.utf8EncodeChar (Nat.digitChar n) = [hexDigit (UInt8.ofNat n)] := by
    decide
  have hdigits : ∀ digest : List UInt8,
      encodeUtf8 (digest.flatMap fun b => [Nat.digitChar (b.toNat / 16), Nat.digitChar (b.toNat % 16)]) =
        digest.flatMap fun b => [hexDigit (b / 16), hexDigit (b % 16)] := by
    intro digest
    induction digest with
    | nil => rfl
    | cons b digest ih =>
        have hb := b.toNat_lt
        have hhi : UInt8.ofNat (b.toNat / 16) = b / 16 := UInt8.toNat_inj.1 (by simp; omega)
        have hlo : UInt8.ofNat (b.toNat % 16) = b % 16 := UInt8.toNat_inj.1 (by simp; omega)
        rw [List.flatMap_cons, List.flatMap_cons, encodeUtf8_append, ih, encodeUtf8_cons,
          encodeUtf8_cons, hdigit _ (by omega), hdigit _ (by omega), hhi, hlo]
        rfl
  rw [utf8, Python.sha256Hex, String.toList_append, encodeUtf8_append, hprefix, String.toList_ofList,
    hexdigest, hdigits]
  rfl

variable {sha256}

theorem eq_of_sha256Hex {a b : Bytes}
    (h : ControlDB.sha256Hex sha256 a = ControlDB.sha256Hex sha256 b) : sha256 a = sha256 b := by
  rw [← utf8_sha256Hex, ← utf8_sha256Hex] at h
  exact sha256Hex_eq (String.toList_injective (encodeUtf8_injective h))

end Digest

/-- The text that the C++ engine takes the digest of. -/
def engineText (text : List Char) : List Char :=
  if text = [] ∨ text = scalarText .none then ['{', '}'] else text

/-- The text that the collector takes the digest of, where the value can be encoded. -/
def collectorText (v : PyJson) : List Char :=
  dumps (if v.isNone then .obj [] else v)

section Hashes

variable (sha256 : Sha256)

theorem computePayloadHash_encodeUtf8 (text : List Char) :
    ControlDB.computePayloadHash sha256 (encodeUtf8 text) =
      ControlDB.sha256Hex sha256 (encodeUtf8 (engineText text)) := by
  have hnull : bytes "null" = encodeUtf8 (scalarText .none) := by decide
  have hbraces : bytes "\x7b\x7d" = encodeUtf8 ['{', '}'] := by decide
  have hcase : (encodeUtf8 text = [] ∨ encodeUtf8 text = bytes "null") ↔
      (text = [] ∨ text = scalarText .none) := by
    rw [hnull, encodeUtf8_injective.eq_iff]
    exact or_congr_left (encodeUtf8_injective.eq_iff (a := text) (b := []))
  rw [ControlDB.computePayloadHash, engineText, if_congr hcase rfl rfl, hbraces]
  split_ifs <;> rfl

theorem map_utf8_computePayloadHash (v : PyJson) :
    (Python.computePayloadHash sha256 v).map utf8 =
      if encodable v then some (ControlDB.sha256Hex sha256 (encodeUtf8 (collectorText v))) else none := by
  have hencodable : encodable (if v.isNone then .obj [] else v) = encodable v := by
    split_ifs with hnone
    · rcases v with (_ | _ | _ | _ | _ | _) | _ | _ <;> first | rfl | cases hnone
    · rfl
  rw [Python.computePayloadHash, canonicalJson, hencodable]
  by_cases hv : encodable v = true
  · rw [if_pos hv, if_pos hv, Option.map_some, Option.map_some, utf8_sha256Hex]
    rfl
  · rw [if_neg hv, if_neg hv]
    rfl

end Hashes

/-! ## Canonical texts -/

/-- Canonical JSON: nothing between the tokens, the members of every object in the order of their keys,
no key twice, strings with the escapes they need and no others, numbers as Python prints them. -/
def IsCanonical (readFloat : List Char → Option FloatRepr) (text : List Char) : Prop :=
  ∃ v : PyJson, v.EveryObject (List.Pairwise (· < ·)) ∧ v.EveryLeaf (Printable readFloat) ∧
    text = v.text scalarText quoteStr

section Canonical

variable {readFloat : List Char → Option FloatRepr}

theorem nodup_of_sorted {v : PyJson} (h : v.EveryObject (List.Pairwise (· < ·))) :
    v.EveryObject List.Nodup :=
  h.imp fun _ hkeys => hkeys.imp ne_of_lt

theorem loads_of_sorted (hrepr : ReprReads readFloat) {v : PyJson}
    (hsorted : v.EveryObject (List.Pairwise (· < ·))) (hprint : v.EveryLeaf (Printable readFloat)) :
    loads readFloat (v.text scalarText quoteStr) = some v :=
  loads_text hrepr hprint (nodup_of_sorted hsorted)

/-- A text is canonical if it is the one that is printed for its value. -/
theorem isCanonical_iff (hrepr : ReprReads readFloat) {s : List Char} {v : PyJson}
    (hs : loads readFloat s = some v) :
    IsCanonical readFloat s ↔ encodable v = true ∧ dumps v = s := by
  rcases loads_spec hs with ⟨hnodup, hloaded⟩
  constructor
  · rintro ⟨u, hsorted, hprint, rfl⟩
    rcases Option.some.inj ((loads_of_sorted hrepr hsorted hprint).symm.trans hs) with rfl
    exact ⟨(everyLeaf_printable_iff.1 hprint).2, by rw [dumps, sortKeys_of_sorted hsorted]⟩
  · rintro ⟨hencodable, rfl⟩
    exact ⟨v.sortKeys, everyObject_sortKeys hnodup,
      everyLeaf_sortKeys_iff.2 (everyLeaf_printable_iff.2 ⟨hloaded, hencodable⟩), rfl⟩

/-- The engine takes the digest of another text only for a canonical `null`. -/
theorem engineText_of_loads {s : List Char} {v : PyJson} (hs : loads readFloat s = some v)
    (hv : v ≠ .leaf .none) : engineText s = s := by
  refine if_neg (not_or.2 ⟨?_, ?_⟩)
  · rintro rfl
    cases hs
  · rintro rfl
    exact hv (Option.some.inj (hs.symm.trans rfl))

theorem engineText_eq_braces_iff {s : List Char} (hs : loads readFloat s = some (.leaf .none)) :
    engineText s = ['{', '}'] ↔ s = scalarText .none := by
  constructor
  · intro h
    unfold engineText at h
    split_ifs at h with hempty
    · rcases hempty with rfl | hnull
      · cases hs
      · exact hnull
    · -- an empty object is read from the braces
      subst h
      cases hs
  · rintro rfl
    rfl

/-- The engine and the collector take the digest of one text exactly where it is canonical. -/
theorem collectorText_eq_iff (hrepr : ReprReads readFloat) {s : List Char} {v : PyJson}
    (hs : loads readFloat s = some v) :
    (encodable v = true ∧ collectorText v = engineText s) ↔ IsCanonical readFloat s := by
  rw [isCanonical_iff hrepr hs]
  refine and_congr_right fun _ => ?_
  by_cases hv : v = .leaf .none
  · subst hv
    have hbraces : collectorText (.leaf .none) = ['{', '}'] := rfl
    rw [hbraces, eq_comm, engineText_eq_braces_iff hs, eq_comm]
    rfl
  · have hnone : v.isNone = false := by
      rcases v with (_ | _ | _ | _ | _ | _) | _ | _ <;> first | rfl | exact (hv rfl).elim
    rw [collectorText, hnone, engineText_of_loads hs hv]
    rfl

end Canonical

/-! ## Two texts of one value -/

section Parity

variable {sha256 : Sha256} {readFloat : List Char → Option FloatRepr} {s t : List Char} {v w : PyJson}

/-- The texts that the two engines take digests of. -/
def hashedTexts (s t : List Char) (v : PyJson) : Set Bytes :=
  {encodeUtf8 (engineText s), encodeUtf8 (engineText t), encodeUtf8 (collectorText v)}

theorem same_null_iff (hsame : v.Same w) : v = .leaf .none ↔ w = .leaf .none := by
  cases v with
  | leaf l =>
      rw [JsonTree.Same] at hsame
      rw [hsame]
  | arr items =>
      rcases hsame with ⟨items', rfl, _⟩
      simp
  | obj members =>
      rcases hsame with ⟨members', rfl, _⟩
      simp

/-- Texts of one value are the same if the engine takes the digest of one text, the one of the
collector. -/
theorem eq_of_engineText (hs : loads readFloat s = some v) (ht : loads readFloat t = some w)
    (hsame : v.Same w) (heq : engineText s = engineText t) (hcollector : collectorText v = engineText s) :
    s = t := by
  by_cases hv : v = .leaf .none
  · have hw := (same_null_iff hsame).1 hv
    rw [hv] at hs
    rw [hw] at ht
    -- of `null` the collector takes the digest of the braces
    have hbraces : engineText s = ['{', '}'] := by
      rw [← hcollector, hv]
      rfl
    rw [(engineText_eq_braces_iff hs).1 hbraces, (engineText_eq_braces_iff ht).1 (heq ▸ hbraces)]
  · have hw : w ≠ .leaf .none := fun h => hv ((same_null_iff hsame).2 h)
    calc s = engineText s := (engineText_of_loads hs hv).symm
      _ = engineText t := heq
      _ = t := engineText_of_loads ht hw

/-- Two texts of one value have the hash of the collector exactly if they are one canonical text. -/
theorem payloadHash_iff (hrepr : ReprReads readFloat) (hs : loads readFloat s = some v)
    (ht : loads readFloat t = some w) (hsame : v.Same w)
    (hsha : Set.InjOn sha256 (hashedTexts s t v)) :
    (ControlDB.computePayloadHash sha256 (encodeUtf8 s) =
        ControlDB.computePayloadHash sha256 (encodeUtf8 t) ∧
      (Python.computePayloadHash sha256 v).map utf8 =
        some (ControlDB.computePayloadHash sha256 (encodeUtf8 s))) ↔
      s = t ∧ IsCanonical readFloat s := by
  rw [computePayloadHash_encodeUtf8, computePayloadHash_encodeUtf8, map_utf8_computePayloadHash,
    ← collectorText_eq_iff hrepr hs]
  have hinj : ∀ {a b : List Char}, encodeUtf8 a ∈ hashedTexts s t v → encodeUtf8 b ∈ hashedTexts s t v →
      ControlDB.sha256Hex sha256 (encodeUtf8 a) = ControlDB.sha256Hex sha256 (encodeUtf8 b) → a = b :=
    fun ha hb h => encodeUtf8_injective (hsha ha hb (eq_of_sha256Hex h))
  constructor
  · rintro ⟨hengine, hcollector⟩
    split_ifs at hcollector with hencodable
    have heq := hinj (.inl rfl) (.inr (.inl rfl)) hengine
    have hcollector' := hinj (.inr (.inr rfl)) (.inl rfl) (Option.some.inj hcollector)
    exact ⟨eq_of_engineText hs ht hsame heq hcollector', hencodable, hcollector'⟩
  · rintro ⟨rfl, hencodable, hcollector⟩
    exact ⟨rfl, by rw [if_pos hencodable, hcollector]⟩

end Parity

namespace PayloadExample

/-- SHA-256 of the texts that occur, told apart by their lengths. -/
def sha256 (data : Bytes) : Vector UInt8 32 :=
  if data.length = 7 then
    #v[0x01, 0x5a, 0xbd, 0x7f, 0x5c, 0xc5, 0x7a, 0x2d, 0xd9, 0x4b, 0x75, 0x90,
      0xf0, 0x4a, 0xd8, 0x08, 0x42, 0x73, 0x90, 0x5e, 0xe3, 0x3e, 0xc5, 0xce,
      0xbe, 0xae, 0x62, 0x27, 0x6a, 0x97, 0xf8, 0x62]
  else
    #v[0xf9, 0xd8, 0x60, 0x28, 0xc6, 0xe0, 0xd6, 0x4e, 0x22, 0x51, 0x86, 0xf9,
      0x6a, 0xcb, 0x69, 0x33, 0x8b, 0x2c, 0x59, 0x76, 0x4d, 0xf7, 0x91, 0x62,
      0x10, 0x7f, 0x5c, 0x4b, 0xb3, 0x4d, 0x13, 0x10]

/-- No `float` occurs. -/
def readFloat (_ : List Char) : Option FloatRepr :=
  none

def value : PyJson :=
  .obj [("a", .leaf (.int 1))]

def compact : List Char :=
  ['{', '"', 'a', '"', ':', '1', '}']

def spaced : List Char :=
  ['{', '"', 'a', '"', ':', ' ', '1', '}']

end PayloadExample

open PayloadExample in
theorem payloadHash_compact :
    ControlDB.computePayloadHash PayloadExample.sha256 (encodeUtf8 compact) =
        ControlDB.computePayloadHash PayloadExample.sha256 (encodeUtf8 compact) ∧
      (Python.computePayloadHash PayloadExample.sha256 value).map utf8 =
        some (ControlDB.computePayloadHash PayloadExample.sha256 (encodeUtf8 compact)) := by
  have hread : loads readFloat compact = some value := rfl
  have hrepr : ReprReads readFloat := fun _ _ h => by cases h
  have hsame : value.Same value := (sortKeys_eq_iff_same (loads_spec hread).1 (loads_spec hread).1).1 rfl
  -- there is one text to hash
  have hone : hashedTexts compact compact value ⊆ {encodeUtf8 compact} := by
    rintro text (rfl | rfl | rfl) <;> rfl
  have hsha : Set.InjOn PayloadExample.sha256 (hashedTexts compact compact value) :=
    (Set.injOn_singleton _ _).mono hone
  exact (payloadHash_iff hrepr hread hread hsame hsha).2 ⟨rfl, (isCanonical_iff hrepr hread).2 ⟨rfl, rfl⟩⟩

open PayloadExample in
/-- A space behind the colon changes the hash of the engine, which then is not the collector's. -/
theorem payloadHash_spaced :
    loads readFloat spaced = some value ∧ loads readFloat compact = some value ∧
      ControlDB.computePayloadHash PayloadExample.sha256 (encodeUtf8 spaced) ≠
        ControlDB.computePayloadHash PayloadExample.sha256 (encodeUtf8 compact) ∧
      (Python.computePayloadHash PayloadExample.sha256 value).map utf8 ≠
        some (ControlDB.computePayloadHash PayloadExample.sha256 (encodeUtf8 spaced)) := by
  refine ⟨rfl, rfl, by decide, by decide⟩

end Collector
end ControlDB
