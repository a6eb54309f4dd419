import ControlDB.Python.CanonicalJson
import ControlDB.Python.DateTime

/-!
# What canonical JSON and ISO texts determine

The canonical text of a value determines the value up to the order of its members, and the text of a
datetime with an offset determines its fields.  So do the hashes, where SHA-256 has no collision.
-/

namespace ControlDB
namespace Python

open Library

/-! ## Quoted strings -/

/-- The value of a lower-case hex digit. -/
def hexDigitValue (c : Char) : Nat :=
  if c.toNat < 58 then c.toNat - 48 else c.toNat - 87

theorem hexDigitValue_digitChar {n : Nat} (hn : n < 16) : hexDigitValue (Nat.digitChar n) = n := by
  have hall : ∀ n < 16, hexDigitValue (Nat.digitChar n) = n := by decide
  exact hall n hn

theorem digitChar_plain {n : Nat} (hn : n < 16) :
    Nat.digitChar n ≠ '"' ∧ Nat.digitChar n ≠ '\\' := by
  have hall : ∀ n < 16, Nat.digitChar n ≠ '"' ∧ Nat.digitChar n ≠ '\\' := by decide
  exact hall n hn

/-- The character that the code at the front of an escaped text stands for. -/
def unescapeChar : List Char → Option Char
  | '\\' :: '"' :: _ => some '"'
  | '\\' :: '\\' :: _ => some '\\'
  | '\\' :: 'n' :: _ => some '\n'
  | '\\' :: 'r' :: _ => some '\r'
  | '\\' :: 't' :: _ => some '\t'
  | '\\' :: 'f' :: _ => some (Char.ofNat 0x0c)
  | '\\' :: 'b' :: _ => some (Char.ofNat 0x08)
  | '\\' :: 'u' :: '0' :: '0' :: hi :: lo :: _ =>
      some (Char.ofNat (hexDigitValue hi * 16 + hexDigitValue lo))
  | c :: _ => some c
  | [] => none

theorem unescapeChar_escapeChar (c : Char) (x : List Char) :
    unescapeChar (escapeChar c ++ x) = some c := by
  unfold escapeChar
  split_ifs with hquote hback hnl hcr htab hff hbs hctl
  · subst hquote; rfl
  · subst hback; rfl
  · subst hnl; rfl
  · subst hcr; rfl
  · subst htab; rfl
  · subst hff; rfl
  · subst hbs; rfl
  -- the two hexadecimal digits of a control character
  · have hhi := hexDigitValue_digitChar (n := c.toNat / 16) (by omega)
    have hlo := hexDigitValue_digitChar (n := c.toNat % 16) (by omega)
    change some (Char.ofNat (hexDigitValue (Nat.digitChar (c.toNat / 16)) * 16 +
      hexDigitValue (Nat.digitChar (c.toNat % 16)))) = some c
    rw [hhi, hlo, Nat.div_add_mod', Char.ofNat_toNat]
  · rw [List.singleton_append]
    unfold unescapeChar
    split <;> simp_all

theorem escapeChar_ne_nil (c : Char) : escapeChar c ≠ [] := by
  unfold escapeChar
  split_ifs <;> simp

theorem escapeChar_escapedBody (c : Char) : EscapedBody '"' '\\' (escapeChar c) := by
  have hpair : ∀ d : Char, EscapedBody '"' '\\' ['\\', d] := fun d => .escape .nil
  unfold escapeChar
  split_ifs with hquote hback _ _ _ _ _ hctl
  · exact hpair _
  · exact hpair _
  · exact hpair _
  · exact hpair _
  · exact hpair _
  · exact hpair _
  · exact hpair _
  · -- `\u00XY`: the escape pair `\u` and four plain digits
    rcases digitChar_plain (n := c.toNat / 16) (by omega) with ⟨hhi₁, hhi₂⟩
    rcases digitChar_plain (n := c.toNat % 16) (by omega) with ⟨hlo₁, hlo₂⟩
    exact .escape (.plain (by decide) (by decide) (.plain (by decide) (by decide)
      (.plain hhi₁ hhi₂ (.plain hlo₁ hlo₂ .nil))))
  · exact .plain hquote hback .nil

theorem escapeChar_symbolCode : SymbolCode escapeChar := by
  intro a b x y h
  have hhead := congrArg unescapeChar h
  simpa [unescapeChar_escapeChar] using hhead

theorem quoteStr_mem (s : String) : quoteStr s ∈ quoted '"' '\\' :=
  ⟨s.toList.flatMap escapeChar, EscapedBody.flatMap escapeChar_escapedBody s.toList, rfl⟩

theorem quoteStr_injective : Function.Injective quoteStr := by
  intro s t h
  have hbody : s.toList.flatMap escapeChar = t.toList.flatMap escapeChar := by
    simpa [quoteStr] using h
  exact String.toList_injective
    (escapeChar_symbolCode.flatMap_injective escapeChar_ne_nil hbody)

/-- A quoted string is told apart by what follows it. -/
theorem quoteStr_read {s t : String} {x y : List Char} (h : quoteStr s ++ x = quoteStr t ++ y) :
    s = t ∧ x = y := by
  rcases quoted_prefixFree (by decide) (quoteStr_mem s) (quoteStr_mem t) h with ⟨hquoted, hrest⟩
  exact ⟨quoteStr_injective hquoted, hrest⟩

theorem quoteStr_keyCode : JsonTree.KeyCode quoteStr where
  read := by
    intro k m x y h
    rcases quoteStr_read h with ⟨hkey, hrest⟩
    exact ⟨hkey, (List.cons.inj hrest).2⟩
  head := fun k => ⟨'"', _, rfl, by decide⟩

/-! ## Scalars -/

/-- The characters of numbers and of the words for constants. -/
def IsWordChar (c : Char) : Prop :=
  c.isAlphanum = true ∨ c = '-' ∨ c = '+' ∨ c = '.'

theorem IsWordChar.not_mark {c : Char} (h : IsWordChar c) :
    c ≠ '"' ∧ c ≠ ',' ∧ c ≠ '[' ∧ c ≠ ']' ∧ c ≠ '\x7b' ∧ c ≠ '\x7d' := by
  refine ⟨?_, ?_, ?_, ?_, ?_, ?_⟩ <;> rintro rfl <;> revert h <;> unfold IsWordChar <;> decide

theorem isDigit_of_mem_toDigits {n : Nat} {c : Char} (hc : c ∈ Nat.toDigits 10 n) :
    c.isDigit = true :=
  Nat.isDigit_of_mem_toDigits (by decide) (by decide) hc

theorem mem_intText {n : Int} {c : Char} (hc : c ∈ intText n) : c.isDigit = true ∨ c = '-' := by
  unfold intText at hc
  split_ifs at hc
  · rcases List.mem_cons.1 hc with rfl | hdigit
    · exact .inr rfl
    · exact .inl (isDigit_of_mem_toDigits hdigit)
  · exact .inl (isDigit_of_mem_toDigits hc)

theorem intText_injective : Function.Injective intText := by
  have hdigits : ∀ {a b : Nat}, Nat.toDigits 10 a = Nat.toDigits 10 b → a = b := by
    intro a b h
    have hread := congrArg (fun digits => Nat.ofDigitChars 10 digits 0) h
    simpa using hread
  -- no digit is a minus sign
  have hminus : ∀ {a b : Nat}, '-' :: Nat.toDigits 10 a ≠ Nat.toDigits 10 b := by
    intro a b h
    have hdigit := isDigit_of_mem_toDigits (h ▸ List.mem_cons_self : '-' ∈ Nat.toDigits 10 b)
    exact absurd hdigit (by decide)
  intro n m h
  unfold intText at h
  split_ifs at h with hn hm hm
  · have habs := hdigits (List.cons.inj h).2
    omega
  · exact (hminus h).elim
  · exact (hminus h.symm).elim
  · have habs := hdigits h
    omega

/-- Without a string, the text of a scalar is a word. -/
theorem scalarText_word {l : Scalar} (hl : ∀ s, l ≠ .str s) :
    scalarText l ≠ [] ∧ ∀ c ∈ scalarText l, IsWordChar c := by
  -- constants, integers and floats consist of letters, digits, signs and points
  have hdigit : ∀ {c : Char}, c.isDigit = true → IsWordChar c := by
    intro c hc
    exact .inl (by simp [Char.isAlphanum, hc])
  cases l with
  | none => exact ⟨by simp [scalarText], by simp [scalarText, IsWordChar]⟩
  | bool b =>
      cases b with
      | true => exact ⟨by simp [scalarText], by simp [scalarText, IsWordChar]⟩
      | false => exact ⟨by simp [scalarText], by simp [scalarText, IsWordChar]⟩
  | int n =>
      refine ⟨?_, ?_⟩
      · change intText n ≠ []
        unfold intText
        split_ifs
        · simp
        · simp [Nat.toDigits_ne_nil]
      · intro c hc
        rcases mem_intText hc with hd | hminus
        · exact hdigit hd
        · exact .inr (.inl hminus)
  | float x =>
      rcases x.fractional with ⟨c, hc, _⟩
      refine ⟨List.ne_nil_of_mem hc, ?_⟩
      intro d hd
      rcases x.alphabet d hd with h | h | h | h | h
      · exact hdigit h
      · exact .inr (.inl h)
      · exact .inr (.inr (.inl h))
      · exact .inr (.inr (.inr h))
      · rw [h]
        exact .inl (by decide)
  | str s => exact (hl s rfl).elim
  | unencodable => exact ⟨by simp [scalarText], by simp [scalarText, IsWordChar]⟩

/-- A number has no letter but `e`, so it is none of the constants. -/
theorem number_ne_constant {w : List Char}
    (hw : w ∈ [scalarText .none, scalarText (.bool true), scalarText (.bool false),
      scalarText .unencodable]) :
    (∀ x : FloatRepr, x.chars ≠ w) ∧ ∀ n, intText n ≠ w := by
  -- each constant has a letter that no number has
  have hletter : ∃ c ∈ w, c.isDigit = false ∧ c ≠ '-' ∧ c ≠ '+' ∧ c ≠ '.' ∧ c ≠ 'e' := by
    simp only [List.mem_cons, List.not_mem_nil, or_false] at hw
    rcases hw with rfl | rfl | rfl | rfl
    · exact ⟨'n', by decide⟩
    · exact ⟨'t', by decide⟩
    · exact ⟨'f', by decide⟩
    · exact ⟨'N', by decide⟩
  rcases hletter with ⟨c, hc, hdigit, hminus, hplus, hpoint, hexp⟩
  constructor
  · rintro x rfl
    rcases x.alphabet c hc with h | h | h | h | h
    · rw [hdigit] at h
      cases h
    · exact hminus h
    · exact hplus h
    · exact hpoint h
    · exact hexp h
  · rintro n rfl
    rcases mem_intText hc with h | h
    · rw [hdigit] at h
      cases h
    · exact hminus h

theorem intText_ne_float {n : Int} {x : FloatRepr} : intText n ≠ x.chars := by
  intro h
  rcases x.fractional with ⟨c, hc, hmark⟩
  rw [← h] at hc
  rcases mem_intText hc with hdigit | hminus
  · rcases hmark with rfl | rfl
    · exact absurd hdigit (by decide)
    · exact absurd hdigit (by decide)
  · rcases hmark with rfl | rfl
    · exact absurd hminus (by decide)
    · exact absurd hminus (by decide)

theorem FloatRepr.ext_chars {x y : FloatRepr} (h : x.chars = y.chars) : x = y := by
  cases x
  cases y
  cases h
  rfl

/-- Scalars other than strings are told apart by their texts. -/
theorem scalarText_injOn {l m : Scalar} (hl : ∀ s, l ≠ .str s) (hm : ∀ s, m ≠ .str s)
    (h : scalarText l = scalarText m) : l = m := by
  -- two constants, two numbers of one kind, or texts of different kinds
  rcases l with _ | (_ | _) | n | x | s | _ <;> rcases m with _ | (_ | _) | n' | x' | s' | _ <;>
    first
    | rfl
    | exact (hl _ rfl).elim
    | exact (hm _ rfl).elim
    | exact absurd h (by decide)
    | exact congrArg Scalar.int (intText_injective h)
    | exact congrArg Scalar.float (FloatRepr.ext_chars h)
    | exact (intText_ne_float h).elim
    | exact (intText_ne_float h.symm).elim
    | exact ((number_ne_constant (by simp)).1 _ h).elim
    | exact ((number_ne_constant (by simp)).1 _ h.symm).elim
    | exact ((number_ne_constant (by simp)).2 _ h).elim
    | exact ((number_ne_constant (by simp)).2 _ h.symm).elim

theorem scalarText_head (l : Scalar) :
    ∃ c rest, scalarText l = c :: rest ∧ c ≠ '[' ∧ c ≠ '\x7b' ∧ c ≠ ']' ∧
      (c = '"' ↔ ∃ s, l = .str s) := by
  by_cases hstr : ∃ s, l = .str s
  · rcases hstr with ⟨s, rfl⟩
    exact ⟨'"', _, rfl, by decide, by decide, by decide, by simp⟩
  · rcases scalarText_word (not_exists.1 hstr) with ⟨hne, hword⟩
    rcases List.exists_cons_of_ne_nil hne with ⟨c, rest, htext⟩
    rcases (hword c (by rw [htext]; exact List.mem_cons_self)).not_mark with
      ⟨hquote, _, hbracket, hclose, hbrace, _⟩
    exact ⟨c, rest, htext, hbracket, hbrace, hclose, by simp [hquote, hstr]⟩

theorem scalarText_leafCode : JsonTree.LeafCode scalarText where
  read := by
    intro l m x y hx hy h
    rcases scalarText_head l with ⟨c, rest, htext, _, _, _, hc⟩
    rcases scalarText_head m with ⟨c', rest', htext', _, _, _, hc'⟩
    -- the first character tells strings from words
    have hheads : c = c' := by
      rw [htext, htext'] at h
      exact (List.cons.inj h).1
    by_cases hstr : ∃ s, l = .str s
    · -- a string is read up to its closing quote
      rcases hc'.1 (hheads ▸ hc.2 hstr) with ⟨t, rfl⟩
      rcases hstr with ⟨s, rfl⟩
      rcases quoteStr_read h with ⟨rfl, hrest⟩
      exact ⟨rfl, hrest⟩
    · -- a word is read up to the mark behind it
      have hstr' : ¬ ∃ s, m = .str s := fun hm => hstr (hc.1 (hheads ▸ hc'.2 hm))
      have hmarks : ∀ {l : Scalar}, (¬ ∃ s, l = .str s) →
          ∀ c ∈ scalarText l, c ≠ ',' ∧ c ≠ ']' ∧ c ≠ '\x7d' := by
        intro l hl c hmem
        rcases ((scalarText_word (not_exists.1 hl)).2 c hmem).not_mark with
          ⟨_, hcomma, _, hclose, _, hbrace⟩
        exact ⟨hcomma, hclose, hbrace⟩
      rcases JsonTree.eq_of_append_ended (hmarks hstr) (hmarks hstr') hx hy h with ⟨hsame, hrest⟩
      exact ⟨scalarText_injOn (not_exists.1 hstr) (not_exists.1 hstr') hsame, hrest⟩
  head := by
    intro l
    rcases scalarText_head l with ⟨c, rest, htext, hbracket, hbrace, hclose, _⟩
    exact ⟨c, rest, htext, hbracket, hbrace, hclose⟩

/-! ## Texts in UTF-8 -/

theorem encodeUtf8_append (a b : List Char) :
    encodeUtf8 (a ++ b) = encodeUtf8 a ++ encodeUtf8 b := List.flatMap_append

theorem encodeUtf8_cons (c : Char) (l : List Char) :
    encodeUtf8 (c :: l) = String.utf8EncodeChar c ++ encodeUtf8 l := List.flatMap_cons

theorem encodeUtf8_injective : Function.Injective encodeUtf8 := by
  intro l m h
  have hbytes : l.utf8Encode = m.utf8Encode := by
    unfold List.utf8Encode
    exact congrArg List.toByteArray h
  have hdecode := congrArg ByteArray.utf8Decode? hbytes
  rw [List.utf8Decode?_utf8Encode, List.utf8Decode?_utf8Encode] at hdecode
  simpa using hdecode

/-- An ASCII character is one byte, and the others have no ASCII bytes. -/
theorem utf8EncodeChar_cases (c : Char) :
    (c.toNat < 128 ∧ String.utf8EncodeChar c = [UInt8.ofNat c.toNat]) ∨
      (128 ≤ c.toNat ∧ String.utf8EncodeChar c ≠ [] ∧
        ∀ b ∈ String.utf8EncodeChar c, 128 ≤ b.toNat) := by
  by_cases hascii : c.toNat < 128
  · refine .inl ⟨hascii, ?_⟩
    have hle : c.val.toNat ≤ 0x7f := Nat.le_of_lt_succ hascii
    simp only [String.utf8EncodeChar, if_pos hle]
    rfl
  · refine .inr ⟨not_lt.1 hascii, String.utf8EncodeChar_ne_nil, ?_⟩
    have hgt : ¬ c.val.toNat ≤ 0x7f := fun h => hascii (Nat.lt_succ_of_le h)
    simp only [String.utf8EncodeChar, if_neg hgt]
    intro b hb
    split_ifs at hb <;> simp only [List.mem_cons, List.not_mem_nil, or_false] at hb <;>
      rcases hb with rfl | rfl | rfl | rfl <;> rw [UInt8.toNat_ofNat'] <;> omega

/-- The byte of an ASCII character comes from that character. -/
theorem mem_of_mem_encodeUtf8 {c : Char} (hc : c.toNat < 128) {text : List Char}
    (h : UInt8.ofNat c.toNat ∈ encodeUtf8 text) : c ∈ text := by
  rcases List.mem_flatMap.1 h with ⟨d, hd, hbyte⟩
  have hval : (UInt8.ofNat c.toNat).toNat = c.toNat := by
    rw [UInt8.toNat_ofNat']
    omega
  rcases utf8EncodeChar_cases d with ⟨hascii, hbytes⟩ | ⟨_, _, hlarge⟩
  · rw [hbytes, List.mem_singleton] at hbyte
    have hsame : c.toNat = d.toNat := by
      rw [← hval, hbyte, UInt8.toNat_ofNat']
      omega
    exact Char.toNat_inj.1 hsame ▸ hd
  · have hbig := hlarge _ hbyte
    omega

/-- Bytes without quotation marks and backslashes. -/
theorem escapedBody_of_plain {body : Bytes} (h : ∀ b ∈ body, b ≠ 0x22 ∧ b ≠ 0x5c) :
    EscapedBody (0x22 : UInt8) 0x5c body := by
  induction body with
  | nil => exact .nil
  | cons b body ih =>
      rcases h b List.mem_cons_self with ⟨hquote, hback⟩
      exact .plain hquote hback (ih fun b' hb' => h b' (List.mem_cons_of_mem _ hb'))

theorem plain_of_large {b : UInt8} (hb : 128 ≤ b.toNat) : b ≠ 0x22 ∧ b ≠ 0x5c := by
  constructor <;> rintro rfl <;> exact absurd hb (by decide)

theorem utf8EncodeChar_plain {c : Char} (hquote : c ≠ '"') (hback : c ≠ '\\') :
    ∀ b ∈ String.utf8EncodeChar c, b ≠ 0x22 ∧ b ≠ 0x5c := by
  rcases utf8EncodeChar_cases c with ⟨hascii, hbytes⟩ | ⟨_, _, hlarge⟩
  · intro b hb
    rw [hbytes, List.mem_singleton] at hb
    have hval : b.toNat = c.toNat := by
      rw [hb, UInt8.toNat_ofNat']
      omega
    -- a byte of this value is the byte of the character
    have hne : ∀ d : Char, c ≠ d → d.toNat < 128 → b.toNat ≠ d.toNat := by
      intro d hcd _ heq
      exact hcd (Char.toNat_inj.1 (hval.symm.trans heq))
    constructor
    · rintro rfl
      exact hne '"' hquote (by decide) rfl
    · rintro rfl
      exact hne '\\' hback (by decide) rfl
  · exact fun b hb => plain_of_large (hlarge b hb)

/-- What is escaped as characters is escaped as bytes. -/
theorem encodeUtf8_escapedBody {body : List Char} (h : EscapedBody '"' '\\' body) :
    EscapedBody (0x22 : UInt8) 0x5c (encodeUtf8 body) := by
  induction h with
  | nil => exact .nil
  | plain hquote hback _ ih =>
      rw [encodeUtf8_cons]
      exact (escapedBody_of_plain (utf8EncodeChar_plain hquote hback)).append ih
  | @escape c body _ ih =>
      have hback : String.utf8EncodeChar '\\' = [0x5c] := by decide
      rw [encodeUtf8_cons, encodeUtf8_cons, hback, List.singleton_append]
      -- the first byte of the character is the escaped one, and no other byte is ASCII
      rcases utf8EncodeChar_cases c with ⟨_, hbytes⟩ | ⟨_, hne, hlarge⟩
      · rw [hbytes]
        exact .escape ih
      · rcases List.exists_cons_of_ne_nil hne with ⟨b, rest, hbytes⟩
        rw [hbytes] at hlarge ⊢
        refine .escape ((escapedBody_of_plain fun b' hb' => ?_).append ih)
        exact plain_of_large (hlarge b' (List.mem_cons_of_mem _ hb'))

theorem encodeUtf8_quoteStr_mem (s : String) : encodeUtf8 (quoteStr s) ∈ quoted (0x22 : UInt8) 0x5c := by
  have hquote : String.utf8EncodeChar '"' = [0x22] := by decide
  refine ⟨encodeUtf8 (s.toList.flatMap escapeChar),
    encodeUtf8_escapedBody (EscapedBody.flatMap escapeChar_escapedBody s.toList), ?_⟩
  rw [quoteStr, encodeUtf8_cons, encodeUtf8_append, hquote]
  rfl

/-! ## Values and hashes -/

theorem sortKeys_str (s : String) : (PyJson.str s).sortKeys = PyJson.str s := rfl

theorem sortKeys_optStr (s : Option String) : (PyJson.optStr s).sortKeys = PyJson.optStr s := by
  cases s <;> rfl

theorem sortKeys_optInt (n : Option Int) : (PyJson.optInt n).sortKeys = PyJson.optInt n := by
  cases n <;> rfl

theorem encodableMembers_perm {l m : List (String × PyJson)} (h : l.Perm m) :
    encodableMembers l = encodableMembers m := by
  have hall : ∀ l : List (String × PyJson),
      encodableMembers l = l.all fun member => encodable member.2 := by
    intro l
    induction l with
    | nil => rfl
    | cons e l ih => simp [encodableMembers, ih]
  rw [hall, hall, h.all_eq]

/-- Values with the same canonical JSON are the same up to the order of members. -/
theorem sortKeys_eq_of_canonicalJson {j k : PyJson} {data : Bytes}
    (hj : canonicalJson j = some data) (hk : canonicalJson k = some data) :
    j.sortKeys = k.sortKeys := by
  unfold canonicalJson at hj hk
  split_ifs at hj hk
  have htext : dumps j = dumps k := by
    apply encodeUtf8_injective
    exact (Option.some.inj hj).trans (Option.some.inj hk).symm
  exact JsonTree.text_injective scalarText_leafCode quoteStr_keyCode htext

mutual

/-- Sorting the members changes nothing about what can be encoded. -/
theorem encodable_sortKeys : ∀ j : PyJson, encodable j.sortKeys = encodable j
  | .leaf l => rfl
  | .arr items => by
      simp only [JsonTree.sortKeys, encodable]
      exact encodableItems_sortItems items
  | .obj members => by
      simp only [JsonTree.sortKeys, encodable]
      rw [encodableMembers_perm (List.perm_insertionSort _ _)]
      exact encodableMembers_sortMembers members

theorem encodableItems_sortItems :
    ∀ items : List PyJson, encodableItems (JsonTree.sortItems items) = encodableItems items
  | [] => rfl
  | t :: rest => by
      simp only [JsonTree.sortItems, encodableItems]
      rw [encodable_sortKeys t, encodableItems_sortItems rest]

theorem encodableMembers_sortMembers :
    ∀ members : List (String × PyJson),
      encodableMembers (JsonTree.sortMembers members) = encodableMembers members
  | [] => rfl
  | (k, t) :: rest => by
      simp only [JsonTree.sortMembers, encodableMembers]
      rw [encodable_sortKeys t, encodableMembers_sortMembers rest]

end

/-- Values that are the same up to the order of members have the same canonical JSON. -/
theorem canonicalJson_congr {j k : PyJson} (h : j.sortKeys = k.sortKeys) :
    canonicalJson j = canonicalJson k := by
  have hencodable : encodable j = encodable k := by
    rw [← encodable_sortKeys j, h, encodable_sortKeys]
  unfold canonicalJson dumps
  rw [hencodable, h]

theorem hexdigest_injective : Function.Injective hexdigest := by
  have hbyte : SymbolCode fun b : UInt8 =>
      [Nat.digitChar (b.toNat / 16), Nat.digitChar (b.toNat % 16)] := by
    intro a b x y h
    have ha := a.toNat_lt
    have hb := b.toNat_lt
    simp only [List.cons_append, List.nil_append, List.cons.injEq] at h
    have hhi := congrArg hexDigitValue h.1
    have hlo := congrArg hexDigitValue h.2.1
    rw [hexDigitValue_digitChar (by omega), hexDigitValue_digitChar (by omega)] at hhi hlo
    exact UInt8.toNat_inj.1 (by omega)
  intro s t h
  have hlist : s.toList = t.toList := hbyte.flatMap_injective (fun _ => by simp) h
  exact Vector.toList_inj.1 hlist

theorem sha256Hex_eq {sha256 : Sha256} {s t : Bytes} (h : sha256Hex sha256 s = sha256Hex sha256 t) :
    sha256 s = sha256 t := by
  have hlists := congrArg String.toList h
  simp only [sha256Hex, String.toList_append, String.toList_ofList] at hlists
  exact hexdigest_injective (List.append_cancel_left hlists)

end Python
end ControlDB
