import ControlDB.Library.JsonSame
import ControlDB.TypeScript.CanonicalText

/-!
# What canonical JSON of the TypeScript SDK determines

The canonical text of a plain value determines the value up to the order of its members, strings
with lone surrogates included: a surrogate is escaped, and its escape is none of a control
character.
-/

namespace ControlDB
namespace TypeScript

open Library Library.Utf16

/-! ## Quoted strings -/

/-- `\uXXXX` as characters. -/
def hexEscape (n : Nat) : List Char :=
  '\\' :: 'u' :: [n / 0x1000, n / 0x100 % 16, n / 0x10 % 16, n % 16].map Nat.digitChar

/-- The characters a code point is written with. -/
def escapePoint : CodePoint → List Char
  | .scalar c => Python.escapeChar c
  | .surrogate u => hexEscape u.toNat

/-- A string between its quotes. -/
def quoteUnits (s : JsString) : List Char :=
  '"' :: ((codePoints s).flatMap escapePoint ++ ['"'])

theorem quotePoint_eq (p : CodePoint) : quotePoint p = encode (escapePoint p) := by
  cases p with
  | scalar c => exact quotePoint_scalar c
  | surrogate u =>
      have hu : u.toNat < 0x10000 := u.toNat_lt
      rw [escapePoint, encode_ascii]
      · rfl
      · intro d hd
        simp only [hexEscape, List.map_cons, List.map_nil, List.mem_cons, List.not_mem_nil,
          or_false] at hd
        rcases hd with rfl | rfl | rfl | rfl | rfl | rfl
        · decide
        · decide
        · exact digitChar_ascii (by omega)
        · exact digitChar_ascii (by omega)
        · exact digitChar_ascii (by omega)
        · exact digitChar_ascii (by omega)

theorem stringify_eq (s : JsString) : stringify s = encode (quoteUnits s) := by
  have hquote : units "\"" = encode ['"'] := by decide
  have hbody : ∀ points : List CodePoint,
      points.flatMap quotePoint = encode (points.flatMap escapePoint) := by
    intro points
    induction points with
    | nil => rfl
    | cons p points ih =>
        rw [List.flatMap_cons, List.flatMap_cons, encode_append, ih, quotePoint_eq]
  rw [stringify, hbody, hquote, ← encode_append, ← encode_append]
  rfl

/-- The code point at the front of an escaped text.  Only surrogates have an escape whose first digit
is `d`. -/
def readPoint : List Char → Option CodePoint
  | '\\' :: 'u' :: 'd' :: a :: b :: c :: _ =>
      some (.surrogate (UInt16.ofNat (0xd000 + Python.hexDigitValue a * 0x100 +
        Python.hexDigitValue b * 0x10 + Python.hexDigitValue c)))
  | text => (Python.unescapeChar text).map .scalar

theorem readPoint_escapePoint {p : CodePoint} (hp : p.Valid) (x : List Char) :
    readPoint (escapePoint p ++ x) = some p := by
  cases p with
  | scalar c =>
      have hchar := Python.unescapeChar_escapeChar c x
      have hfirst : ∀ rest, Python.escapeChar c ++ x ≠ '\\' :: 'u' :: 'd' :: rest := by
        intro rest
        unfold Python.escapeChar
        split_ifs with hquote hback <;> simp
        exact fun hc => absurd hc hback
      rw [escapePoint]
      unfold readPoint
      split
      case h_1 heq => exact absurd heq (hfirst _)
      case h_2 => rw [hchar, Option.map_some]
  | surrogate u =>
      rcases hp with ⟨hlow, hhigh⟩
      have hfirst : Nat.digitChar (u.toNat / 0x1000) = 'd' := by
        have hd : u.toNat / 0x1000 = 13 := by omega
        rw [hd]
        rfl
      have hvalue : 0xd000 + u.toNat / 0x100 % 16 * 0x100 + u.toNat / 0x10 % 16 * 0x10 +
          u.toNat % 16 = u.toNat := by omega
      simp only [escapePoint, hexEscape, List.map_cons, List.map_nil, List.cons_append,
        List.nil_append, hfirst, readPoint, Python.hexDigitValue_digitChar (Nat.mod_lt _ (by decide : 0 < 16)),
        hvalue, UInt16.ofNat_toNat]

theorem hexEscape_escapedBody {n : Nat} (hn : n < 0x10000) : EscapedBody '"' '\\' (hexEscape n) := by
  rcases Python.digitChar_plain (n := n / 0x1000) (by omega) with ⟨h₁, h₁'⟩
  rcases Python.digitChar_plain (n := n / 0x100 % 16) (by omega) with ⟨h₂, h₂'⟩
  rcases Python.digitChar_plain (n := n / 0x10 % 16) (by omega) with ⟨h₃, h₃'⟩
  rcases Python.digitChar_plain (n := n % 16) (by omega) with ⟨h₄, h₄'⟩
  exact .escape (.plain h₁ h₁' (.plain h₂ h₂' (.plain h₃ h₃' (.plain h₄ h₄' .nil))))

theorem escapePoint_escapedBody (p : CodePoint) : EscapedBody '"' '\\' (escapePoint p) := by
  cases p with
  | scalar c => exact Python.escapeChar_escapedBody c
  | surrogate u => exact hexEscape_escapedBody u.toNat_lt

theorem escapePoint_ne_nil (p : CodePoint) : escapePoint p ≠ [] := by
  cases p with
  | scalar c => exact Python.escapeChar_ne_nil c
  | surrogate u => exact List.cons_ne_nil _ _

theorem quoteUnits_injective : Function.Injective quoteUnits := by
  intro s t h
  have hbody : (codePoints s).flatMap escapePoint = (codePoints t).flatMap escapePoint := by
    simpa [quoteUnits] using h
  -- the escapes are told apart where the surrogates are surrogates, as they are in a string
  have hcode : SymbolCode fun p : {p : CodePoint // p.Valid} => escapePoint p.1 := by
    intro p q x y hpq
    have hread := congrArg readPoint hpq
    rw [readPoint_escapePoint p.2, readPoint_escapePoint q.2] at hread
    exact Subtype.ext (Option.some.inj hread)
  have hattach : ∀ s : JsString, ∃ points : List {p : CodePoint // p.Valid},
      points.map Subtype.val = codePoints s := fun s =>
    ⟨(codePoints s).attachWith CodePoint.Valid fun _ hp => valid_of_mem_codePoints hp,
      List.attachWith_map_subtype_val _⟩
  rcases hattach s with ⟨ps, hps⟩
  rcases hattach t with ⟨pt, hpt⟩
  refine codePoints_injective ?_
  rw [← hps, ← hpt, List.flatMap_map, List.flatMap_map] at hbody
  rw [← hps, ← hpt, hcode.flatMap_injective (fun p => escapePoint_ne_nil p.1) hbody]

theorem quoteUnits_mem (s : JsString) : quoteUnits s ∈ quoted '"' '\\' :=
  ⟨_, EscapedBody.flatMap escapePoint_escapedBody (codePoints s), rfl⟩

/-- A quoted string is told apart by what follows it. -/
theorem quoteUnits_read {s t : JsString} {x y : List Char}
    (h : quoteUnits s ++ x = quoteUnits t ++ y) : s = t ∧ x = y := by
  rcases quoted_prefixFree (by decide) (quoteUnits_mem s) (quoteUnits_mem t) h with ⟨hquoted, hrest⟩
  exact ⟨quoteUnits_injective hquoted, hrest⟩

theorem quoteUnits_keyCode : JsonTree.KeyCode quoteUnits where
  read := by
    intro k m x y h
    rcases quoteUnits_read h with ⟨hkey, hrest⟩
    exact ⟨hkey, (List.cons.inj hrest).2⟩
  head := fun k => ⟨'"', _, rfl, by decide⟩

/-! ## Plain values -/

inductive PlainLeaf
  | null
  | boolean (b : Bool)
  | integer (n : SafeInteger)
  | string (s : JsString)
  deriving DecidableEq

/-- A value of plain objects and arrays over such leaves: the keys of an object are distinct. -/
structure PlainValue where
  tree : JsonTree PlainLeaf JsString
  distinct : tree.EveryObject List.Nodup

namespace PlainLeaf

def toJs : PlainLeaf → JsLeaf
  | null => .null
  | boolean b => .boolean b
  | integer n => .number (.integer n)
  | string s => .string s

/-- What is not a string is written like a scalar of Python. -/
def word? : PlainLeaf → Option Python.Scalar
  | null => some .none
  | boolean b => some (.bool b)
  | integer n => some (.int n.val)
  | string _ => none

def text : PlainLeaf → List Char
  | null => Python.scalarText .none
  | boolean b => Python.scalarText (.bool b)
  | integer n => Python.scalarText (.int n.val)
  | string s => quoteUnits s

theorem cases_word (l : PlainLeaf) :
    (∃ s, l = string s) ∨ ∃ w, l.word? = some w ∧ l.text = Python.scalarText w ∧
      ¬ ∃ s, w = Python.Scalar.str s := by
  cases l with
  | null => exact .inr ⟨_, rfl, rfl, by simp⟩
  | boolean b => exact .inr ⟨_, rfl, rfl, by simp⟩
  | integer n => exact .inr ⟨_, rfl, rfl, by simp⟩
  | string s => exact .inl ⟨s, rfl⟩

theorem word?_inj {l m : PlainLeaf} {w : Python.Scalar} (hl : l.word? = some w)
    (hm : m.word? = some w) : l = m := by
  have h : l.word? = m.word? := hl.trans hm.symm
  cases l <;> cases m <;> simp [word?] at h hl ⊢
  case boolean b c => exact h
  case integer n k =>
      rcases n with ⟨n, hn⟩
      rcases k with ⟨k, hk⟩
      cases h
      rfl

theorem text_leafCode : JsonTree.LeafCode text where
  read := by
    intro l m x y hx hy h
    rcases cases_word l with ⟨s, rfl⟩ | ⟨w, hl, hlt, hls⟩
    · rcases cases_word m with ⟨t, rfl⟩ | ⟨v, hm, hmt, hms⟩
      · rcases quoteUnits_read h with ⟨rfl, hrest⟩
        exact ⟨rfl, hrest⟩
      -- a word does not begin with a quote
      · rcases Python.scalarText_head v with ⟨c, rest, htext, _, _, _, hc⟩
        rw [hmt, htext] at h
        exact absurd (hc.1 (List.cons.inj h).1.symm) hms
    · rcases cases_word m with ⟨t, rfl⟩ | ⟨v, hm, hmt, hms⟩
      · rcases Python.scalarText_head w with ⟨c, rest, htext, _, _, _, hc⟩
        rw [hlt, htext] at h
        exact absurd (hc.1 (List.cons.inj h).1) hls
      · rw [hlt, hmt] at h
        rcases Python.scalarText_leafCode.read hx hy h with ⟨rfl, hrest⟩
        exact ⟨word?_inj hl hm, hrest⟩
  head := by
    intro l
    rcases cases_word l with ⟨s, rfl⟩ | ⟨w, _, hlt, _⟩
    · exact ⟨'"', _, rfl, by decide, by decide, by decide⟩
    · rw [hlt]
      exact Python.scalarText_leafCode.head w

theorem leafJson_toJs (l : PlainLeaf) : leafJson l.toJs = .ok (encode l.text) := by
  cases l with
  | null => rfl
  | boolean b => cases b <;> rfl
  | integer n => exact congrArg Except.ok (integerText_eq n.val)
  | string s => exact congrArg Except.ok (stringify_eq s)

end PlainLeaf

theorem spelling_plain : Spelling PlainLeaf.toJs id PlainLeaf.text quoteUnits where
  leaf := PlainLeaf.leafJson_toJs
  key := stringify_eq
  injective := Function.injective_id

def PlainValue.toJs (v : PlainValue) : JsValue :=
  v.tree.map PlainLeaf.toJs id

/-- The text of a plain value is that of its tree with sorted members. -/
theorem canonicalJson_plain (v : PlainValue) :
    canonicalJson v.toJs = .ok (encode (v.tree.sortKeys.text PlainLeaf.text quoteUnits)) := by
  rw [JsonTree.sortKeys_eq_sortBy]
  exact spelling_plain.canonicalJson_map v.tree v.distinct

/-- Two plain values have the same text exactly if they are the same up to the order of members. -/
theorem canonicalJson_eq_iff_same (a b : PlainValue) :
    canonicalJson a.toJs = canonicalJson b.toJs ↔ a.tree.Same b.tree := by
  have htext := JsonTree.text_injective PlainLeaf.text_leafCode quoteUnits_keyCode
  calc canonicalJson a.toJs = canonicalJson b.toJs
      ↔ a.tree.sortKeys = b.tree.sortKeys := by
        rw [canonicalJson_plain, canonicalJson_plain, Except.ok.injEq, encode_injective.eq_iff,
          htext.eq_iff]
    _ ↔ a.tree.Same b.tree := JsonTree.sortKeys_eq_iff_same a.distinct b.distinct

end TypeScript
end ControlDB
