import ControlDB.Library.JsonReader
import ControlDB.Library.Utf16
import ControlDB.Python.CanonicalBinding

/-!
# `json.loads`

The decoder of the `json` package: strings and their escapes, numbers and constants, and a `dict` for
the members of an object.  A string is read as UTF-16 units, so that two escapes that are a surrogate
pair become one character.  The parameter `readFloat` is `float` on the text of a number, `none`
where that is infinite.  What `json.dumps` prints is read back.
-/

namespace ControlDB
namespace Python

open Library JsonTree

/-! ## Strings -/

/-- `BACKSLASH` of the `json` package. -/
def backslash : Char → Option Char
  | '"' => some '"'
  | '\\' => some '\\'
  | '/' => some '/'
  | 'b' => some (Char.ofNat 0x08)
  | 'f' => some (Char.ofNat 0x0c)
  | 'n' => some '\n'
  | 'r' => some '\r'
  | 't' => some '\t'
  | _ => none

def hexDigitOf (c : Char) : Option Nat :=
  if c.isDigit then some (c.toNat - 48)
  else if 'a' ≤ c ∧ c ≤ 'f' then some (c.toNat - 87)
  else if 'A' ≤ c ∧ c ≤ 'F' then some (c.toNat - 55)
  else none

/-- The unit of `\uabcd`. -/
def hexUnit (a b c d : Char) : Option UInt16 := do
  let a ← hexDigitOf a
  let b ← hexDigitOf b
  let c ← hexDigitOf c
  let d ← hexDigitOf d
  pure (UInt16.ofNat (((a * 16 + b) * 16 + c) * 16 + d))

/-- `scanstring` behind the opening quote. -/
def scanString : List Char → Option (List UInt16 × List Char)
  | [] => none
  | '"' :: rest => some ([], rest)
  | '\\' :: 'u' :: a :: b :: c :: d :: rest =>
      (hexUnit a b c d).bind fun u => (scanString rest).map fun r => (u :: r.1, r.2)
  | '\\' :: c :: rest =>
      (backslash c).bind fun e => (scanString rest).map fun r => (Utf16.encodeChar e ++ r.1, r.2)
  | c :: rest =>
      -- a control character is not allowed in a string
      if c.toNat < 0x20 then none
      else (scanString rest).map fun r => (Utf16.encodeChar c ++ r.1, r.2)

def charOf : Utf16.CodePoint → Option Char
  | .scalar c => some c
  | .surrogate _ => none

/-- The text of these units, or `none` where a lone surrogate is among them. -/
def strOf (units : List UInt16) : Option String :=
  ((Utf16.codePoints units).mapM charOf).map String.ofList

/-! ## Numbers and constants -/

/-- What a part of `NUMBER_RE` matches at the front of a text, and the rest. -/
abbrev Part := List Char → List Char × List Char

/-- `\d+`, or nothing. -/
def scanDigits : Part := fun text => (text.takeWhile Char.isDigit, text.dropWhile Char.isDigit)

/-- `-?` -/
def scanMinus : Part
  | '-' :: rest => (['-'], rest)
  | text => ([], text)

/-- `[-+]?` -/
def scanSign : Part
  | '+' :: rest => (['+'], rest)
  | '-' :: rest => (['-'], rest)
  | text => ([], text)

/-- `(?:0|[1-9]\d*)` -/
def scanInt : Reader (List Char)
  | [] => none
  | c :: rest =>
      if c = '0' then some (['0'], rest)
      else if c.isDigit then some (c :: (scanDigits rest).1, (scanDigits rest).2)
      else none

/-- `(\.\d+)?` -/
def scanFraction : Part
  | [] => ([], [])
  | c :: rest =>
      if c = '.' ∧ (scanDigits rest).1 ≠ [] then (c :: (scanDigits rest).1, (scanDigits rest).2)
      else ([], c :: rest)

/-- `([eE][-+]?\d+)?` -/
def scanExponent : Part
  | [] => ([], [])
  | c :: rest =>
      if (c = 'e' ∨ c = 'E') ∧ (scanDigits (scanSign rest).2).1 ≠ [] then
        (c :: ((scanSign rest).1 ++ (scanDigits (scanSign rest).2).1), (scanDigits (scanSign rest).2).2)
      else ([], c :: rest)

/-- The constants, with those that only Python writes. -/
def constants : List (List Char × Scalar) :=
  [(['n', 'u', 'l', 'l'], .none), (['t', 'r', 'u', 'e'], .bool true),
    (['f', 'a', 'l', 's', 'e'], .bool false), (['N', 'a', 'N'], .unencodable),
    (['I', 'n', 'f', 'i', 'n', 'i', 't', 'y'], .unencodable),
    (['-', 'I', 'n', 'f', 'i', 'n', 'i', 't', 'y'], .unencodable)]

def scanConstant : Reader Scalar := fun text =>
  constants.findSome? fun c =>
    if c.1.isPrefixOf text then some (c.2, text.drop c.1.length) else none

section Numbers

variable (readFloat : List Char → Option FloatRepr)

/-- An `int` without fraction and exponent, otherwise a `float`. -/
def numberOf (minus int fraction exponent : List Char) : Scalar :=
  if fraction = [] ∧ exponent = [] then
    .int (if minus = [] then Nat.ofDigitChars 10 int 0 else -(Nat.ofDigitChars 10 int 0 : Int))
  else
    match readFloat (minus ++ int ++ fraction ++ exponent) with
    | some x => .float x
    | none => .unencodable

def scanNumber : Reader Scalar := fun text =>
  (scanInt (scanMinus text).2).map fun int =>
    (numberOf readFloat (scanMinus text).1 int.1 (scanFraction int.2).1
        (scanExponent (scanFraction int.2).2).1,
      (scanExponent (scanFraction int.2).2).2)

/-! ## Values -/

/-- The string of these units; a lone surrogate in it cannot be encoded. -/
def strScalar (units : List UInt16) : Scalar :=
  match strOf units with
  | some s => .str s
  | none => .unencodable

def readScalar : Reader Scalar
  | '"' :: rest => (scanString rest).map fun r => (strScalar r.1, r.2)
  | text => (scanNumber readFloat text).or (scanConstant text)

def readKey : Reader (List UInt16)
  | '"' :: rest => scanString rest
  | _ => none

/-- `d[key] = value`. -/
def setItem (members : List (String × PyJson)) (m : String × PyJson) : List (String × PyJson) :=
  if m.1 ∈ members.map Prod.fst then members.map fun e => if e.1 = m.1 then m else e
  else members ++ [m]

/-- `dict(pairs)`; a key with a lone surrogate cannot be encoded, nor can the `dict` with it. -/
def dictOf (pairs : List (List UInt16 × PyJson)) : PyJson :=
  match pairs.mapM fun p => (strOf p.1).map fun k => (k, p.2) with
  | some members => .obj (members.foldl setItem [])
  | none => .leaf .unencodable

/-- `json.loads`, or `none` where it raises. -/
def loads (text : List Char) : Option PyJson :=
  readText (readScalar readFloat) readKey dictOf text

end Numbers

/-! ## Strings are read back -/

theorem hexUnit_control {n : Nat} (hn : n < 0x20) :
    hexUnit '0' '0' (Nat.digitChar (n / 16)) (Nat.digitChar (n % 16)) = some (UInt16.ofNat n) := by
  have hall : ∀ n < 0x20, hexUnit '0' '0' (Nat.digitChar (n / 16)) (Nat.digitChar (n % 16)) =
      some (UInt16.ofNat n) := by decide
  exact hall n hn

theorem scanString_cons {c : Char} (hquote : c ≠ '"') (hback : c ≠ '\\') (hctl : ¬ c.toNat < 0x20)
    (rest : List Char) :
    scanString (c :: rest) = (scanString rest).map fun r => (Utf16.encodeChar c ++ r.1, r.2) := by
  rw [scanString.eq_def]
  split <;> simp_all

/-- What stands for a character in a string is read as its units. -/
def Escapes (escape : Char → List Char) : Prop :=
  ∀ c x, scanString (escape c ++ x) =
    (scanString x).map fun r => (Utf16.encodeChar c ++ r.1, r.2)

theorem escapes_escapeChar : Escapes escapeChar := by
  intro c x
  unfold escapeChar
  split_ifs with hquote hback hnl hcr htab hff hbs hctl
  · subst hquote; rfl
  · subst hback; rfl
  · subst hnl; rfl
  · subst hcr; rfl
  · subst htab; rfl
  · subst hff; rfl
  · subst hbs; rfl
  -- the unit of a control character
  · have hunit : Utf16.encodeChar c = [UInt16.ofNat c.toNat] := by
      rw [Utf16.encodeChar, if_pos (by omega)]
    simp only [List.cons_append, List.nil_append]
    rw [scanString, hexUnit_control hctl, hunit]
    rfl
  · exact scanString_cons hquote hback hctl x

theorem scanString_flatMap {escape : Char → List Char} (h : Escapes escape) (s x : List Char) :
    scanString (s.flatMap escape ++ '"' :: x) = some (Utf16.encode s, x) := by
  induction s with
  | nil => rfl
  | cons c s ih =>
      rw [List.flatMap_cons, List.append_assoc, h, ih, Utf16.encode_cons]
      rfl

theorem strOf_encode (s : List Char) : strOf (Utf16.encode s) = some (String.ofList s) := by
  have hmap : ∀ s : List Char, (s.map Utf16.CodePoint.scalar).mapM charOf = some s := by
    intro s
    induction s with
    | nil => rfl
    | cons c s ih => rw [List.map_cons, List.mapM_cons, ih]; rfl
  rw [strOf, Utf16.codePoints_encode, hmap]
  rfl

theorem scanString_consumes : Consumes scanString := by
  intro text r h
  fun_induction scanString text generalizing r with
  | case1 => cases h
  | case2 rest =>
      cases h
      exact Nat.lt_succ_self _
  | case3 a b c d rest ih =>
      rcases Option.bind_eq_some_iff.1 h with ⟨u, _, hu⟩
      rcases Option.map_eq_some_iff.1 hu with ⟨r', hr', rfl⟩
      have hlt := ih hr'
      simp only [List.length_cons]
      omega
  | case4 c rest hu ih =>
      rcases Option.bind_eq_some_iff.1 h with ⟨e, _, he⟩
      rcases Option.map_eq_some_iff.1 he with ⟨r', hr', rfl⟩
      have hlt := ih hr'
      simp only [List.length_cons]
      omega
  | case5 c rest hquote hunit hback hctl => cases h
  | case6 c rest hquote hunit hback hctl ih =>
      rcases Option.map_eq_some_iff.1 h with ⟨r', hr', rfl⟩
      exact (ih hr').trans (Nat.lt_succ_self _)

/-! ## Numbers are read back -/

/-- A part matches no more where a value ends behind the text. -/
def EndsWith (part : Part) : Prop :=
  ∀ text {x}, Stops x → part (text ++ x) = ((part text).1, (part text).2 ++ x)

theorem head_of_stops {c : Char} {rest : List Char} (h : Stops (c :: rest)) :
    c.isDigit = false ∧ c ≠ '-' ∧ c ≠ '+' ∧ c ≠ '.' ∧ c ≠ 'e' ∧ c ≠ 'E' := by
  rcases h with hnil | ⟨d, rest', heq, hd⟩
  · cases hnil
  · rw [(List.cons.inj heq).1]
    simp only [isSpace, Bool.or_eq_true, decide_eq_true_eq] at hd
    rcases hd with (((rfl | rfl) | rfl) | rfl) | rfl | rfl | rfl <;> decide

theorem scanDigits_endsWith : EndsWith scanDigits := by
  intro text x hx
  induction text with
  | nil =>
      cases x with
      | nil => rfl
      | cons c x =>
          rcases head_of_stops hx with ⟨hdigit, _⟩
          simp [scanDigits, hdigit]
  | cons c text ih =>
      rcases Prod.ext_iff.1 ih with ⟨htake, hdrop⟩
      by_cases hc : c.isDigit = true
      · simp only [scanDigits] at htake hdrop
        simp [scanDigits, hc, htake, hdrop]
      · simp [scanDigits, hc]

theorem scanMinus_endsWith : EndsWith scanMinus := by
  intro text x hx
  cases text with
  | nil =>
      cases x with
      | nil => rfl
      | cons c x =>
          rcases head_of_stops hx with ⟨_, hminus, _⟩
          simp [scanMinus, hminus]
  | cons c text =>
      by_cases hc : c = '-'
      · subst hc
        rfl
      · simp [scanMinus, hc]

theorem scanSign_endsWith : EndsWith scanSign := by
  intro text x hx
  cases text with
  | nil =>
      cases x with
      | nil => rfl
      | cons c x =>
          rcases head_of_stops hx with ⟨_, hminus, hplus, _⟩
          simp [scanSign, hminus, hplus]
  | cons c text =>
      by_cases hplus : c = '+'
      · subst hplus
        rfl
      · by_cases hminus : c = '-'
        · subst hminus
          rfl
        · simp [scanSign, hplus, hminus]

theorem scanFraction_endsWith : EndsWith scanFraction := by
  intro text x hx
  cases text with
  | nil =>
      cases x with
      | nil => rfl
      | cons c x =>
          rcases head_of_stops hx with ⟨_, _, _, hpoint, _⟩
          simp [scanFraction, hpoint]
  | cons c text =>
      have hdigits := scanDigits_endsWith text hx
      rw [List.cons_append, scanFraction, hdigits, scanFraction]
      split_ifs <;> rfl

theorem scanExponent_endsWith : EndsWith scanExponent := by
  intro text x hx
  cases text with
  | nil =>
      cases x with
      | nil => rfl
      | cons c x =>
          rcases head_of_stops hx with ⟨_, _, _, _, hlower, hupper⟩
          simp [scanExponent, hlower, hupper]
  | cons c text =>
      have hsign := scanSign_endsWith text hx
      have hdigits := scanDigits_endsWith (scanSign text).2 hx
      rw [List.cons_append, scanExponent, hsign, hdigits, scanExponent]
      split_ifs <;> rfl

theorem scanInt_append {text x : List Char} {r : List Char × List Char} (hx : Stops x)
    (h : scanInt text = some r) : scanInt (text ++ x) = some (r.1, r.2 ++ x) := by
  cases text with
  | nil => cases h
  | cons c text =>
      have hdigits := scanDigits_endsWith text hx
      rw [scanInt] at h
      rw [List.cons_append, scanInt, hdigits]
      split_ifs at h ⊢
      · cases h
        rfl
      · cases h
        rfl

section Numbers

variable {readFloat : List Char → Option FloatRepr}

/-- A number ends where a value does. -/
theorem scanNumber_append {text x : List Char} {r : Scalar × List Char} (hx : Stops x)
    (h : scanNumber readFloat text = some r) :
    scanNumber readFloat (text ++ x) = some (r.1, r.2 ++ x) := by
  rcases Option.map_eq_some_iff.1 h with ⟨int, hint, rfl⟩
  have hminus := scanMinus_endsWith text hx
  have hint' := scanInt_append hx hint
  have hfraction := scanFraction_endsWith int.2 hx
  have hexponent := scanExponent_endsWith (scanFraction int.2).2 hx
  simp only [scanNumber, hminus, hint', Option.map_some, hfraction, hexponent]

theorem toDigits_head {n : Nat} (hn : n ≠ 0) :
    ∃ c rest, Nat.toDigits 10 n = c :: rest ∧ c ≠ '0' := by
  induction n using Nat.strong_induction_on with
  | _ n ih =>
      by_cases hlt : n < 10
      · refine ⟨n.digitChar, [], Nat.toDigits_of_lt_base hlt, ?_⟩
        simpa using hn
      · rcases ih (n / 10) (by omega) (by omega) with ⟨c, rest, htext, hc⟩
        refine ⟨c, rest ++ [(n % 10).digitChar], ?_, hc⟩
        rw [Nat.toDigits_of_base_le (by decide) (not_lt.1 hlt), htext]
        rfl

theorem scanDigits_of_all {digits : List Char} (h : ∀ c ∈ digits, c.isDigit = true) :
    scanDigits digits = (digits, []) := by
  rw [scanDigits, List.takeWhile_eq_self_iff.2 h, List.dropWhile_eq_nil_iff.2 h]

theorem scanInt_toDigits (n : Nat) : scanInt (Nat.toDigits 10 n) = some (Nat.toDigits 10 n, []) := by
  by_cases hn : n = 0
  · subst hn
    rfl
  · rcases toDigits_head hn with ⟨c, rest, htext, hc⟩
    have hdigit : ∀ d ∈ c :: rest, d.isDigit = true := fun d hd =>
      isDigit_of_mem_toDigits (htext ▸ hd)
    rcases List.forall_mem_cons.1 hdigit with ⟨hhead, htail⟩
    rw [htext, scanInt, if_neg hc, if_pos hhead, scanDigits_of_all htail]

theorem scanNumber_intText (n : Int) : scanNumber readFloat (intText n) = some (.int n, []) := by
  have hdigits : ∀ m : Nat, scanMinus (Nat.toDigits 10 m) = ([], Nat.toDigits 10 m) := by
    intro m
    rcases List.exists_cons_of_ne_nil (Nat.toDigits_ne_nil (b := 10) (n := m)) with ⟨c, rest, htext⟩
    have hc := isDigit_of_mem_toDigits (htext ▸ List.mem_cons_self : c ∈ Nat.toDigits 10 m)
    have hminus : c ≠ '-' := by
      rintro rfl
      exact absurd hc (by decide)
    rw [htext]
    simp [scanMinus, hminus]
  have hpos : ∀ m : Nat, scanNumber readFloat (Nat.toDigits 10 m) = some (.int m, []) := by
    intro m
    simp [scanNumber, hdigits, scanInt_toDigits, scanFraction, scanExponent, numberOf]
  have hneg : ∀ m : Nat, scanNumber readFloat ('-' :: Nat.toDigits 10 m) = some (.int (-m), []) := by
    intro m
    simp [scanNumber, scanMinus, scanInt_toDigits, scanFraction, scanExponent, numberOf]
  unfold intText
  split_ifs with hn
  · have hvalue : -(n.natAbs : Int) = n := by omega
    rw [hneg, hvalue]
  · have hvalue : (n.natAbs : Int) = n := by omega
    rw [hpos, hvalue]

/-! ## What is printed is read back -/

theorem scanNumber_consumes : Consumes (scanNumber readFloat) := by
  intro text r h
  -- no part has more behind it than before it
  have hdigits : ∀ text, (scanDigits text).2.length ≤ text.length := fun text =>
    (List.dropWhile_suffix _).length_le
  have hsign : ∀ text, (scanSign text).2.length ≤ text.length := by
    intro text
    unfold scanSign
    split <;> simp
  have hminus : (scanMinus text).2.length ≤ text.length := by
    unfold scanMinus
    split <;> simp
  have hfraction : ∀ text, (scanFraction text).2.length ≤ text.length := by
    intro text
    unfold scanFraction
    split
    · exact Nat.le_refl _
    · split_ifs
      · exact (hdigits _).trans (Nat.le_succ _)
      · exact Nat.le_refl _
  have hexponent : ∀ text, (scanExponent text).2.length ≤ text.length := by
    intro text
    unfold scanExponent
    split
    · exact Nat.le_refl _
    · split_ifs
      · exact ((hdigits _).trans (hsign _)).trans (Nat.le_succ _)
      · exact Nat.le_refl _
  rcases Option.map_eq_some_iff.1 h with ⟨int, hint, rfl⟩
  have hlt : int.2.length < (scanMinus text).2.length := by
    unfold scanInt at hint
    split at hint
    · cases hint
    · next c rest heq =>
        rw [heq]
        split_ifs at hint
        · cases hint
          exact Nat.lt_succ_self _
        · cases hint
          exact (hdigits rest).trans_lt (Nat.lt_succ_self _)
  calc (scanExponent (scanFraction int.2).2).2.length
      ≤ (scanFraction int.2).2.length := hexponent _
    _ ≤ int.2.length := hfraction _
    _ < (scanMinus text).2.length := hlt
    _ ≤ text.length := hminus

theorem scanConstant_consumes : Consumes scanConstant := by
  intro text r h
  rcases List.exists_of_findSome?_eq_some h with ⟨c, hc, hread⟩
  split_ifs at hread with hprefix
  cases hread
  -- no constant is empty
  have hpos : ∀ c ∈ constants, 0 < c.1.length := by decide
  have hlen := (List.isPrefixOf_iff_prefix.1 hprefix).length_le
  have hpos' := hpos c hc
  rw [List.length_drop]
  omega

theorem readScalar_consumes : Consumes (readScalar readFloat) := by
  intro text r h
  unfold readScalar at h
  split at h
  · rcases Option.map_eq_some_iff.1 h with ⟨r', hr', rfl⟩
    exact (scanString_consumes hr').trans (Nat.lt_succ_self _)
  · rcases Option.or_eq_some_iff.1 h with hnumber | ⟨_, hconstant⟩
    · exact scanNumber_consumes hnumber
    · exact scanConstant_consumes hconstant

theorem readKey_consumes : Consumes readKey := by
  intro text r h
  unfold readKey at h
  split at h
  · exact (scanString_consumes h).trans (Nat.lt_succ_self _)
  · cases h

variable (readFloat)

/-- The `repr` of a `float` is a number with a fraction or an exponent, and `float` reads it back. -/
def ReprReads : Prop :=
  ∀ text x, readFloat text = some x → scanNumber readFloat x.chars = some (.float x, [])

/-- A scalar that can be read: a `float` is one that `float` makes of a text. -/
def Loaded (l : Scalar) : Prop :=
  ∀ x, l = .float x → ∃ text, readFloat text = some x

/-- A scalar that `canonical_json` can print. -/
def Printable : Scalar → Prop
  | .float x => ∃ text, readFloat text = some x
  | .unencodable => False
  | _ => True

variable {readFloat}

theorem readScalar_of_number {text x : List Char} {l : Scalar} (hx : Stops x)
    (h : scanNumber readFloat text = some (l, [])) :
    readScalar readFloat (text ++ x) = some (l, x) := by
  have hnumber := scanNumber_append hx h
  rw [List.nil_append] at hnumber
  unfold readScalar
  split
  · next rest heq =>
      rw [heq] at hnumber
      cases hnumber
  · rw [hnumber]
    rfl

/-- A string whose characters are escaped this way. -/
def quoteWith (escape : Char → List Char) (s : String) : List Char :=
  '"' :: (s.toList.flatMap escape ++ ['"'])

def scalarTextWith (escape : Char → List Char) : Scalar → List Char
  | .str s => quoteWith escape s
  | l => scalarText l

theorem scalarTextWith_escapeChar : scalarTextWith escapeChar = scalarText := by
  funext l
  cases l <;> rfl

section Escapes

variable {escape : Char → List Char}

theorem readScalar_text (hrepr : ReprReads readFloat) (hescape : Escapes escape) {l : Scalar}
    {x : List Char} (hl : Loaded readFloat l) (hx : Stops x) :
    readScalar readFloat (scalarTextWith escape l ++ x) = some (l, x) := by
  cases l with
  | none => rfl
  | bool b => cases b <;> rfl
  | int n => exact readScalar_of_number hx (scanNumber_intText n)
  | float y =>
      rcases hl y rfl with ⟨text, hy⟩
      exact readScalar_of_number hx (hrepr text y hy)
  | str s =>
      have hunits := scanString_flatMap hescape s.toList x
      have hstr := strOf_encode s.toList
      rw [String.ofList_toList] at hstr
      rw [scalarTextWith, quoteWith, List.cons_append, List.append_assoc, List.singleton_append,
        readScalar, hunits, Option.map_some, strScalar, hstr]
  | unencodable => rfl

/-- No letter, digit, sign or point is a space. -/
theorem isSpace_of_isWordChar {c : Char} (h : IsWordChar c) : isSpace c = false := by
  by_contra hspace
  simp only [isSpace, Bool.not_eq_false, Bool.or_eq_true, decide_eq_true_eq] at hspace
  revert h
  rcases hspace with ((rfl | rfl) | rfl) | rfl <;> unfold IsWordChar <;> decide

theorem readScalar_leafReads (hrepr : ReprReads readFloat) (hescape : Escapes escape) :
    LeafReads (Loaded readFloat) (scalarTextWith escape) (readScalar readFloat) where
  read := readScalar_text hrepr hescape
  head := by
    intro l _
    by_cases hstr : ∃ s, l = .str s
    · rcases hstr with ⟨s, rfl⟩
      exact ⟨'"', _, rfl, rfl, by decide, by decide, by decide⟩
    · have htext : scalarTextWith escape l = scalarText l := by
        cases l with
        | str s => exact absurd ⟨s, rfl⟩ hstr
        | _ => rfl
      rcases scalarText_head l with ⟨c, rest, hhead, hbracket, hbrace, hclose, _⟩
      have hword := (scalarText_word (not_exists.1 hstr)).2 c (by rw [hhead]; exact List.mem_cons_self)
      exact ⟨c, rest, htext.trans hhead, isSpace_of_isWordChar hword, hbrace, hbracket, hclose⟩

theorem readKey_keyReads (hescape : Escapes escape) :
    KeyReads (fun k : String => Utf16.encode k.toList) (quoteWith escape) readKey where
  read := by
    intro k x
    have hunits := scanString_flatMap hescape k.toList x
    rw [quoteWith, List.cons_append, List.append_assoc, List.singleton_append, readKey, hunits]
  head := fun k => ⟨'"', _, rfl, rfl, by decide⟩

end Escapes

/-- Distinct keys are kept as they are. -/
theorem foldl_setItem (before : List (String × PyJson)) {members : List (String × PyJson)}
    (h : ((before ++ members).map Prod.fst).Nodup) :
    members.foldl setItem before = before ++ members := by
  induction members generalizing before with
  | nil => rw [List.foldl_nil, List.append_nil]
  | cons m members ih =>
      have hnew : m.1 ∉ before.map Prod.fst := by
        intro hmem
        rw [List.map_append, List.map_cons] at h
        exact (List.disjoint_of_nodup_append h) hmem List.mem_cons_self
      have hset : setItem before m = before ++ [m] := if_neg hnew
      rw [List.foldl_cons, hset, ih, List.append_assoc, List.singleton_append]
      rw [List.append_assoc, List.singleton_append]
      exact h

theorem dictOf_nodup {members : List (String × PyJson)} (h : (members.map Prod.fst).Nodup) :
    dictOf (members.map fun m => (Utf16.encode m.1.toList, m.2)) = .obj members := by
  have hkeys : ∀ members : List (String × PyJson),
      (members.map fun m => (Utf16.encode m.1.toList, m.2)).mapM
        (fun p => (strOf p.1).map fun k => (k, p.2)) = some members := by
    intro members
    induction members with
    | nil => rfl
    | cons m members ih =>
        have hstr := strOf_encode m.1.toList
        rw [String.ofList_toList] at hstr
        rw [List.map_cons, List.mapM_cons, hstr, ih]
        rfl
  rw [dictOf, hkeys]
  exact congrArg obj (foldl_setItem [] h)

/-- A value with distinct keys is read from its text, however that is laid out and escaped. -/
theorem loads_lay {layout : Layout} {escape : Char → List Char} (hrepr : ReprReads readFloat)
    (hescape : Escapes escape) {v : PyJson} (hv : v.EveryLeaf (Loaded readFloat))
    (hnodup : v.EveryObject List.Nodup) :
    loads readFloat (v.lay layout (scalarTextWith escape) (quoteWith escape) 0) = some v :=
  readText_lay readScalar_consumes readKey_consumes (readScalar_leafReads hrepr hescape)
    (readKey_keyReads hescape) (fun _ => dictOf_nodup) hv hnodup

/-! ## What is read -/

theorem loaded_readScalar {text : List Char} {r : Scalar × List Char}
    (h : readScalar readFloat text = some r) : Loaded readFloat r.1 := by
  rintro x hx
  unfold readScalar at h
  split at h
  · rcases Option.map_eq_some_iff.1 h with ⟨r', _, rfl⟩
    simp only [strScalar] at hx
    split at hx <;> cases hx
  · rcases Option.or_eq_some_iff.1 h with hnumber | ⟨_, hconstant⟩
    · rcases Option.map_eq_some_iff.1 hnumber with ⟨int, _, rfl⟩
      simp only [numberOf] at hx
      split_ifs at hx
      split at hx
      · next y hy =>
          cases hx
          exact ⟨_, hy⟩
      · cases hx
    · -- no constant is a `float`
      rcases List.exists_of_findSome?_eq_some hconstant with ⟨c, hc, hread⟩
      split_ifs at hread
      cases hread
      have hnone : ∀ c ∈ constants, ∀ x, c.2 ≠ .float x := by simp [constants]
      exact (hnone c hc x hx).elim

theorem nodup_setItem {members : List (String × PyJson)} (h : (members.map Prod.fst).Nodup)
    (m : String × PyJson) : ((setItem members m).map Prod.fst).Nodup := by
  unfold setItem
  split_ifs with hmem
  · have hkeys : (members.map fun e => if e.1 = m.1 then m else e).map Prod.fst =
        members.map Prod.fst := by
      rw [List.map_map]
      refine List.map_congr_left fun e _ => ?_
      rw [Function.comp_apply]
      split_ifs with hkey
      · exact hkey.symm
      · rfl
    rw [hkeys]
    exact h
  · rw [List.map_append]
    exact List.nodup_append.2 ⟨h, List.nodup_singleton _, by
      rintro k hk _ hkey rfl
      rw [List.map_singleton, List.mem_singleton] at hkey
      exact hmem (hkey ▸ hk)⟩

theorem mem_setItem {members : List (String × PyJson)} {m e : String × PyJson}
    (h : e ∈ setItem members m) : e ∈ members ∨ e = m := by
  unfold setItem at h
  split_ifs at h
  · rcases List.mem_map.1 h with ⟨e', he', rfl⟩
    split_ifs
    · exact .inr rfl
    · exact .inl he'
  · rcases List.mem_append.1 h with hold | hnew
    · exact .inl hold
    · exact .inr (List.mem_singleton.1 hnew)

/-- The keys of a `dict` are distinct, and its values are among those it is made of. -/
theorem foldl_setItem_spec (pairs before : List (String × PyJson))
    (h : (before.map Prod.fst).Nodup) :
    ((pairs.foldl setItem before).map Prod.fst).Nodup ∧
      ∀ e ∈ pairs.foldl setItem before, e ∈ before ∨ e ∈ pairs := by
  induction pairs generalizing before with
  | nil => exact ⟨h, fun e he => .inl he⟩
  | cons m pairs ih =>
      rcases ih (setItem before m) (nodup_setItem h m) with ⟨hnodup, hmem⟩
      refine ⟨hnodup, fun e he => ?_⟩
      rcases hmem e he with hset | hlater
      · rcases mem_setItem hset with hold | rfl
        · exact .inl hold
        · exact .inr List.mem_cons_self
      · exact .inr (List.mem_cons_of_mem _ hlater)

theorem mem_of_mapM_key {pairs : List (List UInt16 × PyJson)} {named : List (String × PyJson)}
    (h : (pairs.mapM fun p => (strOf p.1).map fun k => (k, p.2)) = some named)
    {m : String × PyJson} (hm : m ∈ named) : ∃ p ∈ pairs, p.2 = m.2 := by
  induction pairs generalizing named with
  | nil =>
      cases h
      cases hm
  | cons p pairs ih =>
      rw [List.mapM_cons] at h
      rcases Option.bind_eq_some_iff.1 h with ⟨m', hname, hrest⟩
      rcases Option.bind_eq_some_iff.1 hrest with ⟨named', hnamed, heq⟩
      cases heq
      rcases List.mem_cons.1 hm with rfl | htail
      · rcases Option.map_eq_some_iff.1 hname with ⟨k, _, rfl⟩
        exact ⟨p, List.mem_cons_self, rfl⟩
      · rcases ih hnamed htail with ⟨p', hp', hvalue⟩
        exact ⟨p', List.mem_cons_of_mem _ hp', hvalue⟩

/-- A `dict` has distinct keys and values of the pairs, unless it cannot be encoded. -/
theorem dictOf_cases (pairs : List (List UInt16 × PyJson)) :
    dictOf pairs = .leaf .unencodable ∨ ∃ members, dictOf pairs = .obj members ∧
      (members.map Prod.fst).Nodup ∧ ∀ m ∈ members, ∃ p ∈ pairs, p.2 = m.2 := by
  rcases hkeys : pairs.mapM fun p => (strOf p.1).map fun k => (k, p.2) with _ | named
  · exact .inl (by rw [dictOf, hkeys])
  · rcases foldl_setItem_spec named [] List.nodup_nil with ⟨hnodup, hmem⟩
    refine .inr ⟨named.foldl setItem [], by rw [dictOf, hkeys], hnodup, fun m hm => ?_⟩
    rcases hmem m hm with hnil | hnamed
    · cases hnil
    · exact mem_of_mapM_key hkeys hnamed

/-- A loaded value has distinct keys, and only such scalars as can be read. -/
theorem loads_spec {text : List Char} {v : PyJson} (h : loads readFloat text = some v) :
    v.EveryObject List.Nodup ∧ v.EveryLeaf (Loaded readFloat) := by
  refine readText_induction (P := fun v => v.EveryObject List.Nodup ∧ v.EveryLeaf (Loaded readFloat))
    (fun text r hread => ?_) (fun items hitems => ?_) (fun pairs hpairs => ?_) h
  · exact ⟨trivial, loaded_readScalar hread⟩
  · exact ⟨everyItem_iff.2 fun t ht => (hitems t ht).1, everyLeafItem_iff.2 fun t ht => (hitems t ht).2⟩
  · rcases dictOf_cases pairs with hlone | ⟨members, hdict, hnodup, hvalues⟩
    · rw [hlone]
      exact ⟨trivial, fun x hx => by cases hx⟩
    · rw [hdict]
      refine ⟨⟨hnodup, everyMember_iff.2 fun m hm => ?_⟩, everyLeafMember_iff.2 fun m hm => ?_⟩
      · rcases hvalues m hm with ⟨p, hp, heq⟩
        rw [← heq]
        exact (hpairs p hp).1
      · rcases hvalues m hm with ⟨p, hp, heq⟩
        rw [← heq]
        exact (hpairs p hp).2

theorem printable_iff {l : Scalar} :
    Printable readFloat l ↔ Loaded readFloat l ∧ encodable (.leaf l) = true := by
  cases l with
  | float x => simp [Printable, Loaded, encodable]
  | unencodable => simp [Printable, encodable]
  | none => simp [Printable, Loaded, encodable]
  | bool b => simp [Printable, Loaded, encodable]
  | int n => simp [Printable, Loaded, encodable]
  | str s => simp [Printable, Loaded, encodable]

mutual

/-- What was read can be printed exactly if it can be encoded. -/
theorem everyLeaf_printable_iff : ∀ {v : PyJson}, v.EveryLeaf (Printable readFloat) ↔
    v.EveryLeaf (Loaded readFloat) ∧ encodable v = true
  | .leaf _ => printable_iff
  | .arr _ => everyLeafItem_printable_iff
  | .obj _ => everyLeafMember_printable_iff

theorem everyLeafItem_printable_iff : ∀ {items : List PyJson},
    EveryLeafItem (Printable readFloat) items ↔
      EveryLeafItem (Loaded readFloat) items ∧ encodableItems items = true
  | [] => by simp [EveryLeafItem, encodableItems]
  | v :: rest => by
      rw [EveryLeafItem, EveryLeafItem, encodableItems, Bool.and_eq_true, everyLeaf_printable_iff,
        everyLeafItem_printable_iff, and_and_and_comm]

theorem everyLeafMember_printable_iff : ∀ {members : List (String × PyJson)},
    EveryLeafMember (Printable readFloat) members ↔
      EveryLeafMember (Loaded readFloat) members ∧ encodableMembers members = true
  | [] => by simp [EveryLeafMember, encodableMembers]
  | (_, v) :: rest => by
      rw [EveryLeafMember, EveryLeafMember, encodableMembers, Bool.and_eq_true,
        everyLeaf_printable_iff, everyLeafMember_printable_iff, and_and_and_comm]

end

/-- A value that `canonical_json` can print is read from its text. -/
theorem loads_text (hrepr : ReprReads readFloat) {v : PyJson} (hv : v.EveryLeaf (Printable readFloat))
    (hnodup : v.EveryObject List.Nodup) :
    loads readFloat (v.text scalarText quoteStr) = some v := by
  have hread : loads readFloat (v.lay .compact (scalarTextWith escapeChar) (quoteWith escapeChar) 0) =
      some v := loads_lay hrepr escapes_escapeChar (everyLeaf_printable_iff.1 hv).1 hnodup
  rwa [lay_compact, scalarTextWith_escapeChar] at hread

end Numbers

end Python
end ControlDB
