import ControlDB.Python.CanonicalJson

/-!
# YAML values in Python

The values `yaml.safe_load` builds, the Python operators the policy engine applies to them, and
their way into a JSON response.  A `float` is finite, as `canonical_json` raises on the others when
a policy is loaded, and for the same reason the keys of a mapping are those JSON knows.
-/

namespace ControlDB
namespace Python

open Library

/-- The exceptions that Python's operators raise on values they do not fit. -/
inductive PyException
  | typeError
  | valueError
  | attributeError
  deriving DecidableEq

/-- A value without items; a timestamp is kept as its text. -/
inductive YamlScalar
  | json (s : Scalar)
  | timestamp (text : {s : String // s ≠ ""})
  | binary (bytes : Bytes)

/-- A YAML value; the members of a mapping are in the order of the file. -/
abbrev Yaml := JsonTree YamlScalar Scalar

namespace Yaml

def none : Yaml := .leaf (.json .none)
def bool (b : Bool) : Yaml := .leaf (.json (.bool b))
def int (n : Int) : Yaml := .leaf (.json (.int n))
def str (s : String) : Yaml := .leaf (.json (.str s))

/-- `bool(value)`. -/
def truthy : Yaml → Bool
  | .leaf (.json s) => PyJson.truthy (.leaf s)
  | .leaf (.timestamp _) => true
  | .leaf (.binary bytes) => !bytes.isEmpty
  | .arr items => !items.isEmpty
  | .obj members => !members.isEmpty

/-- `mapping[key]` for a text, if the key is there. -/
def get (members : List (Scalar × Yaml)) (key : String) : Option Yaml :=
  members.lookup (.str key)

end Yaml

/-! ## Comparisons -/

/-- The number a `repr` such as `-1.5e-07` stands for. -/
def FloatRepr.value (x : FloatRepr) : ℚ :=
  let mantissa := x.chars.takeWhile fun c => c ≠ 'e'
  let exponent := x.chars.dropWhile fun c => c ≠ 'e'
  let whole := (mantissa.takeWhile fun c => c ≠ '.').filter Char.isDigit
  let fraction := (mantissa.dropWhile fun c => c ≠ '.').filter Char.isDigit
  let digits : ℚ := Nat.ofDigitChars 10 (whole ++ fraction) 0
  let power : Nat := Nat.ofDigitChars 10 (exponent.filter Char.isDigit) 0
  let magnitude :=
    if exponent.contains '-' then digits / 10 ^ (fraction.length + power)
    else digits * 10 ^ power / 10 ^ fraction.length
  if x.chars.head? = some '-' then -magnitude else magnitude

/-- A `bool`, `int` or `float` as a number. -/
def number : Scalar → Option ℚ
  | .bool b => some (if b then 1 else 0)
  | .int n => some n
  | .float x => some x.value
  | _ => .none

/-- `a == b`; numbers of different types are compared by value. -/
def scalarEq (a b : Scalar) : Bool :=
  match number a, number b with
  | some x, some y => decide (x = y)
  | .none, .none => decide (a = b)
  | _, _ => false

mutual

/-- `actual == expected`, where the first value came out of JSON. -/
def pyEq : PyJson → Yaml → Bool
  | .leaf a, .leaf (.json b) => scalarEq a b
  | .arr items, .arr items' => eqItems items items'
  | .obj members, .obj members' =>
      decide (members.length = members'.length) && eqMembers members members'
  | _, _ => false

def eqItems : List PyJson → List Yaml → Bool
  | [], [] => true
  | t :: rest, t' :: rest' => pyEq t t' && eqItems rest rest'
  | _, _ => false

/-- Every member has an equal one of the same key. -/
def eqMembers : List (String × PyJson) → List (Scalar × Yaml) → Bool
  | [], _ => true
  | (k, t) :: rest, members' =>
      (match Yaml.get members' k with
        | some t' => pyEq t t'
        | .none => false) && eqMembers rest members'

end

/-- `isinstance(actual, (int, float)) and actual > bound`, and the other three comparisons. -/
def compareNumber (holds : ℚ → ℚ → Bool) (actual : PyJson) (bound : Yaml) :
    Except PyException Bool :=
  match actual with
  | .leaf a =>
      match number a with
      | .none => .ok false
      | some x =>
          match bound with
          | .leaf (.json b) =>
              match number b with
              | some y => .ok (holds x y)
              | .none => .error .typeError
          | _ => .error .typeError
  | _ => .ok false

/-- `actual in container`: an item of a list, a key of a mapping, a part of a text, a byte. -/
def pyIn (actual : PyJson) : Yaml → Except PyException Bool
  | .arr items => .ok (items.any (pyEq actual))
  | .obj members =>
      match actual with
      | .leaf a => .ok (members.any fun m => scalarEq a m.1)
      | _ => .error .typeError
  | .leaf (.json (.str s)) =>
      match actual with
      | .leaf (.str part) => .ok (decide (part.toList <:+: s.toList))
      | _ => .error .typeError
  | .leaf (.binary bytes) =>
      match actual with
      | .leaf (.int n) =>
          if 0 ≤ n ∧ n < 256 then .ok (bytes.any fun b => decide ((b.toNat : Int) = n))
          else .error .valueError
      | .leaf (.bool b) => .ok (bytes.any fun byte => decide (byte.toNat = b.toNat))
      | _ => .error .typeError
  | _ => .error .typeError

/-! ## Iterating -/

/-- The items a `for` statement takes from a value. -/
def iterate : Yaml → Except PyException (List Yaml)
  | .arr items => .ok items
  | .obj members => .ok (members.map fun m => .leaf (.json m.1))
  | .leaf (.json (.str s)) => .ok (s.toList.map fun c => Yaml.str (String.singleton c))
  | .leaf (.binary bytes) => .ok (bytes.map fun b => Yaml.int b.toNat)
  | _ => .error .typeError

/-- `d[key] = value`: an equal key keeps its place. -/
def putMember (members : List (Scalar × Yaml)) (key : Scalar) (value : Yaml) :
    List (Scalar × Yaml) :=
  if members.any fun m => scalarEq m.1 key then
    members.map fun m => if scalarEq m.1 key then (m.1, value) else m
  else members ++ [(key, value)]

/-- One item of the argument of `dict`, which has to be a pair. -/
def putPair (members : List (Scalar × Yaml)) (item : Yaml) :
    Except PyException (List (Scalar × Yaml)) := do
  match ← iterate item with
  | [.leaf (.json key), value] => .ok (putMember members key value)
  | [_, _] => .error .typeError
  | _ => .error .valueError

/-- `dict(value)`.  A timestamp or binary value as the key of a pair is not modelled: no mapping has
one. -/
def toDict : Yaml → Except PyException (List (Scalar × Yaml))
  | .obj members => .ok members
  | value => do (← iterate value).foldlM putPair []

/-! ## Into a JSON response -/

/-- The text of a key. -/
def keyText : Scalar → Option String
  | .str s => some s
  | .none => some "None"
  | .bool b => some (if b then "true" else "false")
  | .int n => some (String.ofList (intText n))
  | .float x => some (String.ofList x.chars)
  | .unencodable => .none

/-- `bytes.decode("utf-8")`, or `none` where it raises. -/
def decodeUtf8 (bytes : Bytes) : Option String :=
  String.fromUTF8? ⟨bytes.toArray⟩

mutual

/-- A value in the body of a response, or `none` where the encoder raises. -/
def jsonable : Yaml → Option PyJson
  | .leaf (.json .unencodable) => .none
  | .leaf (.json s) => some (.leaf s)
  | .leaf (.timestamp text) => some (PyJson.str text.1)
  | .leaf (.binary bytes) => (decodeUtf8 bytes).map PyJson.str
  | .arr items => (jsonableItems items).map .arr
  | .obj members => (jsonableMembers members).map .obj

def jsonableItems : List Yaml → Option (List PyJson)
  | [] => some []
  | t :: rest =>
      match jsonable t, jsonableItems rest with
      | some j, some js => some (j :: js)
      | _, _ => .none

def jsonableMembers : List (Scalar × Yaml) → Option (List (String × PyJson))
  | [] => some []
  | (k, t) :: rest =>
      match keyText k, jsonable t, jsonableMembers rest with
      | some key, some j, some js => some ((key, j) :: js)
      | _, _, _ => .none

end

/-! ## What a response keeps of a value -/

theorem decodeUtf8_eq_empty {bytes : Bytes} {s : String} (h : decodeUtf8 bytes = some s) :
    s = "" ↔ bytes = [] := by
  unfold decodeUtf8 String.fromUTF8? at h
  split at h
  · next hvalid =>
      simp only [Option.some.injEq] at h
      -- the decoded text has the bytes it was read from
      have hbytes : s.toByteArray = ⟨bytes.toArray⟩ := by
        subst h
        rfl
      constructor
      · intro hs
        subst hs
        have hdata := congrArg (fun b : ByteArray => b.data.toList) hbytes
        simpa using hdata.symm
      · intro hnil
        subst hnil
        exact String.toByteArray_inj.1 (hbytes.trans rfl)
  · simp at h

/-- A value and its text in a response have the same truth value. -/
theorem jsonable_truthy {value : Yaml} {doc : PyJson} (h : jsonable value = some doc) :
    doc.truthy = value.truthy := by
  cases value with
  | leaf l =>
      cases l with
      | json s =>
          cases s <;> simp [jsonable] at h <;> subst h <;> rfl
      | timestamp text =>
          simp only [jsonable, Option.some.injEq] at h
          subst h
          -- the text of a date is not empty, and every date is true
          simpa [PyJson.truthy, PyJson.str, Yaml.truthy] using text.2
      | binary bytes =>
          simp only [jsonable, Option.map_eq_some_iff] at h
          rcases h with ⟨s, hs, rfl⟩
          -- bytes are false exactly if their text is
          have hempty := decodeUtf8_eq_empty hs
          cases bytes with
          | nil => simpa [PyJson.truthy, PyJson.str, Yaml.truthy] using hempty
          | cons b rest => simpa [PyJson.truthy, PyJson.str, Yaml.truthy] using hempty
  | arr items =>
      simp only [jsonable, Option.map_eq_some_iff] at h
      rcases h with ⟨js, hjs, rfl⟩
      cases items with
      | nil =>
          simp only [jsonableItems, Option.some.injEq] at hjs
          subst hjs
          rfl
      | cons t rest =>
          simp only [jsonableItems] at hjs
          split at hjs
          · simp only [Option.some.injEq] at hjs
            subst hjs
            rfl
          · simp at hjs
  | obj members =>
      simp only [jsonable, Option.map_eq_some_iff] at h
      rcases h with ⟨js, hjs, rfl⟩
      cases members with
      | nil =>
          simp only [jsonableMembers, Option.some.injEq] at hjs
          subst hjs
          rfl
      | cons m rest =>
          simp only [jsonableMembers] at hjs
          split at hjs
          · simp only [Option.some.injEq] at hjs
            subst hjs
            rfl
          · simp at hjs

/-- Only `False` is sent as `false`. -/
theorem jsonable_eq_false_iff {value : Yaml} {doc : PyJson} (h : jsonable value = some doc) :
    doc = PyJson.bool false ↔ value = Yaml.bool false := by
  cases value with
  | leaf l =>
      cases l with
      | json s => cases s <;> simp [jsonable] at h <;> subst h <;> simp [PyJson.bool, Yaml.bool]
      | timestamp text =>
          simp only [jsonable, Option.some.injEq] at h
          subst h
          simp [PyJson.str, PyJson.bool, Yaml.bool]
      | binary bytes =>
          simp only [jsonable, Option.map_eq_some_iff] at h
          rcases h with ⟨s, _, rfl⟩
          simp [PyJson.str, PyJson.bool, Yaml.bool]
  | arr items =>
      simp only [jsonable, Option.map_eq_some_iff] at h
      rcases h with ⟨js, _, rfl⟩
      simp [PyJson.bool, Yaml.bool]
  | obj members =>
      simp only [jsonable, Option.map_eq_some_iff] at h
      rcases h with ⟨js, _, rfl⟩
      simp [PyJson.bool, Yaml.bool]

mutual

theorem jsonable_encodable (value : Yaml) {doc : PyJson} (h : jsonable value = some doc) :
    encodable doc = true := by
  cases value with
  | leaf l =>
      cases l with
      | json s => cases s <;> simp [jsonable] at h <;> subst h <;> simp [encodable]
      | timestamp text =>
          simp only [jsonable, Option.some.injEq] at h
          subst h
          simp [encodable, PyJson.str]
      | binary bytes =>
          simp only [jsonable, Option.map_eq_some_iff] at h
          rcases h with ⟨s, _, rfl⟩
          simp [encodable, PyJson.str]
  | arr items =>
      simp only [jsonable, Option.map_eq_some_iff] at h
      rcases h with ⟨js, hjs, rfl⟩
      simpa [encodable] using jsonableItems_encodable items hjs
  | obj members =>
      simp only [jsonable, Option.map_eq_some_iff] at h
      rcases h with ⟨js, hjs, rfl⟩
      simpa [encodable] using jsonableMembers_encodable members hjs

theorem jsonableItems_encodable (items : List Yaml) {docs : List PyJson}
    (h : jsonableItems items = some docs) : encodableItems docs = true := by
  cases items with
  | nil =>
      simp only [jsonableItems, Option.some.injEq] at h
      subst h
      rfl
  | cons t rest =>
      simp only [jsonableItems] at h
      split at h
      · next j js hj hjs =>
          simp only [Option.some.injEq] at h
          subst h
          simp [encodableItems, jsonable_encodable t hj, jsonableItems_encodable rest hjs]
      · simp at h

theorem jsonableMembers_encodable (members : List (Scalar × Yaml))
    {docs : List (String × PyJson)} (h : jsonableMembers members = some docs) :
    encodableMembers docs = true := by
  rcases members with _ | ⟨⟨k, t⟩, rest⟩
  · simp only [jsonableMembers, Option.some.injEq] at h
    subst h
    rfl
  · simp only [jsonableMembers] at h
    split at h
    · next key j js _ hj hjs =>
        simp only [Option.some.injEq] at h
        subst h
        simp [encodableMembers, jsonable_encodable t hj, jsonableMembers_encodable rest hjs]
    · simp at h

end

/-- A text that is no number and none of the constants: as the text of a key it stands for itself. -/
def isName (k : String) : Bool :=
  !(["None", "true", "false"].contains k) &&
    k.toList.any fun c => !(c.isDigit || ['-', '+', '.', 'e'].contains c)

theorem keyText_eq_some {key : Scalar} {k : String} (hk : isName k = true)
    (h : keyText key = some k) : key = .str k := by
  simp only [isName, Bool.and_eq_true, List.any_eq_true, Bool.not_eq_true', Bool.or_eq_false_iff,
    List.contains_eq_mem, decide_eq_false_iff_not] at hk
  rcases hk with ⟨hconstant, c, hc, hdigit, hsign⟩
  cases key with
  | none =>
      simp only [keyText, Option.some.injEq] at h
      subst h
      exact absurd List.mem_cons_self hconstant
  | bool b =>
      cases b <;> simp [keyText] at h <;> subst h <;> exact absurd (by decide) hconstant
  | int n =>
      simp only [keyText, Option.some.injEq] at h
      subst h
      -- a name has a character that is in no number
      have hdigits : ∀ m : Nat, c ∉ Nat.toDigits 10 m := by
        intro m hmem
        have := Nat.isDigit_of_mem_toDigits (by decide) (by decide) hmem
        simp [hdigit] at this
      simp only [String.toList_ofList, intText] at hc
      split at hc
      · rcases List.mem_cons.1 hc with rfl | hc
        · exact absurd List.mem_cons_self hsign
        · exact absurd hc (hdigits _)
      · exact absurd hc (hdigits _)
  | float x =>
      simp only [keyText, Option.some.injEq] at h
      subst h
      simp only [String.toList_ofList] at hc
      rcases x.alphabet c hc with h | h | h | h | h
      · simp [hdigit] at h
      all_goals exact absurd (by simp [h]) hsign
  | str s =>
      simp only [keyText, Option.some.injEq] at h
      rw [h]
  | unencodable => simp [keyText] at h

/-- A member of a response under a name is the member of the mapping. -/
theorem lookup_jsonableMembers {members : List (Scalar × Yaml)} {docs : List (String × PyJson)}
    {k : String} (hk : isName k = true) (h : jsonableMembers members = some docs) :
    docs.lookup k = (Yaml.get members k).bind jsonable := by
  induction members generalizing docs with
  | nil =>
      simp only [jsonableMembers, Option.some.injEq] at h
      subst h
      rfl
  | cons m rest ih =>
      rcases m with ⟨key, t⟩
      simp only [jsonableMembers] at h
      split at h
      · next text j js htext hj hjs =>
          simp only [Option.some.injEq] at h
          subst h
          by_cases hkey : key = .str k
          · have htextk : text = k := by
              subst hkey
              simpa [keyText] using htext.symm
            simp [Yaml.get, hkey, htextk, hj]
          -- another key has another text
          · have htextk : (k == text) = false :=
              beq_eq_false_iff_ne.2 fun heq => hkey (keyText_eq_some hk (heq ▸ htext))
            have hkeyk : (Scalar.str k == key) = false :=
              beq_eq_false_iff_ne.2 fun heq => hkey heq.symm
            simpa [Yaml.get, List.lookup_cons, htextk, hkeyk] using ih hjs
      · simp at h

/-- Where a mapping can be sent, so can each of its members. -/
theorem jsonable_of_get {members : List (Scalar × Yaml)} {docs : List (String × PyJson)}
    {k : String} {value : Yaml} (h : jsonableMembers members = some docs)
    (hget : Yaml.get members k = some value) : ∃ doc, jsonable value = some doc := by
  induction members generalizing docs with
  | nil => simp [Yaml.get] at hget
  | cons m rest ih =>
      rcases m with ⟨key, t⟩
      simp only [jsonableMembers] at h
      split at h
      · next text j js htext hj hjs =>
          simp only [Yaml.get, List.lookup_cons] at hget
          split at hget
          · simp only [Option.some.injEq] at hget
            exact ⟨j, hget ▸ hj⟩
          · exact ih hjs hget
      · simp at h

end Python
end ControlDB
