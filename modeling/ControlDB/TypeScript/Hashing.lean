import ControlDB.Library.Utf16
import ControlDB.Library.JsonTree
import ControlDB.Python.CanonicalJson

/-!
# Canonical JSON and hashes of the TypeScript SDK

`canonicalJson`, `sha256Hex`, `computePayloadHash` and `computeEventHash` of `hashing.ts`.  A
JavaScript string is a list of UTF-16 code units, which need not be a text; strings are compared by
their units.  `JSON.stringify`, `Array.prototype.sort` and the conversion of a string to UTF-8 are
the language's and Node's; the digest of `createHash` is the parameter `sha256`.

A finite number that is not a safe integer is kept as the text `JSON.stringify` gives it.
-/

namespace ControlDB
namespace TypeScript

open Library Library.Utf16

/-! ## Values -/

abbrev JsString := List UInt16

/-- The units of an ASCII literal. -/
def units (s : String) : JsString :=
  s.toList.map fun c => UInt16.ofNat c.toNat

/-- An integer of absolute value below `2 ^ 53`. -/
structure SafeInteger where
  val : Int
  safe : val.natAbs < 2 ^ 53
  deriving DecidableEq

inductive JsNumber
  | integer (n : SafeInteger)
  | finite (text : JsString)
  | nonFinite
  deriving DecidableEq

/-- A value without items.  `other` stands for a bigint, a symbol or a function, by its
`String(obj)`. -/
inductive JsLeaf
  | undefined
  | null
  | boolean (b : Bool)
  | number (x : JsNumber)
  | string (s : JsString)
  | other (text : JsString)
  deriving DecidableEq

/-- A value of plain objects and arrays; the members of an object are its own enumerable ones. -/
abbrev JsValue := JsonTree JsLeaf JsString

structure TypeError where
  message : String
  deriving DecidableEq

/-! ## `JSON.stringify` -/

/-- `\uXXXX`, in lower case. -/
def unicodeEscape (n : Nat) : JsString :=
  units "\\u" ++ [n / 0x1000, n / 0x100 % 16, n / 0x10 % 16, n % 16].map fun digit =>
    UInt16.ofNat (Nat.digitChar digit).toNat

/-- A code point inside a quoted string. -/
def quotePoint : CodePoint → JsString
  | .scalar c =>
      if c = Char.ofNat 0x08 then units "\\b"
      else if c = '\t' then units "\\t"
      else if c = '\n' then units "\\n"
      else if c = Char.ofNat 0x0c then units "\\f"
      else if c = '\r' then units "\\r"
      else if c = '"' then units "\\\""
      else if c = '\\' then units "\\\\"
      else if c.toNat < 0x20 then unicodeEscape c.toNat
      else encodeChar c
  | .surrogate u => unicodeEscape u.toNat

def stringify (s : JsString) : JsString :=
  units "\"" ++ (codePoints s).flatMap quotePoint ++ units "\""

/-- The decimal of an integer. -/
def integerText (n : Int) : JsString :=
  (if n < 0 then units "-" else []) ++
    (Nat.toDigits 10 n.natAbs).map fun digit => UInt16.ofNat digit.toNat

/-! ## `canonicalJson` -/

/-- `strings.join(",")`. -/
def joinComma (strings : List JsString) : JsString :=
  (units ",").intercalate strings

def leafJson : JsLeaf → Except TypeError JsString
  | .undefined => .ok (units "null")
  | .null => .ok (units "null")
  | .boolean b => .ok (if b then units "true" else units "false")
  | .number .nonFinite => .error ⟨"NaN and Infinity are not allowed in canonical JSON"⟩
  | .number (.integer n) => .ok (integerText n.val)
  | .number (.finite text) => .ok text
  | .string s => .ok (stringify s)
  | .other text => .ok (stringify text)

mutual

def canonicalJson : JsValue → Except TypeError JsString
  | .leaf l => leafJson l
  | .arr array => do
      let items ← itemsJson array
      return units "[" ++ joinComma items ++ units "]"
  | .obj record => do
      -- `canonicalJson(record[key])` of every key
      let values ← valuesJson record
      let sortedKeys := (record.map Prod.fst).insertionSort (· ≤ ·)
      let pairs := sortedKeys.map fun key =>
        stringify key ++ units ":" ++ (values.lookup key).getD []
      return units "\x7b" ++ joinComma pairs ++ units "\x7d"

def itemsJson : List JsValue → Except TypeError (List JsString)
  | [] => .ok []
  | item :: rest => do
      let text ← canonicalJson item
      let texts ← itemsJson rest
      return text :: texts

def valuesJson : List (JsString × JsValue) → Except TypeError (List (JsString × JsString))
  | [] => .ok []
  | (key, value) :: rest => do
      let text ← canonicalJson value
      let texts ← valuesJson rest
      return (key, text) :: texts

end

/-! ## Hashes -/

/-- The UTF-8 bytes of a string; a surrogate that is not part of a pair becomes U+FFFD. -/
def utf8 (s : JsString) : Bytes :=
  (codePoints s).flatMap fun
    | .scalar c => String.utf8EncodeChar c
    | .surrogate _ => [0xef, 0xbf, 0xbd]

variable (sha256 : Sha256)

def sha256Hex (data : JsString) : String :=
  "sha256:" ++ String.ofList (Python.hexdigest (sha256 (utf8 data)))

def computePayloadHash (payload : JsValue) : Except TypeError String := do
  let effective := match payload with
    | .leaf .null => .obj []
    | .leaf .undefined => .obj []
    | value => value
  return sha256Hex sha256 (← canonicalJson effective)

def computeEventHash (envelope : List (JsString × JsValue)) : Except TypeError String := do
  let rest := envelope.filter fun member => decide (member.1 ≠ units "event_hash")
  return sha256Hex sha256 (← canonicalJson (.obj rest))

end TypeScript
end ControlDB
