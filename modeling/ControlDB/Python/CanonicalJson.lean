import ControlDB.Library.JsonTree
import ControlDB.Core.HashChain

/-!
# JSON values in Python, canonical JSON and hashes

`canonical_json`, `sha256_hex` and `compute_payload_hash` of `hashing.py`, which the collector and
the SDK share.  `json.dumps` and `str.encode` are the standard library's; the digest of `hashlib`
is the parameter `sha256`.

A finite `float` is kept as its `repr`, the text `json.dumps` prints for it.  `None` is the JSON
value `null`.
-/

namespace ControlDB
namespace Python

open Library

/-- The `repr` of a finite `float`: digits and signs, with a point or an exponent. -/
structure FloatRepr where
  chars : List Char
  alphabet : ∀ c ∈ chars, c.isDigit ∨ c = '-' ∨ c = '+' ∨ c = '.' ∨ c = 'e'
  fractional : ∃ c ∈ chars, c = '.' ∨ c = 'e'
  deriving DecidableEq

/-- A value without items.  `unencodable` stands for what `canonical_json` raises on: a `nan` or
an infinity, or a `str` with a lone surrogate. -/
inductive Scalar
  | none
  | bool (b : Bool)
  | int (n : Int)
  | float (x : FloatRepr)
  | str (s : String)
  | unencodable
  deriving DecidableEq

/-- A JSON value; the members of a `dict` are in insertion order. -/
abbrev PyJson := JsonTree Scalar String

namespace PyJson

def none : PyJson := .leaf .none
def bool (b : Bool) : PyJson := .leaf (.bool b)
def int (n : Int) : PyJson := .leaf (.int n)
def str (s : String) : PyJson := .leaf (.str s)

/-- A text or `None`. -/
def optStr : Option String → PyJson
  | some s => str s
  | .none => none

/-- An integer or `None`. -/
def optInt : Option Int → PyJson
  | some n => int n
  | .none => none

/-- `value is None`. -/
def isNone : PyJson → Bool
  | .leaf .none => true
  | _ => false

/-- `bool(value)`.  Of the finite floats only `0.0` and `-0.0` have no digit but zeros. -/
def truthy : PyJson → Bool
  | .leaf .none => false
  | .leaf (.bool b) => b
  | .leaf (.int n) => decide (n ≠ 0)
  | .leaf (.float x) => x.chars.any fun c => c.isDigit && decide (c ≠ '0')
  | .leaf (.str s) => decide (s ≠ "")
  | .leaf .unencodable => true
  | .arr items => !items.isEmpty
  | .obj members => !members.isEmpty

/-- `dict.get(key)` on the members of a `dict`. -/
def get (members : List (String × PyJson)) (key : String) : PyJson :=
  (members.lookup key).getD none

end PyJson

/-! ## `json.dumps` -/

/-- `ESCAPE_DCT` of the `json` package, without `ensure_ascii`. -/
def escapeChar (c : Char) : List Char :=
  if c = '"' then ['\\', '"']
  else if c = '\\' then ['\\', '\\']
  else if c = '\n' then ['\\', 'n']
  else if c = '\r' then ['\\', 'r']
  else if c = '\t' then ['\\', 't']
  else if c = Char.ofNat 0x0c then ['\\', 'f']
  else if c = Char.ofNat 0x08 then ['\\', 'b']
  else if c.toNat < 0x20 then
    ['\\', 'u', '0', '0', Nat.digitChar (c.toNat / 16), Nat.digitChar (c.toNat % 16)]
  else [c]

def quoteStr (s : String) : List Char :=
  '"' :: (s.toList.flatMap escapeChar ++ ['"'])

/-- `int.__repr__`. -/
def intText (n : Int) : List Char :=
  if n < 0 then '-' :: Nat.toDigits 10 n.natAbs else Nat.toDigits 10 n.natAbs

def scalarText : Scalar → List Char
  | .none => ['n', 'u', 'l', 'l']
  | .bool true => ['t', 'r', 'u', 'e']
  | .bool false => ['f', 'a', 'l', 's', 'e']
  | .int n => intText n
  | .float x => x.chars
  | .str s => quoteStr s
  | .unencodable => ['N', 'a', 'N']

/-- `json.dumps(value, sort_keys=True, separators=(",", ":"), ensure_ascii=False)`. -/
def dumps (j : PyJson) : List Char :=
  j.sortKeys.text scalarText quoteStr

mutual

/-- No part of the value makes `canonical_json` raise. -/
def encodable : PyJson → Bool
  | .leaf l => decide (l ≠ .unencodable)
  | .arr items => encodableItems items
  | .obj members => encodableMembers members

def encodableItems : List PyJson → Bool
  | [] => true
  | t :: rest => encodable t && encodableItems rest

def encodableMembers : List (String × PyJson) → Bool
  | [] => true
  | (_, t) :: rest => encodable t && encodableMembers rest

end

@[simp] theorem encodable_str (s : String) : encodable (PyJson.str s) = true := rfl

@[simp] theorem encodable_optStr (s : Option String) : encodable (PyJson.optStr s) = true := by
  cases s <;> rfl

@[simp] theorem encodable_optInt (n : Option Int) : encodable (PyJson.optInt n) = true := by
  cases n <;> rfl

/-! ## `hashing.py` -/

/-- `str.encode("utf-8")`. -/
def encodeUtf8 (text : List Char) : Bytes :=
  text.flatMap String.utf8EncodeChar

/-- The bytes of `canonical_json`, or `none` where it raises. -/
def canonicalJson (value : PyJson) : Option Bytes :=
  if encodable value then some (encodeUtf8 (dumps value)) else .none

def hexdigest (digest : Vector UInt8 32) : List Char :=
  digest.toList.flatMap fun b => [Nat.digitChar (b.toNat / 16), Nat.digitChar (b.toNat % 16)]

variable (sha256 : Sha256)

def sha256Hex (data : Bytes) : String :=
  "sha256:" ++ String.ofList (hexdigest (sha256 data))

def computeEventHash (event : List (String × PyJson)) : Option String :=
  (canonicalJson (.obj (event.filter fun m => decide (m.1 ≠ "event_hash")))).map (sha256Hex sha256)

def computePayloadHash (payload : PyJson) : Option String :=
  (canonicalJson (if payload.isNone then .obj [] else payload)).map (sha256Hex sha256)

end Python
end ControlDB
