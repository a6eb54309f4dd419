import ControlDB.Python.CanonicalJson

/-!
# Redaction in the collector

`redaction.py` of the collector.  A payload is the JSON of a request; a compiled pattern is the test
`search`, and `repr` is what `hash` mode takes a digest of.
-/

namespace ControlDB
namespace Collector

open Library Python

/-! ## Rules -/

inductive RedactionMode
  | redact
  | hash
  | drop
  deriving DecidableEq

def RedactionMode.ofString? (mode : String) : Option RedactionMode :=
  if mode = "redact" then some .redact
  else if mode = "hash" then some .hash
  else if mode = "drop" then some .drop
  else none

/-- A rule, which may have neither a field nor a pattern. -/
structure CollectorRedactionRule where
  field : Option String
  search : Option (String → Bool)
  mode : RedactionMode

/-- `bool(text)`, for a text that may be missing. -/
def given : Option String → Bool
  | some s => decide (s ≠ "")
  | none => false

namespace CollectorRedactionRule

/-- `CollectorRedactionRule.__init__`; what is raised is its text. -/
def init (compile : String → Except String (String → Bool)) (field regex : Option String)
    (mode : String) : Except String CollectorRedactionRule := do
  let search ← if given regex then some <$> compile (regex.getD "") else pure none
  match RedactionMode.ofString? mode with
  | none => .error s!"invalid mode {mode}"
  | some mode => .ok { field, search, mode }

/-- `rule.field and rule.field == k`. -/
def hasField (rule : CollectorRedactionRule) (k : String) : Bool :=
  given rule.field && decide (rule.field = some k)

/-- `rule.regex and rule.regex.search(value)`. -/
def matchesText (rule : CollectorRedactionRule) (value : String) : Bool :=
  rule.search.any fun search => search value

end CollectorRedactionRule

/-! ## The walk -/

def redactedText : String :=
  "<redacted>"

section Walk

variable (sha256 : Sha256) (repr : PyJson → String) (rules : List CollectorRedactionRule)

/-- `_apply`. -/
def applyRule (value : PyJson) : RedactionMode → PyJson
  | .drop => PyJson.none
  | .hash => PyJson.str (Python.sha256Hex sha256 (encodeUtf8 (repr value).toList))
  | .redact => PyJson.str redactedText

/-- The loop over the rules for a member, with its flag `matched`. -/
def walkField (k : String) (value walked : PyJson) : PyJson :=
  match rules.find? fun rule => rule.hasField k with
  | some rule => applyRule sha256 repr value rule.mode
  | none => walked

mutual

/-- `_walk`. -/
def walk : PyJson → PyJson
  | .obj members => .obj (walkMembers members)
  | .arr items => .arr (walkItems items)
  | .leaf (.str s) =>
      match rules.find? fun rule => rule.matchesText s with
      | some rule => applyRule sha256 repr (PyJson.str s) rule.mode
      | none => PyJson.str s
  | .leaf l => .leaf l

def walkItems : List PyJson → List PyJson
  | [] => []
  | v :: rest => walk v :: walkItems rest

def walkMembers : List (String × PyJson) → List (String × PyJson)
  | [] => []
  | (k, v) :: rest => (k, walkField sha256 repr rules k v (walk v)) :: walkMembers rest

end

def applyCollectorRedaction (payload : PyJson) : PyJson :=
  match payload with
  | .leaf .none => PyJson.none
  | payload => walk sha256 repr rules payload

end Walk

end Collector
end ControlDB
