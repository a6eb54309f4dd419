import ControlDB.Library.JsonMembers
import ControlDB.Collector.Redaction
import ControlDB.Sdk.Run
import ControlDB.TypeScript.Parity
import ControlDB.TypeScript.Redaction

/-!
# One payload, three redactions

The SDKs and the collector under one list of rules with the modes `redact` and `drop`.  The two in
Python agree.  What they replace by `None` is removed in TypeScript where it is a member, and a member
`__proto__` does not survive the copy there; these are the only differences.
-/

namespace ControlDB
namespace TypeScript

open Library Library.Utf16

/-! ## Payloads and rules -/

inductive PayloadLeaf
  | null
  | bool (b : Bool)
  | int (n : Int)
  | str (s : String)

/-- A JSON payload. -/
abbrev JsonPayload := JsonTree PayloadLeaf String

def PayloadLeaf.toPython : PayloadLeaf → Python.Scalar
  | null => .none
  | bool b => .bool b
  | int n => .int n
  | str s => .str s

theorem PayloadLeaf.toPython_injective : Function.Injective PayloadLeaf.toPython := by
  intro l m h
  cases l <;> cases m <;> simp only [PayloadLeaf.toPython, reduceCtorEq] at h ⊢
  case bool b c => rw [Python.Scalar.bool.inj h]
  case int n k => rw [Python.Scalar.int.inj h]
  case str s r => rw [Python.Scalar.str.inj h]

/-- A leaf in JavaScript, which has a number of its own for every integer. -/
def PayloadLeaf.toJs (readInt : Int → JsNumber) : PayloadLeaf → JsLeaf
  | null => .null
  | bool b => .boolean b
  | int n => .number (readInt n)
  | str s => .string (encode s.toList)

/-- The payload in Python. -/
def payloadToPython (t : JsonPayload) : Python.PyJson :=
  t.map PayloadLeaf.toPython id

/-- The payload in JavaScript. -/
def payloadToJs (readInt : Int → JsNumber) (t : JsonPayload) : JsValue :=
  t.map (PayloadLeaf.toJs readInt) fun key => encode key.toList

/-- A rule that all three accept: it has a field or a pattern, and its mode is `drop` or `redact`. -/
structure SharedRule where
  field : Option String
  regex : Option String
  drop : Bool
  required : Sdk.given field = true ∨ Sdk.given regex = true

namespace SharedRule

def modeText (r : SharedRule) : String :=
  if r.drop then "drop" else "redact"

/-- The first rule for a member is looked for by this test. -/
def hasField (r : SharedRule) (key : String) : Bool :=
  Sdk.given r.field && decide (r.field = some key)

/-- The first rule for a text is looked for by this test; `search pattern text` tells whether the
pattern is found. -/
def matchesText (search : JsString → JsString → Bool) (r : SharedRule) (s : String) : Bool :=
  Sdk.given r.regex && search (encode (r.regex.getD "").toList) (encode s.toList)

end SharedRule

section Agreement

variable (readInt : Int → JsNumber) (search : JsString → JsString → Bool) (sha256 : Sha256)
  (reprValue : Sdk.PyValue → String) (reprJson : Python.PyJson → String) (rules : List SharedRule)

/-- `apply_redaction(payload, [RedactionRule(field, regex, mode), …])` of the Python SDK. -/
def sdkRedaction (t : JsonPayload) : Except Sdk.SdkError Python.PyJson := do
  let rs ← rules.mapM fun r =>
    Sdk.RedactionRule.init (fun p => .ok fun s => search (encode p.toList) (encode s.toList)) r.field
      r.regex r.modeText
  let value ← Sdk.applyRedaction sha256 reprValue rs (Sdk.PyValue.ofJson (payloadToPython t)) []
  return value.toJson

/-- `apply_collector_redaction(payload, [CollectorRedactionRule(field, regex, mode), …])`. -/
def collectorRedaction (t : JsonPayload) : Except String Python.PyJson := do
  let rs ← rules.mapM fun r =>
    Collector.CollectorRedactionRule.init
      (fun p => .ok fun s => search (encode p.toList) (encode s.toList)) r.field r.regex r.modeText
  return Collector.applyCollectorRedaction sha256 reprJson rs (payloadToPython t)

/-- `applyRedaction(payload, [{ field, regex, mode }, …])`. -/
def tsRedaction (t : JsonPayload) : Except Thrown JsValue :=
  applyRedaction (fun p => .ok fun s => search p s) sha256
    (rules.map fun r =>
      { field := r.field.map fun s => encode s.toList
        regex := r.regex.map fun s => encode s.toList
        mode := r.modeText })
    (payloadToJs readInt t)

/-- All three give the JSON value `u`, up to the order of members. -/
structure RedactTo (t u : JsonPayload) : Prop where
  sdk : sdkRedaction search sha256 reprValue rules t = .ok (payloadToPython u)
  collector : collectorRedaction search sha256 reprJson rules t = .ok (payloadToPython u)
  typescript : ∃ r w w', tsRedaction readInt search sha256 rules t = .ok r ∧ reparse r = some w ∧
    reparse (payloadToJs readInt u) = some w' ∧ w.sortKeys = w'.sortKeys

/-! ## The value in Python -/

def SharedRule.replacement (r : SharedRule) : JsonPayload :=
  if r.drop then .leaf .null else .leaf (.str "<redacted>")

mutual

/-- What the rules make of a payload. -/
def redacted : JsonPayload → JsonPayload
  | .leaf (.str s) =>
      match rules.find? fun r => r.matchesText search s with
      | some r => r.replacement
      | none => .leaf (.str s)
  | .leaf l => .leaf l
  | .arr items => .arr (redactedItems items)
  | .obj members => .obj (redactedMembers members)

def redactedItems : List JsonPayload → List JsonPayload
  | [] => []
  | t :: rest => redacted t :: redactedItems rest

def redactedMembers : List (String × JsonPayload) → List (String × JsonPayload)
  | [] => []
  | (k, t) :: rest =>
      (k, match rules.find? fun r => r.hasField k with
        | some r => r.replacement
        | none => redacted t) :: redactedMembers rest

end

end Agreement

section Python

variable {search : JsString → JsString → Bool} {sha256 : Sha256}
  {reprValue : Sdk.PyValue → String} {reprJson : Python.PyJson → String} {rules : List SharedRule}

/-- The compiled pattern of a rule. -/
def SharedRule.compiled (search : JsString → JsString → Bool) (r : SharedRule) :
    Option (String → Bool) :=
  if Sdk.given r.regex then
    some fun s => search (encode (r.regex.getD "").toList) (encode s.toList)
  else none

theorem SharedRule.compiled_any (r : SharedRule) (s : String) :
    ((r.compiled search).any fun test => test s) = r.matchesText search s := by
  unfold SharedRule.compiled SharedRule.matchesText
  cases Sdk.given r.regex <;> rfl

/-- A function that returns on every rule returns on the list. -/
theorem mapM_ok {ε α β : Type} {f : α → Except ε β} {g : α → β} (h : ∀ a, f a = .ok (g a))
    (l : List α) : l.mapM f = .ok (l.map g) := by
  induction l with
  | nil => rfl
  | cons a l ih =>
      rw [List.mapM_cons, h a, ih]
      rfl

def SharedRule.toSdk (search : JsString → JsString → Bool) (r : SharedRule) : Sdk.RedactionRule where
  field := r.field
  search := r.compiled search
  mode := if r.drop then .drop else .redact
  required := by
    unfold SharedRule.compiled
    rcases r.required with hfield | hregex
    · exact .inl hfield
    · exact .inr (by simp [hregex])

theorem SharedRule.init_toSdk (r : SharedRule) :
    Sdk.RedactionRule.init (fun p => .ok fun s => search (encode p.toList) (encode s.toList)) r.field
      r.regex r.modeText = .ok (r.toSdk search) := by
  have hsome : ¬ (Sdk.given r.field = false ∧ Sdk.given r.regex = false) := by
    rintro ⟨hfield, hregex⟩
    rcases r.required with h | h
    · rw [hfield] at h
      cases h
    · rw [hregex] at h
      cases h
  have hmode : Sdk.RedactionMode.ofString? r.modeText =
      some (if r.drop then .drop else .redact) := by
    unfold SharedRule.modeText
    cases r.drop <;> decide
  rw [Sdk.RedactionRule.init, dif_neg hsome, hmode]
  by_cases hregex : Sdk.given r.regex = true
  · simp [hregex, SharedRule.toSdk, SharedRule.compiled]
  · simp [hregex, SharedRule.toSdk, SharedRule.compiled]

def SharedRule.toCollector (search : JsString → JsString → Bool) (r : SharedRule) :
    Collector.CollectorRedactionRule where
  field := r.field
  search := r.compiled search
  mode := if r.drop then .drop else .redact

theorem SharedRule.init_toCollector (r : SharedRule) :
    Collector.CollectorRedactionRule.init
      (fun p => .ok fun s => search (encode p.toList) (encode s.toList)) r.field r.regex r.modeText =
        .ok (r.toCollector search) := by
  have hmode : Collector.RedactionMode.ofString? r.modeText =
      some (if r.drop then .drop else .redact) := by
    unfold SharedRule.modeText
    cases r.drop <;> decide
  have hgiven : Collector.given r.regex = Sdk.given r.regex := by
    cases r.regex <;> rfl
  rw [Collector.CollectorRedactionRule.init, hmode, hgiven]
  by_cases hregex : Sdk.given r.regex = true
  · simp [hregex, SharedRule.toCollector, SharedRule.compiled]
    rfl
  · simp [hregex, SharedRule.toCollector, SharedRule.compiled, bind, Except.bind, pure, Except.pure]

theorem find_toSdk_hasField (k : String) :
    ((rules.map (SharedRule.toSdk search)).find? fun rule => rule.hasField k) =
      (rules.find? fun r => r.hasField k).map (SharedRule.toSdk search) := by
  rw [List.find?_map]
  rfl

theorem find_toSdk_matchesText (s : String) :
    ((rules.map (SharedRule.toSdk search)).find? fun rule => rule.matchesText s) =
      (rules.find? fun r => r.matchesText search s).map (SharedRule.toSdk search) := by
  rw [List.find?_map]
  exact congrArg _ (congrArg (List.find? · rules) (funext fun r => r.compiled_any s))

theorem find_toCollector_hasField (k : String) :
    ((rules.map (SharedRule.toCollector search)).find? fun rule => rule.hasField k) =
      (rules.find? fun r => r.hasField k).map (SharedRule.toCollector search) := by
  rw [List.find?_map]
  have htest : ∀ r : SharedRule, (r.toCollector search).hasField k = r.hasField k := by
    intro r
    unfold Collector.CollectorRedactionRule.hasField SharedRule.hasField SharedRule.toCollector
    cases r.field <;> rfl
  exact congrArg _ (congrArg (List.find? · rules) (funext htest))

theorem find_toCollector_matchesText (s : String) :
    ((rules.map (SharedRule.toCollector search)).find? fun rule => rule.matchesText s) =
      (rules.find? fun r => r.matchesText search s).map (SharedRule.toCollector search) := by
  rw [List.find?_map]
  exact congrArg _ (congrArg (List.find? · rules) (funext fun r => r.compiled_any s))

theorem toJson_replacement (r : SharedRule) (value : Sdk.PyValue) :
    (Sdk.applyMode sha256 reprValue value (r.toSdk search).mode).toJson =
      payloadToPython r.replacement := by
  unfold SharedRule.toSdk SharedRule.replacement
  cases r.drop <;> simp [Sdk.applyMode] <;> rfl

theorem applyRule_replacement (r : SharedRule) (value : Python.PyJson) :
    Collector.applyRule sha256 reprJson value (r.toCollector search).mode =
      payloadToPython r.replacement := by
  unfold SharedRule.toCollector SharedRule.replacement
  cases r.drop <;> rfl

mutual

theorem sdk_redactValue : ∀ t : JsonPayload,
    (Sdk.redactValue sha256 reprValue (rules.map (SharedRule.toSdk search))
      (Sdk.PyValue.ofJson (t.map PayloadLeaf.toPython id))).toJson =
        payloadToPython (redacted search rules t)
  | .leaf (.str s) => by
      rw [redacted]
      simp only [JsonTree.map, PayloadLeaf.toPython, Sdk.PyValue.ofJson, Sdk.redactValue,
        Sdk.redactText, find_toSdk_matchesText]
      cases rules.find? fun r => r.matchesText search s with
      | none => exact Sdk.PyValue.toJson_leaf _
      | some r => exact toJson_replacement r _
  | .leaf .null => Sdk.PyValue.toJson_leaf _
  | .leaf (.bool _) => Sdk.PyValue.toJson_leaf _
  | .leaf (.int _) => Sdk.PyValue.toJson_leaf _
  | .arr items => by
      rw [JsonTree.map, Sdk.PyValue.ofJson, Sdk.redactValue, Sdk.PyValue.toJson, redacted,
        payloadToPython, JsonTree.map, sdk_redactItems items]
  | .obj members => by
      rw [JsonTree.map, Sdk.PyValue.ofJson, Sdk.redactValue, Sdk.PyValue.toJson, redacted,
        payloadToPython, JsonTree.map, sdk_redactMembers members]

theorem sdk_redactItems : ∀ items : List JsonPayload,
    Sdk.PyValue.itemsToJson (Sdk.redactItems sha256 reprValue (rules.map (SharedRule.toSdk search))
      (Sdk.PyValue.itemsOfJson (JsonTree.mapItems PayloadLeaf.toPython id items))) =
        JsonTree.mapItems PayloadLeaf.toPython id (redactedItems search rules items)
  | [] => rfl
  | t :: rest => by
      rw [JsonTree.mapItems, Sdk.PyValue.itemsOfJson, Sdk.redactItems, Sdk.PyValue.itemsToJson,
        sdk_redactValue t, sdk_redactItems rest]
      rfl

theorem sdk_redactMembers : ∀ members : List (String × JsonPayload),
    Sdk.PyValue.membersToJson (Sdk.redactMembers sha256 reprValue
      (rules.map (SharedRule.toSdk search))
      (Sdk.PyValue.membersOfJson (JsonTree.mapMembers PayloadLeaf.toPython id members))) =
        JsonTree.mapMembers PayloadLeaf.toPython id (redactedMembers search rules members)
  | [] => rfl
  | (k, t) :: rest => by
      have hvalue := sdk_redactValue t
      rw [JsonTree.mapMembers, Sdk.PyValue.membersOfJson, Sdk.redactMembers,
        Sdk.PyValue.membersToJson, sdk_redactMembers rest, Sdk.redactMember, id,
        find_toSdk_hasField, redactedMembers, JsonTree.mapMembers]
      cases rules.find? fun r => r.hasField k with
      | none => exact congrArg (fun v => (k, v) :: _) hvalue
      | some r => exact congrArg (fun v => (k, v) :: _) (toJson_replacement r _)

end

mutual

theorem collector_walk : ∀ t : JsonPayload,
    Collector.walk sha256 reprJson (rules.map (SharedRule.toCollector search))
      (t.map PayloadLeaf.toPython id) = payloadToPython (redacted search rules t)
  | .leaf (.str s) => by
      rw [redacted]
      simp only [JsonTree.map, PayloadLeaf.toPython, Collector.walk, find_toCollector_matchesText]
      cases rules.find? fun r => r.matchesText search s with
      | none => rfl
      | some r => exact applyRule_replacement r _
  | .leaf .null => rfl
  | .leaf (.bool _) => rfl
  | .leaf (.int _) => rfl
  | .arr items => by
      rw [JsonTree.map, Collector.walk, redacted, payloadToPython, JsonTree.map,
        collector_walkItems items]
  | .obj members => by
      rw [JsonTree.map, Collector.walk, redacted, payloadToPython, JsonTree.map,
        collector_walkMembers members]

theorem collector_walkItems : ∀ items : List JsonPayload,
    Collector.walkItems sha256 reprJson (rules.map (SharedRule.toCollector search))
      (JsonTree.mapItems PayloadLeaf.toPython id items) =
        JsonTree.mapItems PayloadLeaf.toPython id (redactedItems search rules items)
  | [] => rfl
  | t :: rest => by
      rw [JsonTree.mapItems, Collector.walkItems, collector_walk t, collector_walkItems rest]
      rfl

theorem collector_walkMembers : ∀ members : List (String × JsonPayload),
    Collector.walkMembers sha256 reprJson (rules.map (SharedRule.toCollector search))
      (JsonTree.mapMembers PayloadLeaf.toPython id members) =
        JsonTree.mapMembers PayloadLeaf.toPython id (redactedMembers search rules members)
  | [] => rfl
  | (k, t) :: rest => by
      have hvalue := collector_walk t
      rw [JsonTree.mapMembers, Collector.walkMembers, collector_walkMembers rest,
        Collector.walkField, id, find_toCollector_hasField, redactedMembers, JsonTree.mapMembers]
      cases rules.find? fun r => r.hasField k with
      | none => exact congrArg (fun v => (k, v) :: _) hvalue
      | some r => exact congrArg (fun v => (k, v) :: _) (applyRule_replacement r _)

end

theorem sdkRedaction_eq (t : JsonPayload) :
    sdkRedaction search sha256 reprValue rules t = .ok (payloadToPython (redacted search rules t)) := by
  rw [sdkRedaction, mapM_ok SharedRule.init_toSdk]
  change (Sdk.applyRedaction sha256 reprValue _ _ [] >>= fun value => pure value.toJson) = _
  rw [Sdk.applyRedaction_nil]
  exact congrArg Except.ok (sdk_redactValue t)

theorem collectorRedaction_eq (t : JsonPayload) :
    collectorRedaction search sha256 reprJson rules t =
      .ok (payloadToPython (redacted search rules t)) := by
  have hwalk : ∀ (rs : List Collector.CollectorRedactionRule) (payload : Python.PyJson),
      Collector.applyCollectorRedaction sha256 reprJson rs payload =
        Collector.walk sha256 reprJson rs payload := by
    intro rs payload
    unfold Collector.applyCollectorRedaction
    split <;> rfl
  rw [collectorRedaction, mapM_ok SharedRule.init_toCollector]
  change Except.ok (Collector.applyCollectorRedaction sha256 reprJson _ _) = _
  rw [hwalk]
  exact congrArg Except.ok (collector_walk t)

end Python

/-! ## The value in TypeScript -/

section TypeScript

variable {readInt : Int → JsNumber} {search : JsString → JsString → Bool} {sha256 : Sha256}
  {rules : List SharedRule}

def SharedRule.toTs (search : JsString → JsString → Bool) (r : SharedRule) : CompiledRule where
  field := r.field.map fun s => encode s.toList
  regex := if Sdk.given r.regex then some (search (encode (r.regex.getD "").toList)) else none
  mode := if r.drop then .drop else .redact

theorem truthy_encode (text : Option String) :
    truthy (text.map fun s => encode s.toList) = Sdk.given text := by
  cases text with
  | none => rfl
  | some s =>
      have hempty : encode s.toList = [] ↔ s = "" := by
        constructor
        · intro h
          exact encodeStr_injective (h.trans (by rfl : [] = encode "".toList))
        · intro h
          rw [h]
          rfl
      simp [truthy, Sdk.given, hempty]

theorem SharedRule.compileRule_toTs (r : SharedRule) :
    compileRule (fun p => .ok fun s => search p s)
      { field := r.field.map fun s => encode s.toList
        regex := r.regex.map fun s => encode s.toList
        mode := r.modeText } = .ok (r.toTs search) := by
  have hmode : normaliseMode r.modeText = .ok (if r.drop then .drop else .redact) := by
    unfold SharedRule.modeText
    cases r.drop <;> rfl
  have hsome : (!Sdk.given r.field && !Sdk.given r.regex) = false := by
    rcases r.required with h | h
    · simp [h]
    · simp [h]
  simp only [compileRule, truthy_encode, hsome, hmode]
  by_cases hregex : Sdk.given r.regex = true
  · cases htext : r.regex with
    | none =>
        rw [htext] at hregex
        cases hregex
    | some text =>
        rw [htext] at hregex
        simp [SharedRule.toTs, htext, hregex]
        rfl
  · simp [SharedRule.toTs, hregex]

theorem find_toTs_hasField (k : String) :
    ((rules.map (SharedRule.toTs search)).find? fun rule => rule.hasField (encode k.toList)) =
      (rules.find? fun r => r.hasField k).map (SharedRule.toTs search) := by
  rw [List.find?_map]
  have htest : ∀ r : SharedRule, (r.toTs search).hasField (encode k.toList) = r.hasField k := by
    intro r
    unfold CompiledRule.hasField SharedRule.hasField SharedRule.toTs
    rw [truthy_encode]
    cases r.field with
    | none => rfl
    | some s => simp [encodeStr_injective.eq_iff]
  exact congrArg _ (congrArg (List.find? · rules) (funext htest))

theorem find_toTs_matchesText (s : String) :
    ((rules.map (SharedRule.toTs search)).find? fun rule => rule.matchesText (encode s.toList)) =
      (rules.find? fun r => r.matchesText search s).map (SharedRule.toTs search) := by
  rw [List.find?_map]
  have htest : ∀ r : SharedRule,
      (r.toTs search).matchesText (encode s.toList) = r.matchesText search s := by
    intro r
    unfold CompiledRule.matchesText SharedRule.matchesText SharedRule.toTs
    cases Sdk.given r.regex <;> rfl
  exact congrArg _ (congrArg (List.find? · rules) (funext htest))

/-- The payload is a text, and the first rule whose pattern is found in it drops it. -/
def isDropped (search : JsString → JsString → Bool) (rules : List SharedRule) : JsonPayload → Bool
  | .leaf (.str s) => (rules.find? fun r => r.matchesText search s).any SharedRule.drop
  | _ => false

/-- The member keeps its place in TypeScript: it is not named `__proto__`, and neither the first rule
for its name nor, without one, the first for its text drops it. -/
def StaysMember (search : JsString → JsString → Bool) (rules : List SharedRule) (k : String)
    (member : JsonPayload) : Prop :=
  k ≠ "__proto__" ∧
    match rules.find? fun r => r.hasField k with
    | some r => r.drop = false
    | none => isDropped search rules member = false

/-- All members that are reached keep their places. -/
def Kept (search : JsString → JsString → Bool) (rules : List SharedRule) (t : JsonPayload) : Prop :=
  t.EveryReached (fun k => (rules.find? fun r => r.hasField k).isSome = true)
    (StaysMember search rules)

/-- A payload always has a text in JavaScript. -/
theorem exists_reparse (readInt : Int → JsNumber) (u : JsonPayload) :
    ∃ w, reparse (payloadToJs readInt u) = some w := by
  cases u with
  | leaf l =>
      cases l with
      | int n =>
          simp only [payloadToJs, JsonTree.map, PayloadLeaf.toJs]
          cases readInt n with
          | integer n => exact ⟨_, rfl⟩
          | finite text => exact ⟨_, rfl⟩
          | nonFinite => exact ⟨_, rfl⟩
      | null => exact ⟨_, rfl⟩
      | bool b => exact ⟨_, rfl⟩
      | str s => exact ⟨_, rfl⟩
  | arr items => exact ⟨_, rfl⟩
  | obj members => exact ⟨_, rfl⟩

/-- What the walk of TypeScript makes of a payload, next to what it becomes in Python. -/
def Walked (readInt : Int → JsNumber) (search : JsString → JsString → Bool) (rules : List SharedRule)
    (t : JsonPayload) (r : JsValue) : Prop :=
  if isDropped search rules t = true then reparse r = none
  else ∃ w w', reparse r = some w ∧
    reparse (payloadToJs readInt (redacted search rules t)) = some w' ∧
    JsonTree.Loses (Kept search rules t) w.memberCount w'.memberCount (w = w')

theorem encode_proto : encode "__proto__".toList = units "__proto__" := by
  decide

theorem assigned_cons {k : String} (hk : k ≠ "__proto__") (w : JsValue)
    (ws : List (JsString × JsValue)) :
    assigned ((encode k.toList, w) :: ws) = (encode k.toList, w) :: assigned ws := by
  have hne : encode k.toList ≠ units "__proto__" := by
    rw [← encode_proto]
    exact fun h => hk (encodeStr_injective h)
  simp [assigned, hne]

theorem assigned_proto (w : JsValue) (ws : List (JsString × JsValue)) :
    assigned ((encode "__proto__".toList, w) :: ws) = assigned ws := by
  rw [encode_proto]
  simp [assigned]

/-- What `JSON.stringify` lets through of the members in Python. -/
def expectedMembers (readInt : Int → JsNumber) (search : JsString → JsString → Bool)
    (rules : List SharedRule) (members : List (String × JsonPayload)) : List (JsString × JsValue) :=
  reparseMembers (JsonTree.mapMembers (PayloadLeaf.toJs readInt) (fun key => encode key.toList)
    (redactedMembers search rules members))

def expectedItems (readInt : Int → JsNumber) (search : JsString → JsString → Bool)
    (rules : List SharedRule) (items : List JsonPayload) : List JsValue :=
  reparseItems (JsonTree.mapItems (PayloadLeaf.toJs readInt) (fun key => encode key.toList)
    (redactedItems search rules items))

def ItemsWalked (readInt : Int → JsNumber) (search : JsString → JsString → Bool)
    (rules : List SharedRule) (items : List JsonPayload) (ws : List JsValue) : Prop :=
  JsonTree.Loses
    (JsonTree.ReachedItems (fun k => (rules.find? fun r => r.hasField k).isSome = true)
      (StaysMember search rules) items)
    (JsonTree.itemsCount (reparseItems ws))
    (JsonTree.itemsCount (expectedItems readInt search rules items))
    (reparseItems ws = expectedItems readInt search rules items)

def MembersWalked (readInt : Int → JsNumber) (search : JsString → JsString → Bool)
    (rules : List SharedRule) (members : List (String × JsonPayload))
    (ws : List (JsString × JsValue)) : Prop :=
  JsonTree.Loses
    (JsonTree.ReachedMembers (fun k => (rules.find? fun r => r.hasField k).isSome = true)
      (StaysMember search rules) members)
    (JsonTree.membersCount (reparseMembers (assigned ws)))
    (JsonTree.membersCount (expectedMembers readInt search rules members))
    (reparseMembers (assigned ws) = expectedMembers readInt search rules members)

theorem Walked.of_dropped {t : JsonPayload} {r : JsValue} (h : isDropped search rules t = true)
    (hr : reparse r = none) : Walked readInt search rules t r := by
  rw [Walked, if_pos h]
  exact hr

theorem Walked.of_same {t : JsonPayload} {r w : JsValue} (h : isDropped search rules t = false)
    (hkept : Kept search rules t) (hr : reparse r = some w)
    (hw : reparse (payloadToJs readInt (redacted search rules t)) = some w) :
    Walked readInt search rules t r := by
  rw [Walked, if_neg (by simp [h])]
  exact ⟨w, w, hr, hw, .none hkept rfl⟩

/-- The value that Python puts in the place of a member. -/
def redactedMember (search : JsString → JsString → Bool) (rules : List SharedRule) (k : String)
    (t : JsonPayload) : JsonPayload :=
  match rules.find? fun r => r.hasField k with
  | some r => r.replacement
  | none => redacted search rules t

theorem expectedMembers_cons {k : String} {t : JsonPayload} {w : JsValue}
    (hw : reparse (payloadToJs readInt (redactedMember search rules k t)) = some w)
    (rest : List (String × JsonPayload)) :
    expectedMembers readInt search rules ((k, t) :: rest) =
      (encode k.toList, w) :: expectedMembers readInt search rules rest := by
  have hw' : reparse ((redactedMember search rules k t).map (PayloadLeaf.toJs readInt)
      fun key => encode key.toList) = some w := hw
  rw [redactedMember] at hw'
  rw [expectedMembers, redactedMembers, JsonTree.mapMembers, reparseMembers, hw']
  rfl

/-- A member that is missing in TypeScript is there in Python. -/
theorem MembersWalked.missing {k : String} {t : JsonPayload} {rest : List (String × JsonPayload)}
    {ws : List (JsString × JsValue)} (h : MembersWalked readInt search rules rest ws)
    (hgone : ¬ StaysMember search rules k t) :
    MembersWalked readInt search rules ((k, t) :: rest) ws := by
  rcases exists_reparse readInt (redactedMember search rules k t) with ⟨w, hw⟩
  rw [MembersWalked, expectedMembers_cons hw]
  exact .missing h.le fun hall => hgone hall.1.1

/-- A member that is in both. -/
theorem MembersWalked.staying {k : String} {t : JsonPayload} {rest : List (String × JsonPayload)}
    {ws : List (JsString × JsValue)} {x w w' : JsValue} {kept : Prop}
    (h : MembersWalked readInt search rules rest ws) (hk : k ≠ "__proto__")
    (hx : reparse x = some w)
    (hw : reparse (payloadToJs readInt (redactedMember search rules k t)) = some w')
    (hvalue : JsonTree.Loses kept w.memberCount w'.memberCount (w = w'))
    (hkept : kept ↔ StaysMember search rules k t ∧
      ((rules.find? fun r => r.hasField k).isSome = true ∨ Kept search rules t)) :
    MembersWalked readInt search rules ((k, t) :: rest) ((encode k.toList, x) :: ws) := by
  rw [MembersWalked, expectedMembers_cons hw, assigned_cons hk, reparseMembers, hx]
  refine (hvalue.member.add h).congr (and_congr hkept Iff.rfl) ?_
  rintro ⟨hhead, htail⟩
  rw [hhead, htail]

/-- The first rule for a member of TypeScript. -/
theorem redactField_eq (k : String) (value : JsValue) (walked : Except Thrown JsValue) :
    redactField sha256 (rules.map (SharedRule.toTs search)) (encode k.toList) value walked =
      match rules.find? fun r => r.hasField k with
      | some r => if r.drop = true then .ok none else .ok (some (string redactedSentinel))
      | none => some <$> walked := by
  rw [redactField, find_toTs_hasField]
  cases rules.find? fun r => r.hasField k with
  | none => rfl
  | some r =>
      simp only [Option.map_some, SharedRule.toTs]
      cases r.drop <;> rfl

/-- A dropped text has no members, and is `None` in Python. -/
theorem dropped_eq {t : JsonPayload} (h : isDropped search rules t = true) :
    Kept search rules t ∧ redacted search rules t = .leaf .null := by
  cases t with
  | leaf l =>
      cases l with
      | str s =>
          refine ⟨trivial, ?_⟩
          rw [isDropped] at h
          rw [redacted]
          cases hfind : rules.find? fun r => r.matchesText search s with
          | none =>
              rw [hfind] at h
              cases h
          | some r =>
              rw [hfind] at h
              have hdrop : r.drop = true := h
              simp [SharedRule.replacement, hdrop]
      | null => cases h
      | bool b => cases h
      | int n => cases h
  | arr items => cases h
  | obj members => cases h

mutual

theorem ts_walk : ∀ t : JsonPayload, ∃ r,
    redactValue sha256 (rules.map (SharedRule.toTs search)) (deepCopy (payloadToJs readInt t)) =
      .ok r ∧ Walked readInt search rules t r
  | .leaf (.str s) => by
      rw [payloadToJs, JsonTree.map, PayloadLeaf.toJs, deepCopy, redactValue, redactText,
        find_toTs_matchesText]
      cases hfind : rules.find? fun r => r.matchesText search s with
      | none =>
          have hsame : redacted search rules (.leaf (.str s)) = .leaf (.str s) := by
            rw [redacted, hfind]
          refine ⟨_, rfl, .of_same (by simp [isDropped, hfind]) trivial rfl ?_⟩
          rw [hsame]
          rfl
      | some r =>
          have hreplaced : redacted search rules (.leaf (.str s)) = r.replacement := by
            rw [redacted, hfind]
          simp only [Option.map_some, SharedRule.toTs]
          cases hdrop : r.drop with
          | true => exact ⟨_, rfl, .of_dropped (by simp [isDropped, hfind, hdrop]) rfl⟩
          | false =>
              refine ⟨_, rfl, .of_same (by simp [isDropped, hfind, hdrop]) trivial rfl ?_⟩
              rw [hreplaced, SharedRule.replacement, hdrop]
              rfl
  | .leaf .null => ⟨_, rfl, .of_same rfl trivial rfl rfl⟩
  | .leaf (.bool _) => ⟨_, rfl, .of_same rfl trivial rfl rfl⟩
  | .leaf (.int n) => by
      rcases exists_reparse readInt (.leaf (.int n)) with ⟨w, hw⟩
      exact ⟨_, rfl, .of_same rfl trivial hw hw⟩
  | .arr items => by
      rcases ts_walkItems items with ⟨ws, hws, hwalked⟩
      refine ⟨.arr ws, ?_, _, _, rfl, rfl, hwalked.congr Iff.rfl (congrArg JsonTree.arr)⟩
      rw [payloadToJs, JsonTree.map, deepCopy, redactValue, hws]
      rfl
  | .obj members => by
      rcases ts_walkMembers members with ⟨ws, hws, hwalked⟩
      refine ⟨.obj (assigned ws), ?_, _, _, rfl, rfl, hwalked.congr Iff.rfl (congrArg JsonTree.obj)⟩
      rw [payloadToJs, JsonTree.map, deepCopy, redactValue, hws]
      rfl

theorem ts_walkItems : ∀ items : List JsonPayload, ∃ ws,
    redactItems sha256 (rules.map (SharedRule.toTs search))
      (copyItems (JsonTree.mapItems (PayloadLeaf.toJs readInt) (fun key => encode key.toList) items)) =
        .ok ws ∧ ItemsWalked readInt search rules items ws
  | [] => ⟨[], rfl, .none trivial rfl⟩
  | t :: rest => by
      rcases ts_walk t with ⟨r, hr, hwalked⟩
      rcases ts_walkItems rest with ⟨ws, hws, hrest⟩
      rcases exists_reparse readInt (redacted search rules t) with ⟨w', hw'⟩
      have hreparse : reparse ((redacted search rules t).map (PayloadLeaf.toJs readInt)
          fun key => encode key.toList) = some w' := hw'
      -- a dropped item is `null` in all three
      have hitem : JsonTree.Loses (Kept search rules t) ((reparse r).getD null).memberCount
          w'.memberCount ((reparse r).getD null = w') := by
        unfold Walked at hwalked
        split_ifs at hwalked with hdropped
        · rcases dropped_eq hdropped with ⟨htrivial, hnull⟩
          rw [hnull] at hw'
          cases hw'
          rw [hwalked]
          exact .none htrivial rfl
        · rcases hwalked with ⟨w, w'', hw, hw'', hloses⟩
          rcases Option.some.inj (hw'.symm.trans hw'') with rfl
          rw [hw]
          exact hloses
      refine ⟨r :: ws, ?_, ?_⟩
      · rw [payloadToJs] at hr
        rw [JsonTree.mapItems, copyItems, redactItems, hr, hws]
        rfl
      · rw [ItemsWalked, expectedItems, redactedItems, JsonTree.mapItems, reparseItems, reparseItems,
          hreparse]
        refine (hitem.add hrest).congr Iff.rfl ?_
        rintro ⟨hhead, htail⟩
        rw [hhead, htail]
        rfl

theorem ts_walkMembers : ∀ members : List (String × JsonPayload), ∃ ws,
    redactMembers sha256 (rules.map (SharedRule.toTs search))
      (assigned (copyMembers (JsonTree.mapMembers (PayloadLeaf.toJs readInt)
        (fun key => encode key.toList) members))) = .ok ws ∧
    MembersWalked readInt search rules members ws
  | [] => ⟨[], rfl, .none trivial rfl⟩
  | (k, t) :: rest => by
      rcases ts_walk t with ⟨r, hr, hwalked⟩
      rcases ts_walkMembers rest with ⟨ws, hws, hrest⟩
      rw [payloadToJs] at hr
      by_cases hproto : k = "__proto__"
      · -- the copy has no such member
        subst hproto
        refine ⟨ws, ?_, hrest.missing fun hstays => hstays.1 rfl⟩
        rw [JsonTree.mapMembers, copyMembers, assigned_proto, hws]
      · rw [JsonTree.mapMembers, copyMembers, assigned_cons hproto, redactMembers, redactField_eq, hr,
          hws]
        cases hfind : rules.find? fun r => r.hasField k with
        | some rule =>
            cases hdrop : rule.drop with
            | true =>
                refine ⟨ws, by simp [hdrop]; rfl, hrest.missing ?_⟩
                intro hstays
                have hno := hstays.2
                rw [hfind] at hno
                exact absurd hno (by simp [hdrop])
            | false =>
                have hreplaced : redactedMember search rules k t = .leaf (.str "<redacted>") := by
                  rw [redactedMember, hfind]
                  simp [SharedRule.replacement, hdrop]
                have hw : reparse (payloadToJs readInt (redactedMember search rules k t)) =
                    some (string redactedSentinel) := by
                  rw [hreplaced]
                  rfl
                refine ⟨_, by simp [hdrop]; rfl,
                  hrest.staying hproto (rfl : reparse (string redactedSentinel) = _) hw
                    (.none trivial rfl) ?_⟩
                simp [StaysMember, hproto, hfind, hdrop]
        | none =>
            have hmember : redactedMember search rules k t = redacted search rules t := by
              rw [redactedMember, hfind]
            unfold Walked at hwalked
            split_ifs at hwalked with hdropped
            · refine ⟨(encode k.toList, r) :: ws, rfl, ?_⟩
              rw [MembersWalked, assigned_cons hproto, reparseMembers, hwalked]
              refine hrest.missing ?_
              intro hstays
              have hno := hstays.2
              rw [hfind] at hno
              exact absurd hno (by simp [hdropped])
            · rcases hwalked with ⟨w, w', hw, hw', hloses⟩
              rw [← hmember] at hw'
              refine ⟨(encode k.toList, r) :: ws, rfl, hrest.staying hproto hw hw' hloses ?_⟩
              simp [StaysMember, hproto, hfind, hdropped]

end

theorem tsRedaction_eq (t : JsonPayload) :
    ∃ r, tsRedaction readInt search sha256 rules t = .ok r ∧ Walked readInt search rules t r := by
  rcases ts_walk t with ⟨r, hr, hwalked⟩
  refine ⟨r, ?_, hwalked⟩
  have hcompiled : compileRules (fun p => .ok fun s => search p s)
      (rules.map fun r =>
        { field := r.field.map fun s => encode s.toList
          regex := r.regex.map fun s => encode s.toList
          mode := r.modeText }) = .ok (rules.map (SharedRule.toTs search)) := by
    rw [compileRules, List.mapM_map]
    exact mapM_ok SharedRule.compileRule_toTs rules
  rw [tsRedaction, applyRedaction_eq hcompiled]
  exact hr

end TypeScript

/-- `{ field: "token", mode: "drop" }`. -/
def dropTokenRule : SharedRule where
  field := some "token"
  regex := none
  drop := true
  required := .inl (by decide)

end TypeScript
end ControlDB
