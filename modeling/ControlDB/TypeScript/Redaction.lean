import ControlDB.TypeScript.Run

/-!
# Redaction in the TypeScript SDK

`redaction.ts`, and what `JSON.stringify` makes of a value: a text, or nothing.  Of the values kept as
`other`, a function and a symbol are left out by `JSON.stringify`; a bigint, on which it throws, is
treated like them.  The constructor `RegExp` with its `test` is the parameter `newRegExp`.
-/

namespace ControlDB
namespace TypeScript

open Library

/-! ## `JSON.stringify` of a value -/

def undefined : JsValue :=
  .leaf .undefined

mutual

/-- `JSON.parse(JSON.stringify(value))`, unless the text is `undefined`. -/
def reparse : JsValue → Option JsValue
  | .leaf .undefined => none
  | .leaf (.other _) => none
  | .leaf (.number .nonFinite) => some null
  | .leaf l => some (.leaf l)
  | .arr items => some (.arr (reparseItems items))
  | .obj members => some (.obj (reparseMembers members))

/-- What has no text stands as `null` in an array. -/
def reparseItems : List JsValue → List JsValue
  | [] => []
  | v :: rest => (reparse v).getD null :: reparseItems rest

/-- A member that has no text is left out. -/
def reparseMembers : List (JsString × JsValue) → List (JsString × JsValue)
  | [] => []
  | (k, v) :: rest =>
      match reparse v with
      | none => reparseMembers rest
      | some w => (k, w) :: reparseMembers rest

end

mutual

/-- `JSON.stringify(value)`. -/
def jsonText : JsValue → Option JsString
  | .leaf .undefined => none
  | .leaf .null => some (units "null")
  | .leaf (.boolean b) => some (if b then units "true" else units "false")
  | .leaf (.number (.integer n)) => some (integerText n.val)
  | .leaf (.number (.finite text)) => some text
  | .leaf (.number .nonFinite) => some (units "null")
  | .leaf (.string s) => some (stringify s)
  | .leaf (.other _) => none
  | .arr items => some (units "[" ++ joinComma (itemTexts items) ++ units "]")
  | .obj members => some (units "\x7b" ++ joinComma (memberTexts members) ++ units "\x7d")

def itemTexts : List JsValue → List JsString
  | [] => []
  | v :: rest => (jsonText v).getD (units "null") :: itemTexts rest

def memberTexts : List (JsString × JsValue) → List JsString
  | [] => []
  | (k, v) :: rest =>
      match jsonText v with
      | none => memberTexts rest
      | some text => (stringify k ++ units ":" ++ text) :: memberTexts rest

end

/-! ## Rules -/

structure RedactionRule where
  field : Option JsString
  regex : Option JsString
  mode : String

inductive Mode
  | redact
  | hash
  | drop
  deriving DecidableEq

structure CompiledRule where
  field : Option JsString
  regex : Option (JsString → Bool)
  mode : Mode

/-- `normaliseMode`; no letter outside ASCII becomes one of these words in lower case. -/
def normaliseMode (mode : String) : Except Thrown Mode :=
  let lower := mode.toList.map Char.toLower
  if lower = "redact".toList then .ok .redact
  else if lower = "hash".toList then .ok .hash
  else if lower = "drop".toList then .ok .drop
  else .error (.error s!"unknown redaction mode: {mode}")

/-- A text that is given and not empty. -/
def truthy : Option JsString → Bool
  | some s => decide (s ≠ [])
  | none => false

section Compile

variable (newRegExp : JsString → Except Thrown (JsString → Bool))

def compileRule (r : RedactionRule) : Except Thrown CompiledRule :=
  if !truthy r.field && !truthy r.regex then
    .error (.error "RedactionRule requires field or regex")
  else do
    let regex ← if truthy r.regex then some <$> newRegExp (r.regex.getD []) else pure none
    let mode ← normaliseMode r.mode
    return { field := r.field, regex, mode }

def compileRules (rules : List RedactionRule) : Except Thrown (List CompiledRule) :=
  rules.mapM (compileRule newRegExp)

end Compile

namespace CompiledRule

/-- `rule.field && rule.field === key`. -/
def hasField (rule : CompiledRule) (key : JsString) : Bool :=
  truthy rule.field && decide (rule.field = some key)

/-- `rule.regex && rule.regex.test(value)`. -/
def matchesText (rule : CompiledRule) (value : JsString) : Bool :=
  rule.regex.any fun test => test value

end CompiledRule

/-! ## The walk -/

/-- `record[key] = value` for the members in turn, on a new object: the setter of `__proto__` makes no
member. -/
def assigned (members : List (JsString × JsValue)) : List (JsString × JsValue) :=
  members.filter fun m => decide (m.1 ≠ units "__proto__")

mutual

def deepCopy : JsValue → JsValue
  | .leaf l => .leaf l
  | .arr items => .arr (copyItems items)
  | .obj members => .obj (assigned (copyMembers members))

def copyItems : List JsValue → List JsValue
  | [] => []
  | v :: rest => deepCopy v :: copyItems rest

def copyMembers : List (JsString × JsValue) → List (JsString × JsValue)
  | [] => []
  | (k, v) :: rest => (k, deepCopy v) :: copyMembers rest

end

def redactedSentinel : JsString :=
  units "<redacted>"

/-- What the hash object throws on `undefined`. -/
def undefinedData : TypeError where
  message := "The \"data\" argument must be of type string or an instance of Buffer, TypedArray, " ++
    "or DataView. Received undefined"

section Walk

variable (sha256 : Sha256) (rules : List CompiledRule)

/-- `applyMode`; in `hash` mode the text of the value is hashed. -/
def applyMode (value : JsValue) : Mode → Except Thrown JsValue
  | .drop => .ok undefined
  | .hash =>
      match jsonText value with
      | none => .error (.typeError undefinedData)
      | some text => .ok (string (units (sha256Hex sha256 text)))
  | .redact => .ok (string redactedSentinel)

/-- The loop over the rules for a string. -/
def redactText (value : JsString) : Except Thrown JsValue :=
  match rules.find? fun rule => rule.matchesText value with
  | some rule => applyMode sha256 (string value) rule.mode
  | none => .ok (string value)

/-- `redactField`: nothing where `keep` is false; `walked` is what the walk makes of the value. -/
def redactField (key : JsString) (value : JsValue) (walked : Except Thrown JsValue) :
    Except Thrown (Option JsValue) :=
  match rules.find? fun rule => rule.hasField key with
  | some rule => if rule.mode = .drop then .ok none else some <$> applyMode sha256 value rule.mode
  | none => some <$> walked

mutual

/-- `redactValue`, with `redactObject`. -/
def redactValue : JsValue → Except Thrown JsValue
  | .arr items => do
      let items ← redactItems items
      return .arr items
  | .obj members => do
      let kept ← redactMembers members
      return .obj (assigned kept)
  | .leaf (.string s) => redactText sha256 rules s
  | .leaf l => .ok (.leaf l)

def redactItems : List JsValue → Except Thrown (List JsValue)
  | [] => .ok []
  | v :: rest => do
      let w ← redactValue v
      let ws ← redactItems rest
      return w :: ws

/-- The members of an object that are kept. -/
def redactMembers : List (JsString × JsValue) → Except Thrown (List (JsString × JsValue))
  | [] => .ok []
  | (k, v) :: rest => do
      let kept ← redactField sha256 rules k v (redactValue v)
      let ws ← redactMembers rest
      match kept with
      | none => return ws
      | some w => return (k, w) :: ws

end

end Walk

def applyRedaction (newRegExp : JsString → Except Thrown (JsString → Bool)) (sha256 : Sha256)
    (rules : List RedactionRule) (payload : JsValue) : Except Thrown JsValue :=
  match payload with
  | .leaf .null => .ok null
  | .leaf .undefined => .ok undefined
  | payload => do
      let compiledRules ← compileRules newRegExp rules
      redactValue sha256 compiledRules (deepCopy payload)

theorem applyRedaction_eq {newRegExp : JsString → Except Thrown (JsString → Bool)} {sha256 : Sha256}
    {rules : List RedactionRule} {compiled : List CompiledRule}
    (h : compileRules newRegExp rules = .ok compiled) (payload : JsValue) :
    applyRedaction newRegExp sha256 rules payload = redactValue sha256 compiled (deepCopy payload) := by
  unfold applyRedaction
  split
  · rfl
  · rfl
  · rw [h]
    rfl

/-! ## What a walk makes of a value -/

/-- A computation of two steps that returned. -/
theorem bind_eq_ok {ε α β : Type} {x : Except ε α} {f : α → Except ε β} {b : β}
    (h : x >>= f = .ok b) : ∃ a, x = .ok a ∧ f a = .ok b := by
  cases x with
  | error e => cases h
  | ok a => exact ⟨a, rfl, h⟩

/-- The member is left out, or put in the place of its value, without a look into it. -/
def isClosed (rules : List CompiledRule) (key : JsString) : Bool :=
  decide (key = units "__proto__") || rules.any fun rule => rule.hasField key

/-- The walk makes `undefined` of the value. -/
def isLost (rules : List CompiledRule) : JsValue → Bool
  | .leaf .undefined => true
  | .leaf (.string s) =>
      (rules.find? fun rule => rule.matchesText s).any fun rule => decide (rule.mode = .drop)
  | _ => false

section Inversion

variable {sha256 : Sha256} {rules : List CompiledRule}

theorem applyMode_ok {value r : JsValue} {mode : Mode} (h : applyMode sha256 value mode = .ok r) :
    mode = .drop ∧ r = undefined ∨ mode ≠ .drop ∧ ∃ s, r = string s := by
  cases mode with
  | drop =>
      cases h
      exact .inl ⟨rfl, rfl⟩
  | redact =>
      cases h
      exact .inr ⟨by decide, _, rfl⟩
  | hash =>
      refine .inr ⟨by decide, ?_⟩
      rw [applyMode] at h
      cases htext : jsonText value with
      | none =>
          rw [htext] at h
          cases h
      | some text =>
          rw [htext] at h
          cases h
          exact ⟨_, rfl⟩

/-- A leaf is lost, stays, or becomes a string. -/
theorem redactValue_leaf {l : JsLeaf} {r : JsValue}
    (h : redactValue sha256 rules (.leaf l) = .ok r) :
    isLost rules (.leaf l) = true ∧ r = undefined ∨
      isLost rules (.leaf l) = false ∧ r ≠ undefined ∧ (r = .leaf l ∨ ∃ s, r = string s) := by
  cases l with
  | string s =>
      rw [redactValue, redactText] at h
      cases hfind : rules.find? fun rule => rule.matchesText s with
      | none =>
          rw [hfind] at h
          cases h
          exact .inr ⟨by simp [isLost, hfind], by simp [string, undefined], .inr ⟨s, rfl⟩⟩
      | some rule =>
          rw [hfind] at h
          rcases applyMode_ok h with ⟨hdrop, rfl⟩ | ⟨hkeep, t, rfl⟩
          · exact .inl ⟨by simp [isLost, hfind, hdrop], rfl⟩
          · exact .inr ⟨by simp [isLost, hfind, hkeep], by simp [string, undefined], .inr ⟨t, rfl⟩⟩
  | undefined =>
      cases h
      exact .inl ⟨rfl, rfl⟩
  | null =>
      cases h
      exact .inr ⟨rfl, by simp [undefined], .inl rfl⟩
  | boolean b =>
      cases h
      exact .inr ⟨rfl, by simp [undefined], .inl rfl⟩
  | number x =>
      cases h
      exact .inr ⟨rfl, by simp [undefined], .inl rfl⟩
  | other text =>
      cases h
      exact .inr ⟨rfl, by simp [undefined], .inl rfl⟩

theorem redactValue_arr {items : List JsValue} {r : JsValue}
    (h : redactValue sha256 rules (deepCopy (.arr items)) = .ok r) :
    ∃ ws, redactItems sha256 rules (copyItems items) = .ok ws ∧ r = .arr ws := by
  rw [deepCopy, redactValue] at h
  rcases bind_eq_ok h with ⟨ws, hws, hr⟩
  cases hr
  exact ⟨ws, hws, rfl⟩

theorem redactValue_obj {members : List (JsString × JsValue)} {r : JsValue}
    (h : redactValue sha256 rules (deepCopy (.obj members)) = .ok r) :
    ∃ ws, redactMembers sha256 rules (assigned (copyMembers members)) = .ok ws ∧
      r = .obj (assigned ws) := by
  rw [deepCopy, redactValue] at h
  rcases bind_eq_ok h with ⟨ws, hws, hr⟩
  cases hr
  exact ⟨ws, hws, rfl⟩

theorem redactItems_cons {v : JsValue} {rest ws : List JsValue}
    (h : redactItems sha256 rules (copyItems (v :: rest)) = .ok ws) :
    ∃ w ws', redactValue sha256 rules (deepCopy v) = .ok w ∧
      redactItems sha256 rules (copyItems rest) = .ok ws' ∧ ws = w :: ws' := by
  rw [copyItems, redactItems] at h
  rcases bind_eq_ok h with ⟨w, hw, h⟩
  rcases bind_eq_ok h with ⟨ws', hws', h⟩
  cases h
  exact ⟨w, ws', hw, hws', rfl⟩

/-- A closed member is gone or has a string in place of its value, another one is walked through. -/
theorem redactMembers_cons {k : JsString} {v : JsValue} {rest ws : List (JsString × JsValue)}
    (h : redactMembers sha256 rules (assigned (copyMembers ((k, v) :: rest))) = .ok ws) :
    ∃ ws', redactMembers sha256 rules (assigned (copyMembers rest)) = .ok ws' ∧
      (isClosed rules k = true ∧
          (assigned ws = assigned ws' ∨ ∃ s, assigned ws = (k, string s) :: assigned ws') ∨
        isClosed rules k = false ∧ ∃ w, redactValue sha256 rules (deepCopy v) = .ok w ∧
          assigned ws = (k, w) :: assigned ws') := by
  by_cases hproto : k = units "__proto__"
  · have hcopy : assigned (copyMembers ((k, v) :: rest)) = assigned (copyMembers rest) := by
      simp [copyMembers, assigned, hproto]
    rw [hcopy] at h
    exact ⟨ws, h, .inl ⟨by simp [isClosed, hproto], .inl rfl⟩⟩
  · have hcopy : assigned (copyMembers ((k, v) :: rest)) =
        (k, deepCopy v) :: assigned (copyMembers rest) := by
      simp [copyMembers, assigned, hproto]
    have hcons : ∀ (w : JsValue) (ws' : List (JsString × JsValue)),
        assigned ((k, w) :: ws') = (k, w) :: assigned ws' := fun w ws' => by
      simp [assigned, hproto]
    rw [hcopy, redactMembers] at h
    rcases bind_eq_ok h with ⟨kept, hkept, h⟩
    rcases bind_eq_ok h with ⟨ws', hws', h⟩
    refine ⟨ws', hws', ?_⟩
    rw [redactField] at hkept
    cases hfind : rules.find? fun rule => rule.hasField k with
    | some rule =>
        rw [hfind] at hkept
        have hclosed : isClosed rules k = true := by
          have hfield := List.find?_some hfind
          have hany : rules.any (fun rule => rule.hasField k) = true :=
            List.any_eq_true.2 ⟨rule, List.mem_of_find?_eq_some hfind, hfield⟩
          rw [isClosed, hany, Bool.or_true]
        refine .inl ⟨hclosed, ?_⟩
        by_cases hdrop : rule.mode = .drop
        · simp only [hdrop, if_true] at hkept
          cases hkept
          cases h
          exact .inl rfl
        · simp only [hdrop, if_false] at hkept
          rcases bind_eq_ok (f := fun a => pure (some a)) hkept with ⟨a, ha, hkept⟩
          cases hkept
          cases h
          rcases applyMode_ok ha with ⟨hdrop', _⟩ | ⟨_, s, rfl⟩
          · exact absurd hdrop' hdrop
          · exact .inr ⟨s, hcons _ _⟩
    | none =>
        rw [hfind] at hkept
        have hopen : isClosed rules k = false := by
          have hany : rules.any (fun rule => rule.hasField k) = false := by
            rw [← Bool.not_eq_true, List.any_eq_true]
            rintro ⟨rule, hmem, hfield⟩
            exact absurd hfield (by simpa using List.find?_eq_none.1 hfind rule hmem)
          simp [isClosed, hproto, hany]
        rcases bind_eq_ok (f := fun a => pure (some a)) hkept with ⟨w, hw, hkept⟩
        cases hkept
        cases h
        exact .inr ⟨hopen, w, hw, hcons _ _⟩

end Inversion

end TypeScript
end ControlDB
