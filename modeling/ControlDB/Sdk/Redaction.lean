import ControlDB.Library.JsonPath
import ControlDB.Sdk.Transport

/-!
# Redaction

`redaction.py` of the Python SDK.  A compiled pattern is the test `search`, and `repr` is what
`hash` mode takes a digest of.  A `str` with a lone surrogate is no text here; it has no JSON.
-/

namespace ControlDB
namespace Sdk

open Library Python

/-! ## Payloads -/

/-- A value that `json.dumps` takes.  The keys of a `dict` are texts, in insertion order. -/
inductive PyValue
  | leaf (l : Scalar)
  | list (items : List PyValue)
  | tuple (items : List PyValue)
  | dict (members : List (String × PyValue))

namespace PyValue

mutual

/-- The JSON of a value: a tuple is written like a list. -/
def toJson : PyValue → PyJson
  | leaf l => .leaf l
  | list items => .arr (itemsToJson items)
  | tuple items => .arr (itemsToJson items)
  | dict members => .obj (membersToJson members)

def itemsToJson : List PyValue → List PyJson
  | [] => []
  | v :: rest => toJson v :: itemsToJson rest

def membersToJson : List (String × PyValue) → List (String × PyJson)
  | [] => []
  | (k, v) :: rest => (k, toJson v) :: membersToJson rest

end

@[simp] theorem toJson_leaf (l : Scalar) : (leaf l).toJson = .leaf l := by
  simp [toJson]

theorem itemsToJson_eq_map (items : List PyValue) : itemsToJson items = items.map toJson := by
  induction items with
  | nil => rfl
  | cons v rest ih => simp [itemsToJson, ih]

theorem membersToJson_eq_map (members : List (String × PyValue)) :
    membersToJson members = members.map fun m => (m.1, m.2.toJson) := by
  induction members with
  | nil => rfl
  | cons m rest ih => simp [membersToJson, ih]

@[simp] theorem toJson_list (items : List PyValue) :
    (list items).toJson = .arr (items.map toJson) := by
  simp [toJson, itemsToJson_eq_map]

@[simp] theorem toJson_tuple (items : List PyValue) :
    (tuple items).toJson = .arr (items.map toJson) := by
  simp [toJson, itemsToJson_eq_map]

@[simp] theorem toJson_dict (members : List (String × PyValue)) :
    (dict members).toJson = .obj (members.map fun m => (m.1, m.2.toJson)) := by
  simp [toJson, membersToJson_eq_map]

@[elab_as_elim] theorem induct {P : PyValue → Prop} (hleaf : ∀ l, P (leaf l))
    (hlist : ∀ items, (∀ v ∈ items, P v) → P (list items))
    (htuple : ∀ items, (∀ v ∈ items, P v) → P (tuple items))
    (hdict : ∀ members, (∀ m ∈ members, P m.2) → P (dict members)) (v : PyValue) : P v := by
  apply @PyValue.rec P (fun items => ∀ v ∈ items, P v) (fun members => ∀ m ∈ members, P m.2)
    (fun m => P m.2)
  · exact hleaf
  · exact hlist
  · exact htuple
  · exact hdict
  · simp
  · intro v rest hv hrest
    simpa using ⟨hv, hrest⟩
  · simp
  · intro m rest hm hrest
    simpa using ⟨hm, by simpa using hrest⟩
  · intro k v hv
    exact hv

end PyValue

/-! ## Rules -/

/-- `bool(text)`, for a text that may be missing. -/
def given : Option String → Bool
  | some s => decide (s ≠ "")
  | none => false

inductive RedactionMode
  | redact
  | hash
  | drop
  deriving DecidableEq

def RedactionMode.ofString? (mode : String) : Option RedactionMode :=
  if mode = "redact" then some .redact
  else if mode = "hash" then some .hash
  else if mode = "drop" then some .drop
  else none

/-- A `RedactionRule`: it has a field or a pattern. -/
structure RedactionRule where
  field : Option String
  search : Option (String → Bool)
  mode : RedactionMode
  required : given field = true ∨ search.isSome = true

namespace RedactionRule

/-- `RedactionRule.__init__`; an empty pattern is dropped, an empty field is kept. -/
def init (compile : String → Except SdkError (String → Bool)) (field regex : Option String)
    (mode : String) : Except SdkError RedactionRule :=
  if hgiven : given field = false ∧ given regex = false then
    .error ⟨.other, PyJson.str "RedactionRule requires field or regex"⟩
  else
    match RedactionMode.ofString? mode with
    | none => .error ⟨.other, PyJson.str s!"unknown redaction mode: {mode}"⟩
    | some mode =>
        if hregex : given regex = true then
          match compile (regex.getD "") with
          | .error e => .error e
          | .ok search => .ok { field, search := some search, mode, required := .inr rfl }
        else
          .ok
            { field
              search := none
              mode
              required := .inl (by
                by_contra hfield
                exact hgiven ⟨by simpa using hfield, by simpa using hregex⟩) }

/-- `rule.field and rule.field == key`. -/
def hasField (rule : RedactionRule) (key : String) : Bool :=
  given rule.field && decide (rule.field = some key)

/-- `rule.regex and rule.regex.search(value)`. -/
def matchesText (rule : RedactionRule) (value : String) : Bool :=
  rule.search.any fun search => search value

end RedactionRule

/-! ## The walk -/

def redactedSentinel : String :=
  "<redacted>"

section Walk

variable (sha256 : Sha256) (repr : PyValue → String) (rules : List RedactionRule)

/-- `_apply_mode`. -/
def applyMode (value : PyValue) : RedactionMode → PyValue
  | .drop => .leaf .none
  | .hash => .leaf (.str (Python.sha256Hex sha256 (encodeUtf8 (repr value).toList)))
  | .redact => .leaf (.str redactedSentinel)

/-- The loop over the rules for a text. -/
def redactText (value : String) : PyValue :=
  match rules.find? fun rule => rule.matchesText value with
  | some rule => applyMode sha256 repr (.leaf (.str value)) rule.mode
  | none => .leaf (.str value)

/-- The loop over the rules for a member; `walked` is what the walk makes of the value. -/
def redactMember (key : String) (value walked : PyValue) : PyValue :=
  match rules.find? fun rule => rule.hasField key with
  | some rule => applyMode sha256 repr value rule.mode
  | none => walked

mutual

/-- `_redact_value`: only a `dict`, a `list` and a `str` are looked into. -/
def redactValue : PyValue → PyValue
  | .dict members => .dict (redactMembers members)
  | .list items => .list (redactItems items)
  | .leaf (.str s) => redactText sha256 repr rules s
  | .leaf l => .leaf l
  | .tuple items => .tuple items

def redactItems : List PyValue → List PyValue
  | [] => []
  | v :: rest => redactValue v :: redactItems rest

def redactMembers : List (String × PyValue) → List (String × PyValue)
  | [] => []
  | (k, v) :: rest => (k, redactMember sha256 repr rules k v (redactValue v)) :: redactMembers rest

end

/-- `_redact_field`. -/
def redactField (key : String) (value : PyValue) : PyValue :=
  redactMember sha256 repr rules key value (redactValue sha256 repr rules value)

/-- `apply_redaction`; a callback may raise. -/
def applyRedaction (payload : PyValue) (callbacks : List (PyValue → Except SdkError PyValue)) :
    Except SdkError PyValue :=
  match payload with
  | .leaf .none => .ok (.leaf .none)
  | payload => callbacks.foldlM (fun data cb => cb data) (redactValue sha256 repr rules payload)

theorem redactItems_eq_map (items : List PyValue) :
    redactItems sha256 repr rules items = items.map (redactValue sha256 repr rules) := by
  induction items with
  | nil => rfl
  | cons v rest ih => simp [redactItems, ih]

theorem redactMembers_eq_map (members : List (String × PyValue)) :
    redactMembers sha256 repr rules members =
      members.map fun m => (m.1, redactField sha256 repr rules m.1 m.2) := by
  induction members with
  | nil => rfl
  | cons m rest ih => simp [redactMembers, redactField, ih]

@[simp] theorem redactValue_list (items : List PyValue) :
    redactValue sha256 repr rules (.list items) =
      .list (items.map (redactValue sha256 repr rules)) := by
  simp [redactValue, redactItems_eq_map]

@[simp] theorem redactValue_dict (members : List (String × PyValue)) :
    redactValue sha256 repr rules (.dict members) =
      .dict (members.map fun m => (m.1, redactField sha256 repr rules m.1 m.2)) := by
  simp [redactValue, redactMembers_eq_map]

@[simp] theorem redactValue_tuple (items : List PyValue) :
    redactValue sha256 repr rules (.tuple items) = .tuple items := by
  simp [redactValue]

/-- Without callbacks the walk is all there is. -/
theorem applyRedaction_nil (payload : PyValue) :
    applyRedaction sha256 repr rules payload [] = .ok (redactValue sha256 repr rules payload) := by
  unfold applyRedaction
  split
  · simp [redactValue]
  · rfl

end Walk

/-! ## What is left behind -/

/-- The text of a digest: `sha256:` and 64 hexadecimal digits. -/
def isDigest (s : String) : Bool :=
  decide (s.toList.take 7 = "sha256:".toList) && decide ((s.toList.drop 7).length = 64) &&
    (s.toList.drop 7).all fun c => decide (c ∈ "0123456789abcdef".toList)

/-- `None`, the sentinel or a digest. -/
def isReplacement : PyJson → Bool
  | .leaf .none => true
  | .leaf (.str s) => decide (s = redactedSentinel) || isDigest s
  | _ => false

/-- Some rule has this very field. -/
def isNamed (rules : List RedactionRule) (key : String) : Bool :=
  rules.any fun rule => decide (rule.field = some key)

/-- The pattern of some rule is found in the leaf. -/
def isMatched (rules : List RedactionRule) : Scalar → Bool
  | .str s => rules.any fun rule => rule.matchesText s
  | _ => false

/-- In `out`, which is what the payload became, every member with the field of a rule is replaced,
and so is every text of the payload that a pattern is found in and that is no part of such a
member. -/
structure LeavesNothingBehind (rules : List RedactionRule) (payload out : PyJson) : Prop where
  fields : JsonTree.MembersHold (fun key value => isNamed rules key = true → isReplacement value = true)
    out
  texts : JsonTree.LeavesBecome (fun key => isNamed rules key = true)
    (fun l => isMatched rules l = true) (fun value => isReplacement value = true) payload out

theorem membersHold_of_isReplacement {P : String → PyJson → Prop} {value : PyJson}
    (h : isReplacement value = true) : JsonTree.MembersHold P value := by
  cases value with
  | leaf l => exact JsonTree.membersHold_leaf l
  | arr items => cases h
  | obj members => cases h

namespace LeavesNothingBehind

variable {rules : List RedactionRule}

theorem leaf_iff {l : Scalar} {out : PyJson}
    (hout : JsonTree.MembersHold (fun key value => isNamed rules key = true → isReplacement value = true)
      out) :
    LeavesNothingBehind rules (.leaf l) out ↔ (isMatched rules l = true → isReplacement out = true) := by
  constructor
  · rintro ⟨_, htexts⟩
    exact JsonTree.leavesBecome_leaf_iff.1 htexts
  · intro h
    exact ⟨hout, JsonTree.leavesBecome_leaf_iff.2 h⟩

theorem arr_iff {α : Type} {items : List α} {f g : α → PyJson} :
    LeavesNothingBehind rules (.arr (items.map f)) (.arr (items.map g)) ↔
      ∀ a ∈ items, LeavesNothingBehind rules (f a) (g a) := by
  constructor
  · rintro ⟨hfields, htexts⟩ a ha
    exact ⟨JsonTree.membersHold_arr_iff.1 hfields _ (List.mem_map_of_mem ha),
      JsonTree.leavesBecome_arr_iff.1 htexts a ha⟩
  · intro h
    refine ⟨JsonTree.membersHold_arr_iff.2 fun t ht => ?_,
      JsonTree.leavesBecome_arr_iff.2 fun a ha => (h a ha).texts⟩
    rcases List.mem_map.1 ht with ⟨a, ha, rfl⟩
    exact (h a ha).fields

/-- A member whose key is a field has to be replaced, and what is behind another one has to be
clean. -/
theorem obj_iff {α : Type} {members : List α} {key : α → String} {f g : α → PyJson} :
    LeavesNothingBehind rules (.obj (members.map fun a => (key a, f a)))
        (.obj (members.map fun a => (key a, g a))) ↔
      ∀ a ∈ members, if isNamed rules (key a) then isReplacement (g a) = true
        else LeavesNothingBehind rules (f a) (g a) := by
  constructor
  · rintro ⟨hfields, htexts⟩ a ha
    have hmember := JsonTree.membersHold_obj_iff.1 hfields _ (List.mem_map_of_mem ha)
    split
    case isTrue hnamed => exact hmember.1 hnamed
    case isFalse hnamed =>
        exact ⟨hmember.2, JsonTree.leavesBecome_obj_iff.1 htexts a ha hnamed⟩
  · intro h
    refine ⟨JsonTree.membersHold_obj_iff.2 fun m hm => ?_,
      JsonTree.leavesBecome_obj_iff.2 fun a ha hopen => ?_⟩
    · rcases List.mem_map.1 hm with ⟨a, ha, rfl⟩
      have hmember := h a ha
      split at hmember
      case isTrue hnamed => exact ⟨fun _ => hmember, membersHold_of_isReplacement hmember⟩
      case isFalse hnamed => exact ⟨fun hkey => absurd hkey hnamed, hmember.fields⟩
    · have hmember := h a ha
      rw [if_neg hopen] at hmember
      exact hmember.texts

end LeavesNothingBehind

/-! ## What the walk leaves -/

theorem isDigest_sha256Hex (sha256 : Sha256) (data : Bytes) :
    isDigest (Python.sha256Hex sha256 data) = true := by
  have htext : (Python.sha256Hex sha256 data).toList =
      "sha256:".toList ++ hexdigest (sha256 data) := by
    simp [Python.sha256Hex]
  have hlength : (hexdigest (sha256 data)).length = 64 := by
    simp [hexdigest, List.length_flatMap]
  have hdigit : ∀ n < 16, Nat.digitChar n ∈ "0123456789abcdef".toList := by decide
  have hdigits : ∀ c ∈ hexdigest (sha256 data), c ∈ "0123456789abcdef".toList := by
    intro c hc
    rcases List.mem_flatMap.1 hc with ⟨b, _, hcb⟩
    have hb := b.toNat_lt
    rcases List.mem_pair.1 hcb with rfl | rfl
    · exact hdigit _ (by omega)
    · exact hdigit _ (by omega)
  have htake : ("sha256:".toList ++ hexdigest (sha256 data)).take 7 = "sha256:".toList :=
    List.take_left' rfl
  have hdrop : ("sha256:".toList ++ hexdigest (sha256 data)).drop 7 = hexdigest (sha256 data) :=
    List.drop_left' rfl
  rw [isDigest, htext, htake, hdrop, hlength, Bool.and_eq_true, Bool.and_eq_true]
  exact ⟨⟨decide_eq_true rfl, decide_eq_true rfl⟩,
    List.all_eq_true.2 fun c hc => decide_eq_true (hdigits c hc)⟩

mutual

/-- No text in the value has a match, and none of its members is named by a rule, except where there
is a replacement already. -/
def isClean (rules : List RedactionRule) : PyValue → Bool
  | .leaf l => !isMatched rules l || isReplacement (.leaf l)
  | .list items => isCleanItems rules items
  | .tuple items => isCleanItems rules items
  | .dict members => isCleanMembers rules members

def isCleanItems (rules : List RedactionRule) : List PyValue → Bool
  | [] => true
  | v :: rest => isClean rules v && isCleanItems rules rest

def isCleanMembers (rules : List RedactionRule) : List (String × PyValue) → Bool
  | [] => true
  | (k, v) :: rest =>
      (if isNamed rules k then isReplacement v.toJson else isClean rules v) &&
        isCleanMembers rules rest

end

/-- A text that a pattern is found in, or a replacement. -/
def isReplaceable (rules : List RedactionRule) : PyValue → Bool
  | .leaf l => isMatched rules l || isReplacement (.leaf l)
  | _ => false

mutual

/-- The tuples that the walk comes to are clean, and a member with an empty key that a rule names
is replaced as a text. -/
def isCovered (rules : List RedactionRule) : PyValue → Bool
  | .leaf _ => true
  | .list items => isCoveredItems rules items
  | .tuple items => isCleanItems rules items
  | .dict members => isCoveredMembers rules members

def isCoveredItems (rules : List RedactionRule) : List PyValue → Bool
  | [] => true
  | v :: rest => isCovered rules v && isCoveredItems rules rest

def isCoveredMembers (rules : List RedactionRule) : List (String × PyValue) → Bool
  | [] => true
  | (k, v) :: rest =>
      (if isNamed rules k then decide (k ≠ "") || isReplaceable rules v else isCovered rules v) &&
        isCoveredMembers rules rest

end

section Laws

variable {rules : List RedactionRule}

theorem isCleanItems_iff {items : List PyValue} :
    isCleanItems rules items = true ↔ ∀ v ∈ items, isClean rules v = true := by
  induction items with
  | nil => simp [isCleanItems]
  | cons v rest ih => simp [isCleanItems, ih]

theorem isCleanMembers_iff {members : List (String × PyValue)} :
    isCleanMembers rules members = true ↔
      ∀ m ∈ members, if isNamed rules m.1 then isReplacement m.2.toJson = true
        else isClean rules m.2 = true := by
  induction members with
  | nil => simp [isCleanMembers]
  | cons m rest ih =>
      rcases m with ⟨k, v⟩
      simp only [isCleanMembers, Bool.and_eq_true, ih, List.forall_mem_cons]
      split <;> rfl

theorem isCoveredItems_iff {items : List PyValue} :
    isCoveredItems rules items = true ↔ ∀ v ∈ items, isCovered rules v = true := by
  induction items with
  | nil => simp [isCoveredItems]
  | cons v rest ih => simp [isCoveredItems, ih]

theorem isCoveredMembers_iff {members : List (String × PyValue)} :
    isCoveredMembers rules members = true ↔
      ∀ m ∈ members, if isNamed rules m.1 then m.1 ≠ "" ∨ isReplaceable rules m.2 = true
        else isCovered rules m.2 = true := by
  induction members with
  | nil => simp [isCoveredMembers]
  | cons m rest ih =>
      rcases m with ⟨k, v⟩
      simp only [isCoveredMembers, Bool.and_eq_true, ih, List.forall_mem_cons]
      split <;> simp

/-- What is left as it is has to be clean. -/
theorem leavesNothingBehind_self_iff (v : PyValue) :
    LeavesNothingBehind rules v.toJson v.toJson ↔ isClean rules v = true := by
  induction v using PyValue.induct with
  | hleaf l =>
      rw [PyValue.toJson_leaf, LeavesNothingBehind.leaf_iff (JsonTree.membersHold_leaf l)]
      cases hmatched : isMatched rules l <;> simp [isClean, hmatched]
  | hlist items ih =>
      rw [PyValue.toJson_list, LeavesNothingBehind.arr_iff, isClean, isCleanItems_iff]
      exact forall₂_congr ih
  | htuple items ih =>
      rw [PyValue.toJson_tuple, LeavesNothingBehind.arr_iff, isClean, isCleanItems_iff]
      exact forall₂_congr ih
  | hdict members ih =>
      rw [PyValue.toJson_dict, LeavesNothingBehind.obj_iff, isClean, isCleanMembers_iff]
      refine forall₂_congr fun m hm => ?_
      split
      · rfl
      · exact ih m hm

variable (sha256 : Sha256) (repr : PyValue → String)

theorem isReplacement_applyMode (value : PyValue) (mode : RedactionMode) :
    isReplacement (applyMode sha256 repr value mode).toJson = true := by
  cases mode with
  | redact => simp [applyMode, isReplacement]
  | hash => simp [applyMode, isReplacement, isDigest_sha256Hex]
  | drop => simp [applyMode, isReplacement]

/-- A text is replaced exactly when a pattern is found in it. -/
theorem redactText_spec (value : String) :
    (isMatched rules (.str value) = true →
        isReplacement (redactText sha256 repr rules value).toJson = true) ∧
      (isMatched rules (.str value) = false →
        redactText sha256 repr rules value = .leaf (.str value)) := by
  unfold redactText
  constructor
  · intro hmatched
    cases hfind : rules.find? fun rule => rule.matchesText value with
    | none =>
        rcases List.any_eq_true.1 hmatched with ⟨rule, hrule, hmatches⟩
        exact absurd hmatches (List.find?_eq_none.1 hfind rule hrule)
    | some rule => exact isReplacement_applyMode sha256 repr _ _
  · intro hmatched
    have hfind : (rules.find? fun rule => rule.matchesText value) = none :=
      List.find?_eq_none.2 (List.any_eq_false.1 hmatched)
    rw [hfind]

theorem isReplacement_redactValue (v : PyValue) :
    isReplacement (redactValue sha256 repr rules v).toJson = isReplaceable rules v := by
  cases v with
  | leaf l =>
      cases l with
      | str s =>
          rcases @redactText_spec rules sha256 repr s with ⟨hreplaced, hkept⟩
          cases hmatched : isMatched rules (.str s) with
          | true => simp [redactValue, isReplaceable, hmatched, hreplaced hmatched]
          | false => simp [redactValue, isReplaceable, hmatched, hkept hmatched]
      | none => simp [redactValue, isReplaceable, isReplacement]
      | bool b => simp [redactValue, isReplaceable, isReplacement, isMatched]
      | int n => simp [redactValue, isReplaceable, isReplacement, isMatched]
      | float x => simp [redactValue, isReplaceable, isReplacement, isMatched]
      | unencodable => simp [redactValue, isReplaceable, isReplacement, isMatched]
  | list items => simp [isReplaceable, isReplacement]
  | tuple items => simp [isReplaceable, isReplacement]
  | dict members => simp [isReplaceable, isReplacement]

/-- A member is replaced where a rule has its key, unless the key is empty. -/
theorem redactField_spec (key : String) (value : PyValue) :
    (isNamed rules key = true → key ≠ "" →
        isReplacement (redactField sha256 repr rules key value).toJson = true) ∧
      (isNamed rules key = false ∨ key = "" →
        redactField sha256 repr rules key value = redactValue sha256 repr rules value) := by
  unfold redactField redactMember
  constructor
  · intro hnamed hkey
    cases hfind : rules.find? fun rule => rule.hasField key with
    | none =>
        rcases List.any_eq_true.1 hnamed with ⟨rule, hrule, hfield⟩
        have hmiss := List.find?_eq_none.1 hfind rule hrule
        simp [RedactionRule.hasField, of_decide_eq_true hfield, given, hkey] at hmiss
    | some rule => exact isReplacement_applyMode sha256 repr _ _
  · intro hopen
    have hfind : (rules.find? fun rule => rule.hasField key) = none := by
      refine List.find?_eq_none.2 fun rule hrule hfield => ?_
      rw [RedactionRule.hasField, Bool.and_eq_true, decide_eq_true_eq] at hfield
      rcases hfield with ⟨hgiven, hfield⟩
      rcases hopen with hopen | rfl
      · exact List.any_eq_false.1 hopen rule hrule (decide_eq_true hfield)
      · simp [hfield, given] at hgiven
    rw [hfind]

theorem redactValue_leavesNothingBehind_iff (v : PyValue) :
    LeavesNothingBehind rules v.toJson (redactValue sha256 repr rules v).toJson ↔
      isCovered rules v = true := by
  induction v using PyValue.induct with
  | hleaf l =>
      have hout : ∀ P, JsonTree.MembersHold P (redactValue sha256 repr rules (.leaf l)).toJson := by
        intro P
        cases hmatched : isReplaceable rules (.leaf l) with
        | true =>
            rw [← isReplacement_redactValue sha256 repr] at hmatched
            exact membersHold_of_isReplacement hmatched
        | false =>
            -- a leaf that is not replaced stays a leaf
            cases l with
            | str s =>
                simp only [isReplaceable, Bool.or_eq_false_iff] at hmatched
                rw [redactValue, (redactText_spec sha256 repr s).2 hmatched.1, PyValue.toJson_leaf]
                exact JsonTree.membersHold_leaf _
            | _ =>
                rw [redactValue, PyValue.toJson_leaf]
                · exact JsonTree.membersHold_leaf _
                · simp
      rw [PyValue.toJson_leaf, LeavesNothingBehind.leaf_iff (hout _), isReplacement_redactValue]
      simp only [isCovered, iff_true]
      intro hmatched
      simp [isReplaceable, hmatched]
  | hlist items ih =>
      rw [redactValue_list, PyValue.toJson_list, PyValue.toJson_list, List.map_map,
        LeavesNothingBehind.arr_iff, isCovered, isCoveredItems_iff]
      exact forall₂_congr ih
  | htuple items _ =>
      rw [redactValue_tuple, leavesNothingBehind_self_iff, isCovered, isClean]
  | hdict members ih =>
      rw [redactValue_dict, PyValue.toJson_dict, PyValue.toJson_dict, List.map_map,
        isCovered, isCoveredMembers_iff]
      refine LeavesNothingBehind.obj_iff.trans (forall₂_congr fun m hm => ?_)
      rcases @redactField_spec rules sha256 repr m.1 m.2 with ⟨hreplaced, hwalked⟩
      dsimp only [Function.comp]
      split
      case isTrue hnamed =>
          by_cases hkey : m.1 = ""
          · rw [hwalked (.inr hkey), isReplacement_redactValue]
            simp [hkey]
          · simp [hkey, hreplaced hnamed hkey]
      case isFalse hnamed =>
          rw [hwalked (.inl (by simpa using hnamed))]
          exact ih m hm

/-- Redaction leaves nothing behind exactly when the tuples in the payload hold nothing that a rule
is about. -/
theorem applyRedaction_leavesNothingBehind_iff (payload : PyValue) :
    ∃ out, applyRedaction sha256 repr rules payload [] = .ok out ∧
      (LeavesNothingBehind rules payload.toJson out.toJson ↔ isCovered rules payload = true) :=
  ⟨redactValue sha256 repr rules payload, applyRedaction_nil sha256 repr rules payload,
    redactValue_leavesNothingBehind_iff sha256 repr payload⟩

end Laws

/-! ## A tuple -/

namespace RedactionExample

def ssnRule : RedactionRule :=
  { field := some "ssn", search := none, mode := .redact, required := .inl rfl }

def ssn : PyValue :=
  .dict [("ssn", .leaf (.str "111-22-3333"))]

/-- `{"customers": ({"ssn": "111-22-3333"},)}`. -/
def payload : PyValue :=
  .dict [("customers", .tuple [ssn])]

def sha256 (_ : Bytes) : Vector UInt8 32 :=
  Vector.replicate 32 0

def repr (_ : PyValue) : String :=
  "'111-22-3333'"

end RedactionExample

/-- The walk stops in front of a tuple. -/
theorem tuple_leaks :
    applyRedaction RedactionExample.sha256 RedactionExample.repr [RedactionExample.ssnRule]
        RedactionExample.payload [] = .ok RedactionExample.payload ∧
      ¬ LeavesNothingBehind [RedactionExample.ssnRule] RedactionExample.payload.toJson
        RedactionExample.payload.toJson := by
  have hkept : redactValue RedactionExample.sha256 RedactionExample.repr [RedactionExample.ssnRule]
      RedactionExample.payload = RedactionExample.payload := rfl
  constructor
  · rw [applyRedaction_nil, hkept]
  · intro h
    have hcovered := (redactValue_leavesNothingBehind_iff RedactionExample.sha256
      RedactionExample.repr RedactionExample.payload).1 (by rw [hkept]; exact h)
    exact absurd hcovered (by decide)

end Sdk
end ControlDB
