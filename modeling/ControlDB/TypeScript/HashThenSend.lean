import ControlDB.Library.JsonMembers
import ControlDB.TypeScript.Injective
import ControlDB.TypeScript.Redaction

/-!
# Hash, then send

`_emit` hashes the payload as it is in memory, and the collector hashes what `JSON.stringify` lets
through.  A member that is `undefined` is hashed as `null` and not sent, so the two hashes agree
exactly if no object has such a member by the time the payload is hashed.
-/

namespace ControlDB
namespace TypeScript

open Library Library.Utf16

/-! ## Values of a payload -/

/-- `null`, a boolean, a safe integer or a string. -/
def IsPlain (l : JsLeaf) : Prop :=
  ∃ m : PlainLeaf, m.toJs = l

/-- A plain leaf or `undefined`. -/
def IsPayloadLeaf (l : JsLeaf) : Prop :=
  l = .undefined ∨ IsPlain l

/-- Every object of the value has only members that are not `undefined`. -/
def AllDefined (v : JsValue) : Prop :=
  v.EveryReached (fun _ => False) fun _ member => member ≠ undefined

/-- A value of distinct keys and plain leaves is one of a plain value. -/
theorem exists_plainValue {v : JsValue} (hleaves : v.EveryLeaf IsPlain)
    (hdistinct : v.EveryObject List.Nodup) : ∃ p : PlainValue, p.toJs = v := by
  rcases JsonTree.exists_map_of_everyLeaf hleaves with ⟨tree, rfl⟩
  have htree : tree.EveryObject List.Nodup := by
    have hmap := (JsonTree.everyObject_map_iff PlainLeaf.toJs id).1 hdistinct
    simpa using hmap
  exact ⟨⟨tree, htree⟩, rfl⟩

/-! ## `undefined` is hashed as `null` -/

def nullLeaf (l : JsLeaf) : JsLeaf :=
  if l = .undefined then .null else l

/-- The value with `null` for `undefined`. -/
def nullify (v : JsValue) : JsValue :=
  v.map nullLeaf id

mutual

theorem canonicalJson_nullify : ∀ v : JsValue, canonicalJson (v.map nullLeaf id) = canonicalJson v
  | .leaf l => by cases l <;> rfl
  | .arr items => by rw [JsonTree.map, canonicalJson, canonicalJson, itemsJson_nullify items]
  | .obj members => by
      have hkeys : (JsonTree.mapMembers nullLeaf id members).map Prod.fst = members.map Prod.fst := by
        rw [JsonTree.mapMembers_eq_map, List.map_map]
        rfl
      rw [JsonTree.map, canonicalJson, canonicalJson, valuesJson_nullify members, hkeys]

theorem itemsJson_nullify : ∀ items : List JsValue,
    itemsJson (JsonTree.mapItems nullLeaf id items) = itemsJson items
  | [] => rfl
  | v :: rest => by
      rw [JsonTree.mapItems, itemsJson, itemsJson, canonicalJson_nullify v, itemsJson_nullify rest]

theorem valuesJson_nullify : ∀ members : List (JsString × JsValue),
    valuesJson (JsonTree.mapMembers nullLeaf id members) = valuesJson members
  | [] => rfl
  | (k, v) :: rest => by
      rw [JsonTree.mapMembers, valuesJson, valuesJson, canonicalJson_nullify v,
        valuesJson_nullify rest]
      rfl

end

theorem isPlain_nullLeaf_iff (l : JsLeaf) : IsPlain (nullLeaf l) ↔ IsPayloadLeaf l := by
  unfold nullLeaf IsPayloadLeaf
  split_ifs with hundefined
  · exact ⟨fun _ => .inl hundefined, fun _ => ⟨.null, rfl⟩⟩
  · exact ⟨.inr, fun h => h.resolve_left hundefined⟩

/-! ## What is received -/

theorem isPlain_null : IsPlain .null :=
  ⟨.null, rfl⟩

/-- A leaf of a payload is sent as it is, unless it is `undefined`. -/
theorem reparse_leaf {l : JsLeaf} (h : IsPayloadLeaf l) :
    l = .undefined ∧ reparse (.leaf l) = none ∨
      l ≠ .undefined ∧ IsPlain l ∧ reparse (.leaf l) = some (.leaf l) := by
  rcases h with rfl | ⟨m, rfl⟩
  · exact .inl ⟨rfl, rfl⟩
  · refine .inr ⟨?_, ⟨m, rfl⟩, ?_⟩
    · cases m <;> simp [PlainLeaf.toJs]
    · cases m <;> rfl

mutual

theorem everyLeaf_reparse : ∀ {v w : JsValue}, v.EveryLeaf IsPayloadLeaf → reparse v = some w →
    w.EveryLeaf IsPlain
  | .leaf l, w, h, hw => by
      rcases reparse_leaf h with ⟨_, hnone⟩ | ⟨_, hplain, hsome⟩
      · rw [hnone] at hw
        cases hw
      · rw [hsome] at hw
        cases hw
        exact hplain
  | .arr items, w, h, hw => by
      rw [reparse] at hw
      cases hw
      exact everyLeafItem_reparse h
  | .obj members, w, h, hw => by
      rw [reparse] at hw
      cases hw
      exact everyLeafMember_reparse h

theorem everyLeafItem_reparse : ∀ {items : List JsValue},
    JsonTree.EveryLeafItem IsPayloadLeaf items →
    JsonTree.EveryLeafItem IsPlain (reparseItems items)
  | [], _ => trivial
  | v :: rest, h => by
      refine ⟨?_, everyLeafItem_reparse h.2⟩
      cases hv : reparse v with
      | none => exact isPlain_null
      | some w => exact everyLeaf_reparse h.1 hv

theorem everyLeafMember_reparse : ∀ {members : List (JsString × JsValue)},
    JsonTree.EveryLeafMember IsPayloadLeaf members →
    JsonTree.EveryLeafMember IsPlain (reparseMembers members)
  | [], _ => trivial
  | (k, v) :: rest, h => by
      have hrest := everyLeafMember_reparse h.2
      rw [reparseMembers]
      cases hv : reparse v with
      | none => exact hrest
      | some w => exact ⟨everyLeaf_reparse h.1 hv, hrest⟩

end

theorem keys_reparseMembers (members : List (JsString × JsValue)) :
    ((reparseMembers members).map Prod.fst).Sublist (members.map Prod.fst) := by
  induction members with
  | nil => exact List.Sublist.slnil
  | cons m rest ih =>
      rcases m with ⟨k, v⟩
      rw [reparseMembers]
      cases reparse v with
      | none => exact ih.cons k
      | some w => exact ih.cons_cons k

mutual

theorem everyObject_reparse : ∀ {v w : JsValue}, v.EveryObject List.Nodup → reparse v = some w →
    w.EveryObject List.Nodup
  | .leaf l, w, _, hw => by
      have hleaf : ∃ m, w = .leaf m := by
        cases l with
        | number x => cases x <;> cases hw <;> exact ⟨_, rfl⟩
        | undefined => cases hw
        | other text => cases hw
        | null => cases hw; exact ⟨_, rfl⟩
        | boolean b => cases hw; exact ⟨_, rfl⟩
        | string s => cases hw; exact ⟨_, rfl⟩
      rcases hleaf with ⟨m, rfl⟩
      exact trivial
  | .arr items, w, h, hw => by
      rw [reparse] at hw
      cases hw
      exact everyItem_reparse h
  | .obj members, w, h, hw => by
      rw [reparse] at hw
      cases hw
      exact ⟨h.1.sublist (keys_reparseMembers members), everyMember_reparse h.2⟩

theorem everyItem_reparse : ∀ {items : List JsValue}, JsonTree.EveryItem List.Nodup items →
    JsonTree.EveryItem List.Nodup (reparseItems items)
  | [], _ => trivial
  | v :: rest, h => by
      refine ⟨?_, everyItem_reparse h.2⟩
      cases hv : reparse v with
      | none => exact trivial
      | some w => exact everyObject_reparse h.1 hv

theorem everyMember_reparse : ∀ {members : List (JsString × JsValue)},
    JsonTree.EveryMember List.Nodup members →
    JsonTree.EveryMember List.Nodup (reparseMembers members)
  | [], _ => trivial
  | (k, v) :: rest, h => by
      have hrest := everyMember_reparse h.2
      rw [reparseMembers]
      cases hv : reparse v with
      | none => exact hrest
      | some w => exact ⟨everyObject_reparse h.1 hv, hrest⟩

end

/-! ## When nothing is left out -/

/-- Every member is defined, in the list of items and in the list of members. -/
abbrev ItemsDefined (items : List JsValue) : Prop :=
  JsonTree.ReachedItems (fun _ => False) (fun _ member => member ≠ undefined) items

abbrev MembersDefined (members : List (JsString × JsValue)) : Prop :=
  JsonTree.ReachedMembers (fun _ => False) (fun _ member => member ≠ undefined) members

/-- Only `undefined` has no text. -/
theorem reparse_cases {v : JsValue} (h : v.EveryLeaf IsPayloadLeaf) :
    v = undefined ∧ reparse v = none ∨ v ≠ undefined ∧ ∃ w, reparse v = some w := by
  cases v with
  | leaf l =>
      rcases reparse_leaf h with ⟨rfl, hnone⟩ | ⟨hne, _, hsome⟩
      · exact .inl ⟨rfl, hnone⟩
      · exact .inr ⟨fun heq => hne (JsonTree.leaf.inj heq), _, hsome⟩
  | arr items => exact .inr ⟨by simp [undefined], _, rfl⟩
  | obj members => exact .inr ⟨by simp [undefined], _, rfl⟩

mutual

/-- `JSON.stringify` leaves out members that are `undefined`, and nothing else. -/
theorem loses_reparse : ∀ {v w : JsValue}, v.EveryLeaf IsPayloadLeaf → reparse v = some w →
    JsonTree.Loses (AllDefined v) w.memberCount v.memberCount (w = v.map nullLeaf id)
  | .leaf l, w, h, hw => by
      rcases reparse_leaf h with ⟨_, hnone⟩ | ⟨hne, _, hsome⟩
      · rw [hnone] at hw
        cases hw
      · rw [hsome] at hw
        cases hw
        refine .none trivial ?_
        rw [JsonTree.map, nullLeaf, if_neg hne]
  | .arr items, w, h, hw => by
      rw [reparse] at hw
      cases hw
      exact (loses_reparseItems h).congr Iff.rfl (congrArg JsonTree.arr)
  | .obj members, w, h, hw => by
      rw [reparse] at hw
      cases hw
      exact (loses_reparseMembers h).congr Iff.rfl (congrArg JsonTree.obj)

theorem loses_reparseItems : ∀ {items : List JsValue},
    JsonTree.EveryLeafItem IsPayloadLeaf items →
    JsonTree.Loses (ItemsDefined items) (JsonTree.itemsCount (reparseItems items))
      (JsonTree.itemsCount items) (reparseItems items = JsonTree.mapItems nullLeaf id items)
  | [], _ => .none trivial rfl
  | v :: rest, h => by
      have hrest := loses_reparseItems h.2
      -- an item that is `undefined` is `null` on both sides
      have hv : JsonTree.Loses (AllDefined v) ((reparse v).getD null).memberCount v.memberCount
          ((reparse v).getD null = v.map nullLeaf id) := by
        rcases reparse_cases h.1 with ⟨rfl, hnone⟩ | ⟨_, w, hsome⟩
        · rw [hnone]
          exact .none trivial rfl
        · rw [hsome]
          exact loses_reparse h.1 hsome
      refine (hv.add hrest).congr Iff.rfl ?_
      rintro ⟨hhead, htail⟩
      rw [reparseItems, JsonTree.mapItems, hhead, htail]

theorem loses_reparseMembers : ∀ {members : List (JsString × JsValue)},
    JsonTree.EveryLeafMember IsPayloadLeaf members →
    JsonTree.Loses (MembersDefined members) (JsonTree.membersCount (reparseMembers members))
      (JsonTree.membersCount members)
      (reparseMembers members = JsonTree.mapMembers nullLeaf id members)
  | [], _ => .none trivial rfl
  | (k, v) :: rest, h => by
      have hrest := loses_reparseMembers h.2
      rcases reparse_cases h.1 with ⟨rfl, hnone⟩ | ⟨hne, w, hsome⟩
      -- a member that is `undefined` is missing
      · rw [reparseMembers, hnone]
        exact .missing hrest.le fun hall => hall.1.1 rfl
      · have hv := loses_reparse h.1 hsome
        rw [reparseMembers, hsome]
        refine (hv.member.add hrest).congr ?_ ?_
        · simp [JsonTree.ReachedMembers, hne, AllDefined]
        · rintro ⟨hhead, htail⟩
          simp only [hhead, htail, JsonTree.mapMembers, id]

end

/-- The text of what is received is the text that was hashed exactly if no member was `undefined`. -/
theorem canonicalJson_reparse_iff {v w : JsValue} (hleaves : v.EveryLeaf IsPayloadLeaf)
    (hdistinct : v.EveryObject List.Nodup) (hw : reparse v = some w) :
    canonicalJson w = canonicalJson v ↔ AllDefined v := by
  have hsent := loses_reparse hleaves hw
  have hnulled : (v.map nullLeaf id).EveryObject List.Nodup := by
    rw [JsonTree.everyObject_map_iff]
    simpa using hdistinct
  rcases exists_plainValue (everyLeaf_reparse hleaves hw) (everyObject_reparse hdistinct hw) with
    ⟨p, rfl⟩
  rcases exists_plainValue ((JsonTree.everyLeaf_map_iff isPlain_nullLeaf_iff).2 hleaves) hnulled with
    ⟨q, hq⟩
  constructor
  · intro h
    rw [← canonicalJson_nullify v, ← hq, canonicalJson_plain, canonicalJson_plain, Except.ok.injEq,
      encode_injective.eq_iff,
      (JsonTree.text_injective PlainLeaf.text_leafCode quoteUnits_keyCode).eq_iff] at h
    apply hsent.kept_of_eq
    calc p.toJs.memberCount
        = p.tree.memberCount := JsonTree.memberCount_map _ _ _
      _ = q.tree.memberCount := JsonTree.memberCount_eq_of_sortKeys h
      _ = q.toJs.memberCount := (JsonTree.memberCount_map _ _ _).symm
      _ = v.memberCount := by rw [hq, JsonTree.memberCount_map]
  · intro h
    rw [hsent.same_of_kept h, canonicalJson_nullify]

/-! ## Redaction -/

/-- No member that the walk reaches is made `undefined` by it. -/
def Lossless (rules : List CompiledRule) (v : JsValue) : Prop :=
  v.EveryReached (fun k => isClosed rules k = true) fun k member =>
    isClosed rules k = true ∨ isLost rules member = false

section Redacted

variable {sha256 : Sha256} {rules : List CompiledRule}

theorem isPayloadLeaf_string (s : JsString) : IsPayloadLeaf (.string s) :=
  .inr ⟨.string s, rfl⟩

theorem redactValue_undefined_iff {v r : JsValue}
    (h : redactValue sha256 rules (deepCopy v) = .ok r) : r ≠ undefined ↔ isLost rules v = false := by
  cases v with
  | leaf l =>
      rcases redactValue_leaf h with ⟨hlost, rfl⟩ | ⟨hkept, hne, _⟩
      · simp [hlost]
      · simp [hkept, hne]
  | arr items =>
      rcases redactValue_arr h with ⟨ws, _, rfl⟩
      simp [isLost, undefined]
  | obj members =>
      rcases redactValue_obj h with ⟨ws, _, rfl⟩
      simp [isLost, undefined]

mutual

theorem everyLeaf_redact : ∀ {v r : JsValue}, v.EveryLeaf IsPayloadLeaf →
    redactValue sha256 rules (deepCopy v) = .ok r → r.EveryLeaf IsPayloadLeaf
  | .leaf l, r, hleaf, h => by
      rcases redactValue_leaf h with ⟨_, rfl⟩ | ⟨_, _, rfl | ⟨s, rfl⟩⟩
      · exact .inl rfl
      · exact hleaf
      · exact isPayloadLeaf_string s
  | .arr items, r, hleaf, h => by
      rcases redactValue_arr h with ⟨ws, hws, rfl⟩
      exact everyLeafItem_redact hleaf hws
  | .obj members, r, hleaf, h => by
      rcases redactValue_obj h with ⟨ws, hws, rfl⟩
      exact everyLeafMember_redact hleaf hws

theorem everyLeafItem_redact : ∀ {items ws : List JsValue},
    JsonTree.EveryLeafItem IsPayloadLeaf items →
    redactItems sha256 rules (copyItems items) = .ok ws → JsonTree.EveryLeafItem IsPayloadLeaf ws
  | [], ws, _, h => by
      cases h
      exact trivial
  | v :: rest, ws, hleaf, h => by
      rcases redactItems_cons h with ⟨w, ws', hw, hws', rfl⟩
      exact ⟨everyLeaf_redact hleaf.1 hw, everyLeafItem_redact hleaf.2 hws'⟩

theorem everyLeafMember_redact : ∀ {members ws : List (JsString × JsValue)},
    JsonTree.EveryLeafMember IsPayloadLeaf members →
    redactMembers sha256 rules (assigned (copyMembers members)) = .ok ws →
    JsonTree.EveryLeafMember IsPayloadLeaf (assigned ws)
  | [], ws, _, h => by
      cases h
      exact trivial
  | (k, v) :: rest, ws, hleaf, h => by
      rcases redactMembers_cons h with ⟨ws', hws', ⟨_, heq | ⟨s, heq⟩⟩ | ⟨_, w, hw, heq⟩⟩
      · rw [heq]
        exact everyLeafMember_redact hleaf.2 hws'
      · rw [heq]
        exact ⟨isPayloadLeaf_string s, everyLeafMember_redact hleaf.2 hws'⟩
      · rw [heq]
        exact ⟨everyLeaf_redact hleaf.1 hw, everyLeafMember_redact hleaf.2 hws'⟩

end

theorem keys_redactMembers {members ws : List (JsString × JsValue)}
    (h : redactMembers sha256 rules (assigned (copyMembers members)) = .ok ws) :
    ((assigned ws).map Prod.fst).Sublist (members.map Prod.fst) := by
  induction members generalizing ws with
  | nil =>
      cases h
      exact List.Sublist.slnil
  | cons m rest ih =>
      rcases m with ⟨k, v⟩
      rcases redactMembers_cons h with ⟨ws', hws', ⟨_, heq | ⟨s, heq⟩⟩ | ⟨_, w, _, heq⟩⟩
      · rw [heq]
        exact (ih hws').cons k
      · rw [heq]
        exact (ih hws').cons_cons k
      · rw [heq]
        exact (ih hws').cons_cons k

mutual

theorem everyObject_redact : ∀ {v r : JsValue}, v.EveryObject List.Nodup →
    redactValue sha256 rules (deepCopy v) = .ok r → r.EveryObject List.Nodup
  | .leaf l, r, _, h => by
      rcases redactValue_leaf h with ⟨_, rfl⟩ | ⟨_, _, rfl | ⟨s, rfl⟩⟩
      · exact trivial
      · exact trivial
      · exact trivial
  | .arr items, r, hnodup, h => by
      rcases redactValue_arr h with ⟨ws, hws, rfl⟩
      exact everyItem_redact hnodup hws
  | .obj members, r, hnodup, h => by
      rcases redactValue_obj h with ⟨ws, hws, rfl⟩
      exact ⟨hnodup.1.sublist (keys_redactMembers hws),
        everyMember_redact hnodup.2 hws⟩

theorem everyItem_redact : ∀ {items ws : List JsValue}, JsonTree.EveryItem List.Nodup items →
    redactItems sha256 rules (copyItems items) = .ok ws → JsonTree.EveryItem List.Nodup ws
  | [], ws, _, h => by
      cases h
      exact trivial
  | v :: rest, ws, hnodup, h => by
      rcases redactItems_cons h with ⟨w, ws', hw, hws', rfl⟩
      exact ⟨everyObject_redact hnodup.1 hw, everyItem_redact hnodup.2 hws'⟩

theorem everyMember_redact : ∀ {members ws : List (JsString × JsValue)},
    JsonTree.EveryMember List.Nodup members →
    redactMembers sha256 rules (assigned (copyMembers members)) = .ok ws →
    JsonTree.EveryMember List.Nodup (assigned ws)
  | [], ws, _, h => by
      cases h
      exact trivial
  | (k, v) :: rest, ws, hnodup, h => by
      rcases redactMembers_cons h with ⟨ws', hws', ⟨_, heq | ⟨s, heq⟩⟩ | ⟨_, w, hw, heq⟩⟩
      · rw [heq]
        exact everyMember_redact hnodup.2 hws'
      · rw [heq]
        exact ⟨trivial, everyMember_redact hnodup.2 hws'⟩
      · rw [heq]
        exact ⟨everyObject_redact hnodup.1 hw, everyMember_redact hnodup.2 hws'⟩

end

mutual

/-- The members of a redacted value are defined exactly if no member that is reached was lost. -/
theorem allDefined_redact_iff : ∀ {v r : JsValue}, redactValue sha256 rules (deepCopy v) = .ok r →
    (AllDefined r ↔ Lossless rules v)
  | .leaf l, r, h => by
      rcases redactValue_leaf h with ⟨_, rfl⟩ | ⟨_, _, rfl | ⟨s, rfl⟩⟩
      · exact Iff.rfl
      · exact Iff.rfl
      · exact Iff.rfl
  | .arr items, r, h => by
      rcases redactValue_arr h with ⟨ws, hws, rfl⟩
      exact reachedItems_redact_iff hws
  | .obj members, r, h => by
      rcases redactValue_obj h with ⟨ws, hws, rfl⟩
      exact reachedMembers_redact_iff hws

theorem reachedItems_redact_iff : ∀ {items ws : List JsValue},
    redactItems sha256 rules (copyItems items) = .ok ws →
    (JsonTree.ReachedItems (fun _ => False) (fun _ member => member ≠ undefined) ws ↔
      JsonTree.ReachedItems (fun k => isClosed rules k = true)
        (fun k member => isClosed rules k = true ∨ isLost rules member = false) items)
  | [], ws, h => by
      cases h
      exact Iff.rfl
  | v :: rest, ws, h => by
      rcases redactItems_cons h with ⟨w, ws', hw, hws', rfl⟩
      exact and_congr (allDefined_redact_iff hw) (reachedItems_redact_iff hws')

theorem reachedMembers_redact_iff : ∀ {members ws : List (JsString × JsValue)},
    redactMembers sha256 rules (assigned (copyMembers members)) = .ok ws →
    (JsonTree.ReachedMembers (fun _ => False) (fun _ member => member ≠ undefined) (assigned ws) ↔
      JsonTree.ReachedMembers (fun k => isClosed rules k = true)
        (fun k member => isClosed rules k = true ∨ isLost rules member = false) members)
  | [], ws, h => by
      cases h
      exact Iff.rfl
  | (k, v) :: rest, ws, h => by
      rcases redactMembers_cons h with ⟨ws', hws', ⟨hclosed, heq | ⟨s, heq⟩⟩ | ⟨hopen, w, hw, heq⟩⟩
      · rw [heq, reachedMembers_redact_iff hws', JsonTree.ReachedMembers]
        simp [hclosed]
      · rw [heq, JsonTree.ReachedMembers, reachedMembers_redact_iff hws', JsonTree.ReachedMembers]
        simp [hclosed, JsonTree.EveryReached, string, undefined]
      · have hvalue := allDefined_redact_iff hw
        rw [AllDefined, Lossless] at hvalue
        rw [heq, JsonTree.ReachedMembers, reachedMembers_redact_iff hws', JsonTree.ReachedMembers,
          hvalue, redactValue_undefined_iff hw]
        simp [hopen]

end

end Redacted

/-! ## Events -/

/-- `JSON.parse(JSON.stringify(event)).payload`. -/
def receivedPayload (members : List (JsString × JsValue)) : Option JsValue :=
  match reparse (.obj members) with
  | some (.obj ms) => ms.lookup (units "payload")
  | _ => none

/-- The `payload_hash` of the event is the hash of the payload that is received. -/
def HashMatches (sha256 : Sha256) (members : List (JsString × JsValue)) : Prop :=
  ∃ payload hash, receivedPayload members = some payload ∧
    computePayloadHash sha256 payload = .ok hash ∧
    members.lookup (units "payload_hash") = some (string (units hash))

/-- What the two sides take the digest of. -/
def hashedBytes (members : List (JsString × JsValue)) : Set Bytes :=
  {data | ∃ v text, (members.lookup (units "payload") = some v ∨ receivedPayload members = some v) ∧
    canonicalJson v = .ok text ∧ data = utf8 text}

theorem lookup_reparseMembers {members : List (JsString × JsValue)} {k : JsString} {v w : JsValue}
    (h : members.lookup k = some v) (hw : reparse v = some w) :
    (reparseMembers members).lookup k = some w := by
  induction members with
  | nil => cases h
  | cons m rest ih =>
      rcases m with ⟨k', v'⟩
      rw [List.lookup_cons] at h
      by_cases hk : k = k'
      · subst hk
        simp only [beq_self_eq_true] at h
        rcases Option.some.inj h with rfl
        simp [reparseMembers, hw]
      · have hne : (k == k') = false := by simpa using hk
        rw [hne] at h
        rw [reparseMembers]
        cases reparse v' with
        | none => exact ih h
        | some w' =>
            simp only [List.lookup_cons, hne]
            exact ih h

section Emitted

variable {env : Env} {client : Client} {run : RunOptions}

/-- The event that was put into the buffer is the one that was built. -/
theorem built_of_emitted {s : RunState} {e : Emission} {event : EventObject}
    (h : (emit env client run s e).queue.emitted = s.queue.emitted ++ [event]) :
    (buildEvent env client run s.chain e).2 = .ok event.members := by
  unfold emit at h
  rcases hbuilt : buildEvent env client run s.chain e with ⟨chain, built⟩
  rw [hbuilt] at h
  cases built with
  | error x =>
      have hlength := congrArg List.length h
      simp at hlength
  | ok members =>
      have hpush : s.queue.emitted ++ [⟨s.queue.emitted.length, members⟩] =
          s.queue.emitted ++ [event] := by
        rw [← h]
        dsimp only
        split_ifs with hfull
        · unfold Queue.flush
          split_ifs with hempty <;> rfl
        · rfl
      rcases List.append_cancel_left hpush with h'
      cases h'
      rfl

/-- An event that is built is put into the buffer. -/
theorem emitted_of_built {s : RunState} {e : Emission} {members : List (JsString × JsValue)}
    (h : (buildEvent env client run s.chain e).2 = .ok members) :
    (emit env client run s e).queue.emitted =
      s.queue.emitted ++ [⟨s.queue.emitted.length, members⟩] := by
  unfold emit
  rcases hbuilt : buildEvent env client run s.chain e with ⟨chain, built⟩
  rw [hbuilt] at h
  simp only at h
  subst h
  dsimp only
  split_ifs with hfull
  · unfold Queue.flush
    split_ifs with hempty <;> rfl
  · rfl

/-- An event has the payload that was captured, and its hash. -/
theorem buildEvent_payload {chain : Chain} {e : Emission} {members : List (JsString × JsValue)}
    (h : (buildEvent env client run chain e).2 = .ok members) :
    ∃ payload hash,
      capturePayload env client (e.options.payloadMode.getD client.defaultPayloadMode) e =
        .ok (payload, hash) ∧
      members.lookup (units "payload") = some payload ∧
      members.lookup (units "payload_hash") = some (orNull (hash.map units)) := by
  have htype : ¬ e.eventType ∉ eventTypes.map units := by
    intro hunknown
    rw [buildEvent, if_pos hunknown] at h
    cases h
  rw [buildEvent, if_neg htype] at h
  dsimp only at h
  cases hcapture : capturePayload env client
      (e.options.payloadMode.getD client.defaultPayloadMode) e with
  | error x =>
      rw [hcapture] at h
      cases h
  | ok captured =>
      rcases captured with ⟨payload, hash⟩
      rw [hcapture] at h
      dsimp only at h
      split at h
      · cases h
      · cases h
        exact ⟨payload, hash, rfl, rfl, rfl⟩

end Emitted

/-! ## Hashes of texts -/

theorem units_eq_encode {s : String} (h : ∀ c ∈ s.toList, c.toNat < 0x80) :
    units s = encode s.toList :=
  (encode_ascii h).symm

theorem sha256Hex_ascii (sha256 : Sha256) (data : JsString) :
    ∀ c ∈ (sha256Hex sha256 data).toList, c.toNat < 0x80 := by
  intro c hc
  simp only [sha256Hex, String.toList_append, String.toList_ofList] at hc
  rcases List.mem_append.1 hc with hprefix | hhex
  · have hall : "sha256:".toList.all (fun c => decide (c.toNat < 0x80)) = true := by decide
    exact of_decide_eq_true (List.all_eq_true.1 hall c hprefix)
  · rw [Python.hexdigest] at hhex
    rcases List.mem_flatMap.1 hhex with ⟨b, _, hb⟩
    have hlt : b.toNat < 256 := b.toNat_lt
    simp only [List.mem_cons, List.not_mem_nil, or_false] at hb
    rcases hb with rfl | rfl
    · exact digitChar_ascii (by omega)
    · exact digitChar_ascii (by omega)

theorem units_sha256Hex_inj {sha256 : Sha256} {a b : JsString}
    (h : units (sha256Hex sha256 a) = units (sha256Hex sha256 b)) :
    sha256 (utf8 a) = sha256 (utf8 b) := by
  rw [units_eq_encode (sha256Hex_ascii sha256 a), units_eq_encode (sha256Hex_ascii sha256 b)] at h
  exact Python.sha256Hex_eq (String.toList_injective (encode_injective h))

/-- The text of a payload has no lone surrogates. -/
theorem exists_text {v : JsValue} (hleaves : v.EveryLeaf IsPayloadLeaf)
    (hdistinct : v.EveryObject List.Nodup) : ∃ text, canonicalJson v = .ok (encode text) := by
  have hnulled : (v.map nullLeaf id).EveryObject List.Nodup := by
    rw [JsonTree.everyObject_map_iff]
    simpa using hdistinct
  rcases exists_plainValue ((JsonTree.everyLeaf_map_iff isPlain_nullLeaf_iff).2 hleaves) hnulled with
    ⟨q, hq⟩
  exact ⟨_, by rw [← canonicalJson_nullify v, ← hq, canonicalJson_plain]⟩

theorem computePayloadHash_obj {sha256 : Sha256} {members : List (JsString × JsValue)}
    {text : JsString} (h : canonicalJson (.obj members) = .ok text) :
    computePayloadHash sha256 (.obj members) = .ok (sha256Hex sha256 text) := by
  simp only [computePayloadHash, h]
  rfl

/-- Where both sides have one text, there is one digest to take. -/
theorem hashedBytes_subsingleton {members : List (JsString × JsValue)} {v w : JsValue}
    (hpayload : members.lookup (units "payload") = some v) (hw : receivedPayload members = some w)
    (h : canonicalJson w = canonicalJson v) : (hashedBytes members).Subsingleton := by
  have hone : ∀ data ∈ hashedBytes members, ∀ text, canonicalJson v = .ok text → data = utf8 text := by
    rintro data ⟨u, text', hu, htext', rfl⟩ text htext
    rcases hu with hu | hu
    · rcases Option.some.inj (hpayload.symm.trans hu) with rfl
      rw [Except.ok.inj (htext'.symm.trans htext)]
    · rcases Option.some.inj (hw.symm.trans hu) with rfl
      rw [Except.ok.inj (htext'.symm.trans (h.trans htext))]
  intro a ha b hb
  rcases ha with ⟨u, text, hu, htext, rfl⟩
  have hv : canonicalJson v = .ok text := by
    rcases hu with hu | hu
    · rw [← htext, Option.some.inj (hpayload.symm.trans hu)]
    · rw [← htext, ← h, Option.some.inj (hw.symm.trans hu)]
  exact (hone b hb text hv).symm

/-- An event with its payload and the hash of it. -/
theorem hashMatches_iff_allDefined {sha256 : Sha256} {members payload : List (JsString × JsValue)}
    {hash : String} (hleaves : (JsonTree.obj payload).EveryLeaf IsPayloadLeaf)
    (hdistinct : (JsonTree.obj payload).EveryObject List.Nodup)
    (hpayload : members.lookup (units "payload") = some (.obj payload))
    (hhash : computePayloadHash sha256 (.obj payload) = .ok hash)
    (hfield : members.lookup (units "payload_hash") = some (string (units hash)))
    (hsha : Set.InjOn sha256 (hashedBytes members)) :
    HashMatches sha256 members ↔ AllDefined (.obj payload) := by
  have hreparse : reparse (.obj payload) = some (.obj (reparseMembers payload)) := rfl
  have hreceived : receivedPayload members = some (.obj (reparseMembers payload)) :=
    lookup_reparseMembers hpayload hreparse
  rcases exists_plainValue (everyLeaf_reparse hleaves hreparse)
    (everyObject_reparse hdistinct hreparse) with ⟨p, hp⟩
  have htext' : canonicalJson (.obj (reparseMembers payload)) =
      .ok (encode (p.tree.sortKeys.text PlainLeaf.text quoteUnits)) := by
    rw [← hp, canonicalJson_plain]
  rcases exists_text hleaves hdistinct with ⟨text, htext⟩
  rw [← canonicalJson_reparse_iff hleaves hdistinct hreparse]
  rw [computePayloadHash_obj htext] at hhash
  rcases Except.ok.inj hhash with rfl
  constructor
  · rintro ⟨v, hash', hv, hhash', hfield'⟩
    rcases Option.some.inj (hreceived.symm.trans hv) with rfl
    rw [computePayloadHash_obj htext'] at hhash'
    rcases Except.ok.inj hhash' with rfl
    -- the two digests are equal, and so are the texts they were taken of
    have hunits := Option.some.inj (hfield'.symm.trans hfield)
    have hdigest := units_sha256Hex_inj (JsLeaf.string.inj (JsonTree.leaf.inj hunits))
    have hbytes := hsha ⟨_, _, .inr hreceived, htext', rfl⟩ ⟨_, _, .inl hpayload, htext, rfl⟩ hdigest
    rw [utf8_encode, utf8_encode] at hbytes
    rw [htext, htext', Python.encodeUtf8_injective hbytes]
  · intro h
    refine ⟨_, _, hreceived, ?_, hfield⟩
    exact computePayloadHash_obj (h.trans htext)

/-! ## What `_emit` buffers -/

/-- The surroundings of a client with these redaction rules. -/
def Env.withRules (env : Env) (newRegExp : JsString → Except Thrown (JsString → Bool))
    (rules : List RedactionRule) : Env :=
  { env with applyRedaction := TypeScript.applyRedaction newRegExp env.sha256 rules }

def Client.withRules (client : Client) (rules : List RedactionRule) : Client :=
  { client with hasRedactionRules := !rules.isEmpty }

/-- No member of an object of the payload is `undefined` when the payload is hashed. -/
def NothingLost (newRegExp : JsString → Except Thrown (JsString → Bool)) (rules : List RedactionRule)
    (captureMode : JsString) (e : Emission) : Prop :=
  if captureMode = units "redacted_payload" ∧ e.options.redact = true ∧ rules ≠ [] then
    ∀ compiled, compileRules newRegExp rules = .ok compiled → Lossless compiled e.payload
  else AllDefined e.payload

section Claim

variable {env : Env} {client : Client} {run : RunOptions}
  {newRegExp : JsString → Except Thrown (JsString → Bool)} {rules : List RedactionRule}

/-- Of an object, redaction makes an object. -/
theorem redactedPayload_obj {e : Emission} {members : List (JsString × JsValue)}
    (hpayload : e.payload = .obj members) {redacted : JsValue}
    (h : redactedPayload (env.withRules newRegExp rules) (client.withRules rules) e = .ok redacted) :
    (∃ ms, redacted = .obj ms) ∧
      if e.options.redact = true ∧ rules ≠ [] then
        ∃ compiled, compileRules newRegExp rules = .ok compiled ∧
          redactValue env.sha256 compiled (deepCopy e.payload) = .ok redacted
      else e.payload = redacted := by
  have hrules : (client.withRules rules).hasRedactionRules = true ↔ rules ≠ [] := by
    simp [Client.withRules]
  unfold redactedPayload at h
  simp only [hrules] at h
  split_ifs at h ⊢ with hredact
  · simp only [Env.withRules, applyRedaction, hpayload] at h ⊢
    rcases bind_eq_ok h with ⟨compiled, hcompiled, hwalk⟩
    rcases redactValue_obj hwalk with ⟨ws, _, rfl⟩
    exact ⟨⟨_, rfl⟩, compiled, hcompiled, hwalk⟩
  · cases h
    exact ⟨⟨members, hpayload⟩, rfl⟩

/-- What is hashed of an object, and sent, is an object. -/
theorem capturePayload_obj {captureMode : JsString} {e : Emission}
    {members : List (JsString × JsValue)} (hpayload : e.payload = .obj members)
    (hmode : captureMode = units "redacted_payload" ∨ captureMode = units "full_payload")
    {payload : JsValue} {hash : Option String}
    (h : capturePayload (env.withRules newRegExp rules) (client.withRules rules) captureMode e =
      .ok (payload, hash)) :
    ∃ hash' ms, hash = some hash' ∧ payload = .obj ms ∧
      computePayloadHash env.sha256 (.obj ms) = .ok hash' ∧
      if captureMode = units "redacted_payload" ∧ e.options.redact = true ∧ rules ≠ [] then
        ∃ compiled, compileRules newRegExp rules = .ok compiled ∧
          redactValue env.sha256 compiled (deepCopy e.payload) = .ok (.obj ms)
      else e.payload = .obj ms := by
  have hfull : units "full_payload" ≠ units "redacted_payload" := by decide
  have hhashed : ∀ {v : JsValue} {hash' : String},
      payloadHash (env.withRules newRegExp rules) v = .ok hash' →
      computePayloadHash env.sha256 v = .ok hash' := by
    intro v hash' hv
    unfold payloadHash at hv
    split at hv
    case h_1 hash'' heq =>
        cases hv
        exact heq
    case h_2 => cases hv
  rw [capturePayload, hpayload] at h
  rcases bind_eq_ok h with ⟨redacted, hredacted, h⟩
  rcases bind_eq_ok h with ⟨hash', hhash', h⟩
  cases h
  rcases redactedPayload_obj hpayload hredacted with ⟨⟨ms, rfl⟩, hspec⟩
  rcases hmode with rfl | rfl
  · refine ⟨hash', ms, rfl, ?_, hhashed ?_, ?_⟩
    · simp [captured, asPayload]
    · simpa [captured] using hhash'
    · simpa using hspec
  · refine ⟨hash', members, rfl, ?_, hhashed ?_, ?_⟩
    · simp [captured, asPayload, hfull]
    · simpa [captured, hfull] using hhash'
    · rw [if_neg fun hboth => hfull hboth.1]
      exact hpayload

/-- Of every event that `_emit` buffers in one of the two modes, the hash is that of the payload that
arrives exactly if no member of the payload is lost on the way. -/
theorem hashMatches_emit_iff {s : RunState} {e : Emission} {event : EventObject}
    {members : List (JsString × JsValue)} (hpayload : e.payload = .obj members)
    (hleaves : e.payload.EveryLeaf IsPayloadLeaf) (hdistinct : e.payload.EveryObject List.Nodup)
    (hmode : e.options.payloadMode.getD client.defaultPayloadMode = units "redacted_payload" ∨
      e.options.payloadMode.getD client.defaultPayloadMode = units "full_payload")
    (hbuffered : (emit (env.withRules newRegExp rules) (client.withRules rules) run s e).queue.emitted =
      s.queue.emitted ++ [event])
    (hsha : Set.InjOn env.sha256 (hashedBytes event.members)) :
    HashMatches env.sha256 event.members ↔
      NothingLost newRegExp rules (e.options.payloadMode.getD client.defaultPayloadMode) e := by
  rcases buildEvent_payload (built_of_emitted hbuffered) with ⟨payload, hash, hcapture, hfield, hhash⟩
  rcases capturePayload_obj hpayload hmode hcapture with ⟨hash', ms, rfl, rfl, hcomputed, hspec⟩
  rw [NothingLost]
  split_ifs at hspec ⊢ with hredact
  · rcases hspec with ⟨compiled, hcompiled, hwalk⟩
    rw [hashMatches_iff_allDefined (everyLeaf_redact hleaves hwalk)
      (everyObject_redact hdistinct hwalk) hfield hcomputed hhash hsha, allDefined_redact_iff hwalk]
    constructor
    · intro hlossless compiled' hcompiled'
      rcases Except.ok.inj (hcompiled.symm.trans hcompiled') with rfl
      exact hlossless
    · intro hall
      exact hall compiled hcompiled
  · rw [hspec] at hleaves hdistinct ⊢
    exact hashMatches_iff_allDefined hleaves hdistinct hfield hcomputed hhash hsha

end Claim

/-! ## Two events -/

namespace HashExample

/-- SHA-256 of the texts that occur, told apart by their lengths. -/
def sha256 (data : Bytes) : Vector UInt8 32 :=
  if data.length = 2 then
    Vector.ofFn fun i =>
      [0x44, 0x13, 0x6f, 0xa3, 0x55, 0xb3, 0x67, 0x8a, 0x11, 0x46, 0xad, 0x16,
        0xf7, 0xe8, 0x64, 0x9e, 0x94, 0xfb, 0x4f, 0xc2, 0x1f, 0xe7, 0x7e, 0x83,
        0x10, 0xc0, 0x60, 0xf6, 0x1c, 0xaa, 0xff, 0x8a].getD i 0
  else if data.length = 13 then
    #v[0x0c, 0xd4, 0x10, 0x1d, 0x3b, 0xeb, 0x3c, 0xdd, 0x08, 0xa6, 0x2c, 0xb8,
      0x50, 0x8f, 0x2a, 0x2a, 0x09, 0x42, 0xb2, 0x90, 0xa0, 0x2d, 0x6b, 0xa2,
      0x52, 0xd5, 0xfb, 0x48, 0x1d, 0x3c, 0xe0, 0x54]
  else if data.length = 16 then
    #v[0x49, 0x82, 0x07, 0x60, 0x80, 0x15, 0xe1, 0xc6, 0xea, 0x99, 0xb4, 0x07,
      0x48, 0xb3, 0xec, 0xef, 0xd7, 0xd9, 0x03, 0x5d, 0x5c, 0x0a, 0x70, 0x81,
      0x79, 0x02, 0x05, 0x88, 0x23, 0x36, 0x2b, 0xe6]
  else if data.length = 595 then
    #v[0x55, 0x1a, 0xa0, 0x0f, 0x8b, 0x7c, 0xa8, 0x8b, 0x53, 0xe6, 0xdb, 0xd5,
      0x3f, 0xcc, 0x13, 0x2b, 0x0c, 0x13, 0xa1, 0x90, 0xcc, 0xf4, 0xff, 0x9d,
      0x02, 0x65, 0x98, 0x3a, 0xde, 0x21, 0x93, 0x62]
  else
    #v[0xa7, 0x5a, 0x7a, 0x3d, 0x27, 0x72, 0x9a, 0x98, 0x1a, 0x2c, 0x02, 0x51,
      0xac, 0x4a, 0x03, 0x4a, 0xa8, 0xfb, 0x4a, 0x1e, 0x12, 0xbc, 0x28, 0x59,
      0xf7, 0x3a, 0x24, 0xd2, 0x71, 0xcd, 0xb0, 0x0e]

def env : Env where
  sha256 := sha256
  applyRedaction := .ok
  eventId n := units "evt_" ++ integerText (n + 1)
  utcNowIso _ := units "2026-05-13T12:00:00.000Z"

def client : Client where
  orgId := units "org_default"
  project := units "proj_default"
  environment := units "dev"
  defaultPayloadMode := units "redacted_payload"
  hasRedactionRules := false
  batchSize := 50
  failOpen := false
  hasSpool := false

def run : RunOptions where
  runId := units "run_1"
  agentId := units "support-agent"
  agentVersion := none
  environment := none
  traceId := none

/-- No rule of the examples has a pattern. -/
def newRegExp (_ : JsString) : Except Thrown (JsString → Bool) :=
  .ok fun _ => false

def dropToken : RedactionRule where
  field := some (units "token")
  regex := none
  mode := "DROP"

/-- `run._emit("memory.write", { note: "hello", token: undefined })`. -/
def hello : Emission where
  eventType := units "memory.write"
  payload := .obj [(units "note", string (units "hello")), (units "token", undefined)]

/-- `run._emit("memory.write", { note: undefined }, { payloadMode: "full_payload" })`. -/
def noNote : Emission where
  eventType := units "memory.write"
  payload := .obj [(units "note", undefined)]
  options := { payloadMode := some (units "full_payload") }

end HashExample

/-- The rule removes the member that would be lost. -/
theorem hashMatches_emit_dropToken :
    ∃ event, (emit (HashExample.env.withRules HashExample.newRegExp [HashExample.dropToken])
        (HashExample.client.withRules [HashExample.dropToken]) HashExample.run {}
        HashExample.hello).queue.emitted = [event] ∧
      HashMatches HashExample.sha256 event.members := by
  have hok : ((buildEvent (HashExample.env.withRules HashExample.newRegExp [HashExample.dropToken])
      (HashExample.client.withRules [HashExample.dropToken]) HashExample.run {}
      HashExample.hello).2.toOption.isSome) = true := by decide +kernel
  rcases hbuilt : (buildEvent (HashExample.env.withRules HashExample.newRegExp
    [HashExample.dropToken]) (HashExample.client.withRules [HashExample.dropToken]) HashExample.run {}
    HashExample.hello).2 with x | members
  · rw [hbuilt] at hok
    cases hok
  have hemitted := emitted_of_built (s := {}) hbuilt
  rcases buildEvent_payload hbuilt with ⟨payload, hash, hcapture, hfield, _⟩
  have hrules : compileRules HashExample.newRegExp [HashExample.dropToken] =
      .ok [⟨some (units "token"), none, .drop⟩] := rfl
  have hpayload : payload = .obj [(units "note", string (units "hello"))] := by
    rcases capturePayload_obj rfl (.inl rfl) hcapture with ⟨_, ms, _, rfl, _, hspec⟩
    rw [if_pos (by decide)] at hspec
    rcases hspec with ⟨compiled, hcompiled, hwalk⟩
    rcases Except.ok.inj (hcompiled.symm.trans hrules) with rfl
    exact (Except.ok.inj hwalk).symm
  subst hpayload
  have hreceived : receivedPayload members = some (.obj [(units "note", string (units "hello"))]) :=
    lookup_reparseMembers hfield rfl
  refine ⟨⟨0, members⟩, hemitted, ?_⟩
  have hsha : Set.InjOn HashExample.sha256 (hashedBytes members) :=
    (hashedBytes_subsingleton hfield hreceived rfl).injOn _
  apply (hashMatches_emit_iff (s := {}) rfl ?_ ?_ (.inl rfl) hemitted hsha).2
  · rw [NothingLost, if_pos (by decide)]
    intro compiled hcompiled
    rcases Except.ok.inj (hcompiled.symm.trans hrules) with rfl
    exact ⟨⟨.inr rfl, .inr trivial⟩, ⟨.inl (by decide), .inl (by decide)⟩, trivial⟩
  · exact ⟨isPayloadLeaf_string _, .inl rfl, trivial⟩
  · exact ⟨by decide, trivial, trivial, trivial⟩

/-- The collector hashes an object without members, and the event has the hash of one with `null`. -/
theorem hashMatches_fails_undefined :
    ∃ event, (emit (HashExample.env.withRules HashExample.newRegExp [])
        (HashExample.client.withRules []) HashExample.run {}
        HashExample.noNote).queue.emitted = [event] ∧
      ¬ HashMatches HashExample.sha256 event.members := by
  have hok : ((buildEvent (HashExample.env.withRules HashExample.newRegExp [])
      (HashExample.client.withRules []) HashExample.run {}
      HashExample.noNote).2.toOption.isSome) = true := by decide +kernel
  rcases hbuilt : (buildEvent (HashExample.env.withRules HashExample.newRegExp [])
    (HashExample.client.withRules []) HashExample.run {} HashExample.noNote).2 with x | members
  · rw [hbuilt] at hok
    cases hok
  rcases buildEvent_payload hbuilt with ⟨payload, hash, hcapture, hfield, hhash⟩
  rcases capturePayload_obj rfl (.inr rfl) hcapture with ⟨hash', ms, rfl, rfl, hcomputed, hspec⟩
  rw [if_neg (by decide)] at hspec
  cases hspec
  have hreceived : receivedPayload members = some (.obj []) := lookup_reparseMembers hfield rfl
  refine ⟨⟨0, members⟩, emitted_of_built (s := {}) hbuilt, ?_⟩
  rintro ⟨v, hash, hv, hother, hfield'⟩
  rcases Option.some.inj (hreceived.symm.trans hv) with rfl
  -- the two hashes are known, and they differ
  have hunits : units hash' = units hash :=
    JsLeaf.string.inj (JsonTree.leaf.inj (Option.some.inj (hhash.symm.trans hfield')))
  have hdiffer : (computePayloadHash HashExample.sha256 (.obj [(units "note", undefined)])).toOption.map
      units ≠ (computePayloadHash HashExample.sha256 (.obj [])).toOption.map units := by decide +kernel
  apply hdiffer
  have hcomputed' : computePayloadHash HashExample.sha256 (.obj [(units "note", undefined)]) =
      .ok hash' := hcomputed
  rw [hcomputed', hother]
  exact congrArg some hunits

end TypeScript
end ControlDB
