import ControlDB.TypeScript.CanonicalText

/-!
# The texts of the two SDKs

The canonical texts of a JSON value in TypeScript and in Python.  Strings and numbers are written
alike, but one SDK sorts keys by UTF-16 code units and the other by code points, so the texts are
the same exactly if no object of the value has two keys that straddle the end of the Basic
Multilingual Plane.
-/

namespace ControlDB
namespace TypeScript

open Library Library.Utf16

/-! ## JSON values -/

inductive JsonLeaf
  | null
  | bool (b : Bool)
  | int (n : SafeInteger)
  | str (s : String)
  deriving DecidableEq

abbrev Json := JsonTree JsonLeaf String

/-- A JSON value: the keys of each object in it are distinct. -/
structure JsonValue where
  tree : Json
  distinct : tree.EveryObject List.Nodup

def leafToPython : JsonLeaf → Python.Scalar
  | .null => .none
  | .bool b => .bool b
  | .int n => .int n.val
  | .str s => .str s

def leafToJs : JsonLeaf → JsLeaf
  | .null => .null
  | .bool b => .boolean b
  | .int n => .number (.integer n)
  | .str s => .string (encode s.toList)

/-- The value in Python. -/
def toPython (t : Json) : Python.PyJson :=
  t.map leafToPython id

/-- The value in JavaScript. -/
def toJs (t : Json) : JsValue :=
  t.map leafToJs fun key => encode key.toList

/-! ## Scalars -/

/-- The text of a leaf, in both SDKs. -/
def leafText (l : JsonLeaf) : List Char :=
  Python.scalarText (leafToPython l)

theorem stringify_encode (s : String) :
    stringify (encode s.toList) = encode (Python.quoteStr s) := by
  have hbody : ∀ text : List Char, (text.map CodePoint.scalar).flatMap quotePoint =
      encode (text.flatMap Python.escapeChar) := by
    intro text
    induction text with
    | nil => rfl
    | cons c text ih =>
        rw [List.map_cons, List.flatMap_cons, List.flatMap_cons, encode_append, ih,
          quotePoint_scalar]
  have hquote : units "\"" = encode ['"'] := by decide
  rw [stringify, codePoints_encode, hbody, hquote, ← encode_append, ← encode_append]
  rfl

theorem leafJson_toJs (l : JsonLeaf) : leafJson (leafToJs l) = .ok (encode (leafText l)) := by
  cases l with
  | null => rfl
  | bool b => cases b <;> rfl
  | int n => exact congrArg Except.ok (integerText_eq n.val)
  | str s => exact congrArg Except.ok (stringify_encode s)

/-! ## Arrays and objects -/

/-- Strings in the order of their code units. -/
def UnitsLe (a b : String) : Prop :=
  encode a.toList ≤ encode b.toList

instance : DecidableRel UnitsLe := fun a b =>
  inferInstanceAs (Decidable (encode a.toList ≤ encode b.toList))

instance : Std.Total UnitsLe :=
  ⟨fun a b => le_total (encode a.toList) (encode b.toList)⟩

instance : IsTrans String UnitsLe :=
  ⟨fun _ _ _ hab hbc => le_trans (show _ ≤ _ from hab) hbc⟩

instance : Std.Antisymm UnitsLe :=
  ⟨fun _ _ hab hba => String.toList_injective (encode_injective (le_antisymm hab hba))⟩

theorem encodeStr_injective : Function.Injective fun s : String => encode s.toList :=
  fun _ _ h => String.toList_injective (encode_injective h)

theorem spelling_toJs :
    Spelling leafToJs (fun key : String => encode key.toList) leafText Python.quoteStr where
  leaf := leafJson_toJs
  key := stringify_encode
  injective := encodeStr_injective

/-- The text of a JSON value in TypeScript: its members are sorted by code units. -/
theorem canonicalJson_toJs (t : Json) (h : t.EveryObject List.Nodup) :
    canonicalJson (toJs t) =
      .ok (encode ((t.sortBy UnitsLe).text leafText Python.quoteStr)) :=
  spelling_toJs.canonicalJson_map t h

/-! ## The same value in Python -/

mutual

theorem encodable_toPython : ∀ t : Json, Python.encodable (toPython t) = true
  | .leaf l => by cases l <;> rfl
  | .arr items => encodableItems_toPython items
  | .obj members => encodableMembers_toPython members

theorem encodableItems_toPython : ∀ items : List Json,
    Python.encodableItems (JsonTree.mapItems leafToPython id items) = true
  | [] => rfl
  | t :: rest => by
      have ht := encodable_toPython t
      rw [toPython] at ht
      rw [JsonTree.mapItems, Python.encodableItems, ht, encodableItems_toPython rest]
      rfl

theorem encodableMembers_toPython : ∀ members : List (String × Json),
    Python.encodableMembers (JsonTree.mapMembers leafToPython id members) = true
  | [] => rfl
  | (key, t) :: rest => by
      have ht := encodable_toPython t
      rw [toPython] at ht
      rw [JsonTree.mapMembers, Python.encodableMembers, ht, encodableMembers_toPython rest]
      rfl

end

/-- The text of a JSON value in Python: its members are sorted by code points. -/
theorem canonicalJson_toPython (t : Json) :
    Python.canonicalJson (toPython t) =
      some (Python.encodeUtf8 ((t.sortBy (· ≤ ·)).text leafText Python.quoteStr)) := by
  have hsort : (t.map leafToPython id).sortBy (· ≤ ·) = (t.sortBy (· ≤ ·)).map leafToPython id :=
    JsonTree.sortBy_map (fun _ _ => Iff.rfl) t
  rw [Python.canonicalJson, if_pos (encodable_toPython t), Python.dumps,
    JsonTree.sortKeys_eq_sortBy, toPython, hsort, JsonTree.text_map]
  rfl

/-! ## When the texts are the same -/

/-- No two keys straddle the end of the Basic Multilingual Plane. -/
def NoStraddle (keys : List String) : Prop :=
  ∀ a ∈ keys, ∀ b ∈ keys, ¬ Straddle a.toList b.toList

theorem agree_iff_noStraddle (keys : List String) :
    JsonTree.Agree (· ≤ ·) UnitsLe keys ↔ NoStraddle keys := by
  have horder : ∀ a b : String, (a ≤ b ↔ UnitsLe a b) ↔
      ¬ Straddle a.toList b.toList ∧ ¬ Straddle b.toList a.toList := by
    intro a b
    refine Iff.trans ?_ ((encode_lt_iff b.toList a.toList).trans and_comm)
    rw [String.le_iff_toList_le, UnitsLe, ← not_lt, ← not_lt, not_iff_not]
    exact ⟨Iff.symm, Iff.symm⟩
  constructor
  · intro h a ha b hb
    exact ((horder a b).1 (h a ha b hb)).1
  · intro h a ha b hb
    exact (horder a b).2 ⟨h a ha b hb, h b hb a ha⟩

theorem leafToPython_injective : Function.Injective leafToPython := by
  intro l m h
  cases l <;> cases m <;> simp only [leafToPython, reduceCtorEq] at h ⊢
  case bool b c => rw [Python.Scalar.bool.inj h]
  case int n k =>
      rcases n with ⟨n, hn⟩
      cases Python.Scalar.int.inj h
      rfl
  case str s r => rw [Python.Scalar.str.inj h]

theorem leafText_leafCode : JsonTree.LeafCode leafText where
  read := by
    intro l m x y hx hy h
    rcases Python.scalarText_leafCode.read hx hy h with ⟨hleaf, hrest⟩
    exact ⟨leafToPython_injective hleaf, hrest⟩
  head := fun l => Python.scalarText_leafCode.head (leafToPython l)

/-- Both SDKs write the same bytes. -/
def SameText (t : Json) : Prop :=
  ∃ text, canonicalJson (toJs t) = .ok text ∧ Python.canonicalJson (toPython t) = some (utf8 text)

theorem sameText_iff {t : Json} (hdistinct : t.EveryObject List.Nodup) :
    SameText t ↔ t.EveryObject NoStraddle := by
  have hinj := JsonTree.text_injective (L := JsonLeaf) leafText_leafCode Python.quoteStr_keyCode
  calc
    SameText t ↔ Python.canonicalJson (toPython t) =
        some (utf8 (encode ((t.sortBy UnitsLe).text leafText Python.quoteStr))) := by
      rw [SameText, canonicalJson_toJs t hdistinct]
      constructor
      · rintro ⟨text, htext, hpython⟩
        rw [Except.ok.inj htext]
        exact hpython
      · intro hpython
        exact ⟨_, rfl, hpython⟩
    _ ↔ t.sortBy (· ≤ ·) = t.sortBy UnitsLe := by
      rw [canonicalJson_toPython, utf8_encode, Option.some.injEq, Python.encodeUtf8_injective.eq_iff,
        hinj.eq_iff]
    _ ↔ t.EveryObject (JsonTree.Agree (· ≤ ·) UnitsLe) := JsonTree.sortBy_eq_iff t hdistinct
    _ ↔ t.EveryObject NoStraddle := JsonTree.everyObject_congr agree_iff_noStraddle

/-! ## Parity -/

/-- Both SDKs write the same bytes for a value, and they agree on its hash as a payload and, if it
is an object, on its hash as an event. -/
structure Parity (v : JsonValue) : Prop where
  text : SameText v.tree
  payloadHash : ∀ sha256, ∃ hash, computePayloadHash sha256 (toJs v.tree) = .ok hash ∧
    Python.computePayloadHash sha256 (toPython v.tree) = some hash
  eventHash : ∀ sha256 members, v.tree = .obj members → ∃ hash,
    computeEventHash sha256
        (JsonTree.mapMembers leafToJs (fun key => encode key.toList) members) = .ok hash ∧
      Python.computeEventHash sha256 (JsonTree.mapMembers leafToPython id members) = some hash

section Hashes

variable (sha256 : Sha256)

/-- The value that is hashed for a payload. -/
def effective : Json → Json
  | .leaf .null => .obj []
  | t => t

theorem computePayloadHash_toJs (t : Json) :
    computePayloadHash sha256 (toJs t) =
      (canonicalJson (toJs (effective t))).map (sha256Hex sha256) := by
  cases t with
  | leaf l => cases l <;> rfl
  | arr items => rfl
  | obj members => rfl

theorem computePayloadHash_toPython (t : Json) :
    Python.computePayloadHash sha256 (toPython t) =
      (Python.canonicalJson (toPython (effective t))).map (Python.sha256Hex sha256) := by
  cases t with
  | leaf l => cases l <;> rfl
  | arr items => rfl
  | obj members => rfl

theorem everyObject_effective {P : List String → Prop} (hnil : P []) {t : Json}
    (h : t.EveryObject P) : (effective t).EveryObject P := by
  cases t with
  | leaf l =>
      cases l with
      | null => exact ⟨hnil, trivial⟩
      | bool b => exact trivial
      | int n => exact trivial
      | str s => exact trivial
  | arr items => exact h
  | obj members => exact h

/-- The members of an event without its own hash. -/
def withoutHash (members : List (String × Json)) : List (String × Json) :=
  members.filter fun member => decide (member.1 ≠ "event_hash")

theorem computeEventHash_toJs (members : List (String × Json)) :
    computeEventHash sha256
        (JsonTree.mapMembers leafToJs (fun key => encode key.toList) members) =
      (canonicalJson (toJs (.obj (withoutHash members)))).map (sha256Hex sha256) := by
  have hkey : ∀ key : String, encode key.toList = units "event_hash" ↔ key = "event_hash" := by
    intro key
    have hunits : units "event_hash" = encode "event_hash".toList := by decide
    rw [hunits]
    exact encodeStr_injective.eq_iff
  have hfilter := JsonTree.filter_mapMembers leafToJs (fun key => encode key.toList)
    (p := fun member => decide (member.1 ≠ units "event_hash"))
    (q := fun member => decide (member.1 ≠ "event_hash"))
    (fun m => by simp only [ne_eq, hkey]) members
  rw [computeEventHash, hfilter]
  rfl

theorem computeEventHash_toPython (members : List (String × Json)) :
    Python.computeEventHash sha256 (JsonTree.mapMembers leafToPython id members) =
      (Python.canonicalJson (toPython (.obj (withoutHash members)))).map
        (Python.sha256Hex sha256) := by
  have hfilter := JsonTree.filter_mapMembers leafToPython id
    (p := fun member => decide (member.1 ≠ "event_hash"))
    (q := fun member => decide (member.1 ≠ "event_hash")) (fun _ => rfl) members
  rw [Python.computeEventHash, hfilter]
  rfl

theorem everyObject_withoutHash {P : List String → Prop}
    (hsub : ∀ {keys keys' : List String}, keys.Sublist keys' → P keys' → P keys)
    {members : List (String × Json)} (h : (JsonTree.obj members).EveryObject P) :
    (JsonTree.obj (withoutHash members)).EveryObject P :=
  ⟨hsub (List.filter_sublist.map Prod.fst) h.1, JsonTree.EveryMember.filter _ h.2⟩

/-- Values with the same text have the same hash. -/
theorem SameText.hash {t : Json} (h : SameText t) :
    ∃ hash, (canonicalJson (toJs t)).map (sha256Hex sha256) = .ok hash ∧
      (Python.canonicalJson (toPython t)).map (Python.sha256Hex sha256) = some hash := by
  rcases h with ⟨text, hjs, hpython⟩
  refine ⟨sha256Hex sha256 text, ?_, ?_⟩
  · rw [hjs]
    rfl
  · rw [hpython]
    rfl

end Hashes

theorem NoStraddle.sublist {keys keys' : List String} (hsub : keys.Sublist keys')
    (h : NoStraddle keys') : NoStraddle keys :=
  fun a ha b hb => h a (hsub.subset ha) b (hsub.subset hb)

/-- The texts and hashes agree exactly if no object in the value has two keys of which, where they
part, one goes on with a character in U+E000 to U+FFFF and the other with one above. -/
theorem parity_iff (v : JsonValue) : Parity v ↔ v.tree.EveryObject NoStraddle := by
  rcases v with ⟨t, hdistinct⟩
  constructor
  · intro h
    exact (sameText_iff hdistinct).1 h.text
  · intro h
    have hnone : NoStraddle [] := fun a ha => absurd ha List.not_mem_nil
    constructor
    case text => exact (sameText_iff hdistinct).2 h
    case payloadHash =>
        intro sha256
        have hsame := (sameText_iff (everyObject_effective List.nodup_nil hdistinct)).2
          (everyObject_effective hnone h)
        rw [computePayloadHash_toJs, computePayloadHash_toPython]
        exact hsame.hash sha256
    case eventHash =>
        rintro sha256 members rfl
        have hsame := (sameText_iff (everyObject_withoutHash (fun hs => hs.nodup) hdistinct)).2
          (everyObject_withoutHash (fun hs => NoStraddle.sublist hs) h)
        rw [computeEventHash_toJs, computeEventHash_toPython]
        exact hsame.hash sha256

/-- An object with the keys U+FF5E and U+1F600. -/
def tildeAndFace : JsonValue where
  tree := .obj
    [(String.ofList [Char.ofNat 0xff5e], .leaf (.int ⟨1, by decide⟩)),
      (String.ofList [Char.ofNat 0x1f600], .leaf (.int ⟨2, by decide⟩))]
  distinct := ⟨by decide, trivial, trivial, trivial⟩

/-- TypeScript writes the face first, Python the tilde. -/
theorem not_parity_tildeAndFace : ¬ Parity tildeAndFace := by
  intro h
  rcases h.text with ⟨text, hjs, hpython⟩
  have htexts : (canonicalJson (toJs tildeAndFace.tree)).toOption.map utf8 ≠
      Python.canonicalJson (toPython tildeAndFace.tree) := by decide +kernel
  rw [hjs, hpython] at htexts
  exact htexts rfl

end TypeScript
end ControlDB
