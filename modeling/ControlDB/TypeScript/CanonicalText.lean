import ControlDB.Library.AssocList
import ControlDB.Library.JsonOrder
import ControlDB.Python.CanonicalBinding
import ControlDB.TypeScript.Hashing

/-!
# The canonical text of a JavaScript value

A tree whose leaves and keys stand for JavaScript values is written by `canonicalJson` as the
UTF-16 of a text of characters, with the members of every object sorted by code units.
-/

namespace ControlDB
namespace TypeScript

open Library Library.Utf16

/-! ## Characters, numbers and bytes -/

theorem encode_ascii {text : List Char} (h : ∀ c ∈ text, c.toNat < 0x80) :
    encode text = text.map fun c => UInt16.ofNat c.toNat := by
  induction text with
  | nil => rfl
  | cons c text ih =>
      have hplane : c.toNat < 0x10000 := by
        have hc := h c List.mem_cons_self
        omega
      rw [encode_cons, ih fun d hd => h d (List.mem_cons_of_mem _ hd), encodeChar, if_pos hplane]
      rfl

theorem digitChar_ascii {n : Nat} (hn : n < 16) : (Nat.digitChar n).toNat < 0x80 := by
  have hall : ∀ n < 16, (Nat.digitChar n).toNat < 0x80 := by decide
  exact hall n hn

/-- Both SDKs escape the same characters in the same way. -/
theorem quotePoint_scalar (c : Char) :
    quotePoint (.scalar c) = encode (Python.escapeChar c) := by
  by_cases hspecial : c ∈ ['"', '\\', '\n', '\r', '\t', Char.ofNat 0x0c, Char.ofNat 0x08]
  · simp only [List.mem_cons, List.not_mem_nil, or_false] at hspecial
    rcases hspecial with rfl | rfl | rfl | rfl | rfl | rfl | rfl
    all_goals decide
  · simp only [List.mem_cons, List.not_mem_nil, or_false, not_or] at hspecial
    rcases hspecial with ⟨hquote, hback, hnl, hcr, htab, hff, hbs⟩
    simp only [quotePoint, Python.escapeChar, hquote, hback, hnl, hcr, htab, hff, hbs, if_false]
    split_ifs with hctl
    · -- of the four digits of a control character, the first two are zeros
      have hhigh : c.toNat / 0x1000 = 0 ∧ c.toNat / 0x100 % 16 = 0 := by omega
      have hlow : c.toNat / 16 % 16 = c.toNat / 16 := by omega
      rw [encode_ascii, unicodeEscape, hhigh.1, hhigh.2, hlow]
      · rfl
      · intro d hd
        simp only [List.mem_cons, List.not_mem_nil, or_false] at hd
        rcases hd with rfl | rfl | rfl | rfl | rfl | rfl
        · decide
        · decide
        · decide
        · decide
        · exact digitChar_ascii (by omega)
        · exact digitChar_ascii (by omega)
    · rw [encode_cons, encode_nil, List.append_nil]

theorem integerText_eq (n : Int) : integerText n = encode (Python.intText n) := by
  have hdigits : encode (Nat.toDigits 10 n.natAbs) =
      (Nat.toDigits 10 n.natAbs).map fun digit => UInt16.ofNat digit.toNat := by
    apply encode_ascii
    intro c hc
    have hdigit := Python.isDigit_of_mem_toDigits hc
    simp only [Char.isDigit, Bool.and_eq_true, decide_eq_true_eq] at hdigit
    exact Nat.lt_of_le_of_lt hdigit.2 (by decide)
  have hminus : encodeChar '-' = units "-" := by decide
  unfold integerText Python.intText
  split_ifs
  · rw [encode_cons, hdigits, hminus]
  · rw [hdigits, List.nil_append]

theorem utf8_encode (text : List Char) : utf8 (encode text) = Python.encodeUtf8 text := by
  rw [utf8, codePoints_encode, List.flatMap_map]
  rfl

/-! ## Arrays and objects -/

theorem joinComma_cons (s : JsString) (strings : List JsString) :
    joinComma (s :: strings) = s ++ strings.flatMap fun s' => units "," ++ s' := by
  induction strings generalizing s with
  | nil => simp [joinComma]
  | cons s' strings ih =>
      have hnext := ih s'
      simp only [joinComma, List.intercalate, List.intersperse, List.flatten_cons,
        List.flatMap_cons, List.append_assoc] at hnext ⊢
      rw [hnext]

section Spelling

variable {L K : Type} {f : L → JsLeaf} {g : K → JsString} {leafText : L → List Char}
  {keyText : K → List Char}

/-- The texts of the leaves and of the keys that `f` and `g` make of a tree. -/
structure Spelling (f : L → JsLeaf) (g : K → JsString) (leafText : L → List Char)
    (keyText : K → List Char) : Prop where
  leaf : ∀ l, leafJson (f l) = .ok (encode (leafText l))
  key : ∀ k, stringify (g k) = encode (keyText k)
  injective : Function.Injective g

/-- The text of a member of an object. -/
def memberText (g : K → JsString) (leafText : L → List Char) (keyText : K → List Char)
    (member : K × JsonTree L K) : JsString :=
  stringify (g member.1) ++ units ":" ++ encode (member.2.text leafText keyText)

theorem encode_itemsText (leafText : L → List Char) (keyText : K → List Char)
    (items : List (JsonTree L K)) :
    encode (JsonTree.itemsText leafText keyText items) =
      joinComma (items.map fun t => encode (t.text leafText keyText)) ++ units "]" := by
  have hcomma : encodeChar ',' = units "," := by decide
  have hclose : encode [']'] = units "]" := by decide
  have hmore : ∀ rest : List (JsonTree L K), encode (JsonTree.moreItems leafText keyText rest) =
      ((rest.map fun t => encode (t.text leafText keyText)).flatMap fun s => units "," ++ s) ++
        units "]" := by
    intro rest
    induction rest with
    | nil => exact hclose
    | cons t rest ih =>
        calc encode (JsonTree.moreItems leafText keyText (t :: rest))
            = encodeChar ',' ++ (encode (t.text leafText keyText) ++
                encode (JsonTree.moreItems leafText keyText rest)) := by
              rw [JsonTree.moreItems, encode_cons, encode_append]
          _ = _ := by
              rw [ih, hcomma]
              simp only [List.map_cons, List.flatMap_cons, List.append_assoc]
  cases items with
  | nil => exact hclose
  | cons t rest =>
      rw [JsonTree.itemsText, encode_append, hmore, List.map_cons, joinComma_cons,
        List.append_assoc]

theorem Spelling.encode_membersText (h : Spelling f g leafText keyText)
    (members : List (K × JsonTree L K)) :
    encode (JsonTree.membersText leafText keyText members) =
      joinComma (members.map (memberText g leafText keyText)) ++ units "\x7d" := by
  have hcomma : encodeChar ',' = units "," := by decide
  have hcolon : encodeChar ':' = units ":" := by decide
  have hclose : encode ['\x7d'] = units "\x7d" := by decide
  have hmember : ∀ (member : K × JsonTree L K) (rest : List Char),
      encode (keyText member.1 ++ ':' :: (member.2.text leafText keyText ++ rest)) =
        memberText g leafText keyText member ++ encode rest := by
    intro member rest
    rw [encode_append, encode_cons, encode_append, hcolon, memberText, h.key,
      List.append_assoc, List.append_assoc]
  have hmore : ∀ rest : List (K × JsonTree L K),
      encode (JsonTree.moreMembers leafText keyText rest) =
        ((rest.map (memberText g leafText keyText)).flatMap fun s => units "," ++ s) ++
          units "\x7d" := by
    intro rest
    induction rest with
    | nil => exact hclose
    | cons member rest ih =>
        calc encode (JsonTree.moreMembers leafText keyText (member :: rest))
            = encodeChar ',' ++ (memberText g leafText keyText member ++
                encode (JsonTree.moreMembers leafText keyText rest)) := by
              rw [JsonTree.moreMembers, encode_cons, hmember]
          _ = _ := by
              rw [ih, hcomma]
              simp only [List.map_cons, List.flatMap_cons, List.append_assoc]
  cases members with
  | nil => exact hclose
  | cons member rest =>
      rw [JsonTree.membersText, hmember, hmore, List.map_cons, joinComma_cons, List.append_assoc]

/-- The pairs of an object, built key by key, are its sorted members. -/
theorem Spelling.pairs_sorted (h : Spelling f g leafText keyText) {entries : List (K × JsonTree L K)}
    (hnodup : (entries.map Prod.fst).Nodup) :
    (((entries.map fun e => g e.1).insertionSort (· ≤ ·)).map fun key =>
      stringify key ++ units ":" ++ ((entries.map fun e =>
        (g e.1, encode (e.2.text leafText keyText))).lookup key).getD []) =
      (entries.insertionSort fun a b => g a.1 ≤ g b.1).map (memberText g leafText keyText) := by
  have hsort : (entries.map fun e => g e.1).insertionSort (· ≤ ·) =
      (entries.insertionSort fun a b => g a.1 ≤ g b.1).map fun e => g e.1 :=
    (List.map_insertionSort (fun a b : K × JsonTree L K => g a.1 ≤ g b.1) (· ≤ ·)
      (fun e => g e.1) entries fun _ _ _ _ => Iff.rfl).symm
  rw [hsort, List.map_map]
  apply List.map_congr_left
  intro e he
  have hmem : e ∈ entries := (List.mem_insertionSort _).1 he
  have hvalue := lookup_map_of_mem h.injective
    (fun e : K × JsonTree L K => encode (e.2.text leafText keyText)) hnodup hmem
  simp only [Function.comp_apply, memberText]
  rw [hvalue]
  rfl

/-- Sorted by the code units of the keys. -/
abbrev unitsSorted (g : K → JsString) (t : JsonTree L K) : JsonTree L K :=
  t.sortBy fun a b => g a ≤ g b

mutual

/-- The text of a value: its members are sorted by code units. -/
theorem Spelling.canonicalJson_map (h : Spelling f g leafText keyText) :
    ∀ t : JsonTree L K, t.EveryObject List.Nodup →
    canonicalJson (t.map f g) = .ok (encode ((unitsSorted g t).text leafText keyText))
  | .leaf l, _ => h.leaf l
  | .arr items, hnodup => by
      have hopen : encodeChar '[' = units "[" := by decide
      have htext : encode ((unitsSorted g (.arr items)).text leafText keyText) =
          units "[" ++ joinComma ((JsonTree.sortItemsBy (fun a b => g a ≤ g b) items).map fun t =>
            encode (t.text leafText keyText)) ++ units "]" := by
        rw [unitsSorted, JsonTree.sortBy, JsonTree.text, encode_cons, encode_itemsText, hopen,
          List.append_assoc]
      rw [htext, JsonTree.map, canonicalJson, h.itemsJson_map items hnodup]
      rfl
  | .obj members, hnodup => by
      have hopen : encodeChar '\x7b' = units "\x7b" := by decide
      have hkeys := JsonTree.map_fst_sortMembersBy (fun a b => g a ≤ g b) members
      have hrecord : (JsonTree.mapMembers f g members).map Prod.fst =
          (JsonTree.sortMembersBy (fun a b => g a ≤ g b) members).map fun m => g m.1 := by
        rw [JsonTree.mapMembers_eq_map, List.map_map]
        calc
          members.map _ = (members.map Prod.fst).map g := by
            rw [List.map_map]
            rfl
          _ = ((JsonTree.sortMembersBy (fun a b => g a ≤ g b) members).map Prod.fst).map g := by
            rw [hkeys]
          _ = (JsonTree.sortMembersBy (fun a b => g a ≤ g b) members).map fun m => g m.1 := by
            rw [List.map_map]
            rfl
      have htext : encode ((unitsSorted g (.obj members)).text leafText keyText) =
          units "\x7b" ++ (joinComma (((JsonTree.sortMembersBy (fun a b => g a ≤ g b)
            members).insertionSort fun a b => g a.1 ≤ g b.1).map
              (memberText g leafText keyText)) ++ units "\x7d") := by
        rw [unitsSorted, JsonTree.sortBy, JsonTree.text, encode_cons, h.encode_membersText, hopen]
      rw [htext, ← h.pairs_sorted (hkeys.symm ▸ hnodup.1), ← hrecord, ← List.append_assoc,
        JsonTree.map, canonicalJson, h.valuesJson_map members hnodup.2]
      rfl

theorem Spelling.itemsJson_map (h : Spelling f g leafText keyText) :
    ∀ items : List (JsonTree L K), JsonTree.EveryItem List.Nodup items →
    itemsJson (JsonTree.mapItems f g items) =
      .ok ((JsonTree.sortItemsBy (fun a b => g a ≤ g b) items).map fun t =>
        encode (t.text leafText keyText))
  | [], _ => rfl
  | t :: rest, hnodup => by
      rw [JsonTree.mapItems, itemsJson, h.canonicalJson_map t hnodup.1,
        h.itemsJson_map rest hnodup.2]
      rfl

theorem Spelling.valuesJson_map (h : Spelling f g leafText keyText) :
    ∀ members : List (K × JsonTree L K), JsonTree.EveryMember List.Nodup members →
    valuesJson (JsonTree.mapMembers f g members) =
      .ok ((JsonTree.sortMembersBy (fun a b => g a ≤ g b) members).map fun m =>
        (g m.1, encode (m.2.text leafText keyText)))
  | [], _ => rfl
  | (key, t) :: rest, hnodup => by
      rw [JsonTree.mapMembers, valuesJson, h.canonicalJson_map t hnodup.1,
        h.valuesJson_map rest hnodup.2]
      rfl

end

end Spelling

end TypeScript
end ControlDB
