import ControlDB.Library.JsonTree

/-!
# Sorting JSON trees by different orders

Two orders of the keys sort a tree alike exactly if they agree on the keys of every object in it.
-/

namespace ControlDB
namespace Library
namespace JsonTree

universe u

variable {L L' K K' : Type u}

/-! ## Trees with other leaves and keys -/

section Map

variable (f : L → L') (g : K → K')

mutual

def map : JsonTree L K → JsonTree L' K'
  | leaf l => leaf (f l)
  | arr items => arr (mapItems items)
  | obj members => obj (mapMembers members)

def mapItems : List (JsonTree L K) → List (JsonTree L' K')
  | [] => []
  | t :: rest => map t :: mapItems rest

def mapMembers : List (K × JsonTree L K) → List (K' × JsonTree L' K')
  | [] => []
  | (k, t) :: rest => (g k, map t) :: mapMembers rest

end

theorem mapMembers_eq_map (members : List (K × JsonTree L K)) :
    mapMembers f g members = members.map fun m => (g m.1, m.2.map f g) := by
  induction members with
  | nil => rfl
  | cons m rest ih =>
      rcases m with ⟨k, t⟩
      simp [mapMembers, ih]

theorem filter_mapMembers {p : K' × JsonTree L' K' → Bool} {q : K × JsonTree L K → Bool}
    (h : ∀ m, p (g m.1, m.2.map f g) = q m) (members : List (K × JsonTree L K)) :
    (mapMembers f g members).filter p = mapMembers f g (members.filter q) := by
  rw [mapMembers_eq_map, mapMembers_eq_map, List.filter_map]
  exact congrArg _ (List.filter_congr fun m _ => h m)

section Text

variable (leafText : L' → List Char) (keyText : K' → List Char)

mutual

/-- The text of a tree with other leaves and keys is their text in the tree. -/
theorem text_map : ∀ t : JsonTree L K,
    (t.map f g).text leafText keyText = t.text (fun l => leafText (f l)) fun k => keyText (g k)
  | leaf l => rfl
  | arr items => by rw [map, text, text, itemsText_map items]
  | obj members => by rw [map, text, text, membersText_map members]

theorem itemsText_map : ∀ items : List (JsonTree L K),
    itemsText leafText keyText (mapItems f g items) =
      itemsText (fun l => leafText (f l)) (fun k => keyText (g k)) items
  | [] => rfl
  | t :: rest => by rw [mapItems, itemsText, itemsText, text_map t, moreItems_map rest]

theorem moreItems_map : ∀ items : List (JsonTree L K),
    moreItems leafText keyText (mapItems f g items) =
      moreItems (fun l => leafText (f l)) (fun k => keyText (g k)) items
  | [] => rfl
  | t :: rest => by rw [mapItems, moreItems, moreItems, text_map t, moreItems_map rest]

theorem membersText_map : ∀ members : List (K × JsonTree L K),
    membersText leafText keyText (mapMembers f g members) =
      membersText (fun l => leafText (f l)) (fun k => keyText (g k)) members
  | [] => rfl
  | (k, t) :: rest => by
      rw [mapMembers, membersText, membersText, text_map t, moreMembers_map rest]

theorem moreMembers_map : ∀ members : List (K × JsonTree L K),
    moreMembers leafText keyText (mapMembers f g members) =
      moreMembers (fun l => leafText (f l)) (fun k => keyText (g k)) members
  | [] => rfl
  | (k, t) :: rest => by
      rw [mapMembers, moreMembers, moreMembers, text_map t, moreMembers_map rest]

end

end Text

end Map

/-! ## The objects of a tree -/

section Objects

variable (P : List K → Prop)

mutual

/-- The keys of every object of the tree, at any depth, have the property. -/
def EveryObject : JsonTree L K → Prop
  | leaf _ => True
  | arr items => EveryItem items
  | obj members => P (members.map Prod.fst) ∧ EveryMember members

def EveryItem : List (JsonTree L K) → Prop
  | [] => True
  | t :: rest => EveryObject t ∧ EveryItem rest

def EveryMember : List (K × JsonTree L K) → Prop
  | [] => True
  | (_, t) :: rest => EveryObject t ∧ EveryMember rest

end

end Objects

mutual

theorem EveryObject.imp {P Q : List K → Prop} (himp : ∀ keys, P keys → Q keys) :
    ∀ {t : JsonTree L K}, t.EveryObject P → t.EveryObject Q
  | leaf _, h => h
  | arr _, h => EveryItem.imp himp h
  | obj _, h => ⟨himp _ h.1, EveryMember.imp himp h.2⟩

theorem EveryItem.imp {P Q : List K → Prop} (himp : ∀ keys, P keys → Q keys) :
    ∀ {items : List (JsonTree L K)}, EveryItem P items → EveryItem Q items
  | [], h => h
  | _ :: _, h => ⟨EveryObject.imp himp h.1, EveryItem.imp himp h.2⟩

theorem EveryMember.imp {P Q : List K → Prop} (himp : ∀ keys, P keys → Q keys) :
    ∀ {members : List (K × JsonTree L K)}, EveryMember P members → EveryMember Q members
  | [], h => h
  | _ :: _, h => ⟨EveryObject.imp himp h.1, EveryMember.imp himp h.2⟩

end

theorem everyObject_congr {P Q : List K → Prop} (h : ∀ keys, P keys ↔ Q keys) {t : JsonTree L K} :
    t.EveryObject P ↔ t.EveryObject Q :=
  ⟨EveryObject.imp fun keys => (h keys).1, EveryObject.imp fun keys => (h keys).2⟩

/-- Members that are left out take their objects with them. -/
theorem EveryMember.filter {P : List K → Prop} (f : K × JsonTree L K → Bool)
    {members : List (K × JsonTree L K)} (h : EveryMember P members) :
    EveryMember P (members.filter f) := by
  induction members with
  | nil => exact h
  | cons m rest ih =>
      rcases h with ⟨hvalue, hrest⟩
      rw [List.filter_cons]
      split_ifs
      · exact ⟨hvalue, ih hrest⟩
      · exact ih hrest

/-! ## Sorting by an order -/

section SortBy

variable (r : K → K → Prop) [DecidableRel r]

mutual

/-- The tree with the members of every object sorted by key, in the order `r`. -/
def sortBy : JsonTree L K → JsonTree L K
  | leaf l => leaf l
  | arr items => arr (sortItemsBy items)
  | obj members => obj ((sortMembersBy members).insertionSort fun a b => r a.1 b.1)

def sortItemsBy : List (JsonTree L K) → List (JsonTree L K)
  | [] => []
  | t :: rest => sortBy t :: sortItemsBy rest

def sortMembersBy : List (K × JsonTree L K) → List (K × JsonTree L K)
  | [] => []
  | (k, t) :: rest => (k, sortBy t) :: sortMembersBy rest

end

theorem map_fst_sortMembersBy (members : List (K × JsonTree L K)) :
    (sortMembersBy r members).map Prod.fst = members.map Prod.fst := by
  induction members with
  | nil => rfl
  | cons m rest ih =>
      rcases m with ⟨k, t⟩
      simp [sortMembersBy, ih]

end SortBy

section SortMap

variable {f : L → L'} {g : K → K'} {r : K → K → Prop} {s : K' → K' → Prop} [DecidableRel r]
  [DecidableRel s]

mutual

/-- A tree is sorted in an image like the image of its keys. -/
theorem sortBy_map (h : ∀ a b, r a b ↔ s (g a) (g b)) : ∀ t : JsonTree L K,
    (t.map f g).sortBy s = (t.sortBy r).map f g
  | leaf _ => rfl
  | arr items => by rw [map, sortBy, sortBy, map, sortItemsBy_map h items]
  | obj members => by
      have hsorted := List.map_insertionSort (fun a b : K × JsonTree L K => r a.1 b.1)
        (fun a b => s a.1 b.1) (fun m => (g m.1, m.2.map f g)) (sortMembersBy r members)
        fun a _ b _ => h a.1 b.1
      rw [map, sortBy, sortBy, map, sortMembersBy_map h members, mapMembers_eq_map,
        mapMembers_eq_map, hsorted]

theorem sortItemsBy_map (h : ∀ a b, r a b ↔ s (g a) (g b)) : ∀ items : List (JsonTree L K),
    sortItemsBy s (mapItems f g items) = mapItems f g (sortItemsBy r items)
  | [] => rfl
  | t :: rest => by
      rw [mapItems, sortItemsBy, sortItemsBy, mapItems, sortBy_map h t, sortItemsBy_map h rest]

theorem sortMembersBy_map (h : ∀ a b, r a b ↔ s (g a) (g b)) :
    ∀ members : List (K × JsonTree L K),
    sortMembersBy s (mapMembers f g members) = mapMembers f g (sortMembersBy r members)
  | [] => rfl
  | (k, t) :: rest => by
      rw [mapMembers, sortMembersBy, sortMembersBy, mapMembers, sortBy_map h t,
        sortMembersBy_map h rest]

end

end SortMap

section Natural

variable [LinearOrder K]

mutual

/-- Sorting by the order of the keys is one case. -/
theorem sortKeys_eq_sortBy : ∀ t : JsonTree L K, t.sortKeys = t.sortBy (· ≤ ·)
  | leaf _ => rfl
  | arr items => by rw [sortKeys, sortBy, sortItems_eq_sortItemsBy items]
  | obj members => by rw [sortKeys, sortBy, sortMembers_eq_sortMembersBy members]

theorem sortItems_eq_sortItemsBy : ∀ items : List (JsonTree L K),
    sortItems items = sortItemsBy (· ≤ ·) items
  | [] => rfl
  | t :: rest => by
      rw [sortItems, sortItemsBy, sortKeys_eq_sortBy t, sortItems_eq_sortItemsBy rest]

theorem sortMembers_eq_sortMembersBy : ∀ members : List (K × JsonTree L K),
    sortMembers members = sortMembersBy (· ≤ ·) members
  | [] => rfl
  | (k, t) :: rest => by
      rw [sortMembers, sortMembersBy, sortKeys_eq_sortBy t, sortMembers_eq_sortMembersBy rest]

end

end Natural

/-! ## Two orders -/

section Agree

/-- The two orders compare the keys of a list alike. -/
def Agree (r s : K → K → Prop) (keys : List K) : Prop :=
  ∀ a ∈ keys, ∀ b ∈ keys, r a b ↔ s a b

variable {r s : K → K → Prop} [DecidableRel r] [DecidableRel s]
  [Std.Total r] [IsTrans K r] [Std.Antisymm r] [Std.Total s] [IsTrans K s] [Std.Antisymm s]

omit [Std.Antisymm r] [Std.Antisymm s] [Std.Total s] [IsTrans K s] [DecidableRel s] in
theorem pairwise_sorted {V : Type*} (l : List (K × V)) :
    ((l.insertionSort fun a b => r a.1 b.1).map Prod.fst).Pairwise r := by
  have htotal : Std.Total fun a b : K × V => r a.1 b.1 := ⟨fun a b => Std.Total.total a.1 b.1⟩
  have htrans : IsTrans (K × V) fun a b => r a.1 b.1 :=
    ⟨fun _ _ _ hab hbc => IsTrans.trans _ _ _ hab hbc⟩
  exact List.pairwise_map.2 (List.pairwise_insertionSort _ l)

omit [DecidableRel r] [DecidableRel s] [IsTrans K r] [IsTrans K s] in
/-- Two orders that both sort a list compare its members alike. -/
theorem agree_of_pairwise {keys : List K} (hr : keys.Pairwise r) (hs : keys.Pairwise s) :
    Agree r s keys := by
  have hrefl : ∀ a, r a a ∧ s a a := fun a =>
    ⟨or_self_iff.1 (Std.Total.total a a), or_self_iff.1 (Std.Total.total a a)⟩
  have hboth : ∀ ⦃a⦄, a ∈ keys → ∀ ⦃b⦄, b ∈ keys → (r a b ∧ s a b) ∨ (r b a ∧ s b a) :=
    List.Pairwise.forall_of_forall_of_flip (fun c _ => .inl (hrefl c)) ((hr.and hs).imp .inl)
      ((hr.and hs).imp .inr)
  intro a ha b hb
  -- whichever comes first in the list, both orders say so
  rcases hboth ha hb with h | h
  · exact iff_of_true h.1 h.2
  · constructor
    · intro hab
      rw [Std.Antisymm.antisymm a b hab h.1]
      exact (hrefl b).2
    · intro hab
      rw [Std.Antisymm.antisymm a b hab h.2]
      exact (hrefl b).1

/-- Entries with distinct keys are sorted alike if the orders agree on their keys. -/
theorem sorted_eq_iff {V : Type*} {l m : List (K × V)} (hkeys : l.map Prod.fst = m.map Prod.fst)
    (hnodup : (l.map Prod.fst).Nodup) :
    (l.insertionSort fun a b => r a.1 b.1) = m.insertionSort (fun a b => s a.1 b.1) ↔
      Agree r s (l.map Prod.fst) ∧ l = m := by
  constructor
  · intro h
    have hperm : l.Perm m :=
      ((List.perm_insertionSort _ l).symm.trans (by rw [h])).trans (List.perm_insertionSort _ m)
    have hsorted := (List.perm_insertionSort (fun a b : K × V => r a.1 b.1) l).map Prod.fst
    have hagree := agree_of_pairwise (pairwise_sorted l) (h ▸ pairwise_sorted m)
    refine ⟨fun a ha b hb => ?_, eq_of_perm_of_keys hkeys hnodup hperm⟩
    exact hagree a (hsorted.mem_iff.2 ha) b (hsorted.mem_iff.2 hb)
  · rintro ⟨hagree, rfl⟩
    have hcongr := List.map_insertionSort (fun a b : K × V => r a.1 b.1) (fun a b => s a.1 b.1) id l
      fun a ha b hb => hagree _ (List.mem_map_of_mem ha) _ (List.mem_map_of_mem hb)
    simpa using hcongr

set_option linter.unusedSectionVars false in
mutual

/-- Two orders sort a tree with distinct keys alike exactly if they agree on the keys of every
object. -/
theorem sortBy_eq_iff : ∀ t : JsonTree L K, t.EveryObject List.Nodup →
    (t.sortBy r = t.sortBy s ↔ t.EveryObject (Agree r s))
  | leaf _, _ => by simp [sortBy, EveryObject]
  | arr items, h => by
      rw [sortBy, sortBy, EveryObject, arr.injEq]
      exact sortItemsBy_eq_iff items h
  | obj members, h => by
      rcases h with ⟨hnodup, hmembers⟩
      have hkeys : ∀ (q : K → K → Prop) [DecidableRel q],
          (sortMembersBy q members).map Prod.fst = members.map Prod.fst := fun q _ =>
        map_fst_sortMembersBy q members
      rw [sortBy, sortBy, EveryObject, obj.injEq,
        sorted_eq_iff ((hkeys r).trans (hkeys s).symm) ((hkeys r).symm ▸ hnodup), hkeys r,
        sortMembersBy_eq_iff members hmembers]

theorem sortItemsBy_eq_iff : ∀ items : List (JsonTree L K), EveryItem List.Nodup items →
    (sortItemsBy r items = sortItemsBy s items ↔ EveryItem (Agree r s) items)
  | [], _ => by simp [sortItemsBy, EveryItem]
  | t :: rest, h => by
      rw [sortItemsBy, sortItemsBy, EveryItem, List.cons.injEq, sortBy_eq_iff t h.1,
        sortItemsBy_eq_iff rest h.2]

theorem sortMembersBy_eq_iff : ∀ members : List (K × JsonTree L K), EveryMember List.Nodup members →
    (sortMembersBy r members = sortMembersBy s members ↔ EveryMember (Agree r s) members)
  | [], _ => by simp [sortMembersBy, EveryMember]
  | (k, t) :: rest, h => by
      rw [sortMembersBy, sortMembersBy, EveryMember, List.cons.injEq, Prod.mk.injEq,
        eq_self_iff_true, true_and, sortBy_eq_iff t h.1, sortMembersBy_eq_iff rest h.2]

end

end Agree

end JsonTree
end Library
end ControlDB
