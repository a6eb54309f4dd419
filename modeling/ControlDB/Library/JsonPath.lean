import ControlDB.Library.JsonTree

/-!
# Places in a JSON tree

A place is the way to it from the root.  The two laws at the end say of a whole tree what holds at
its places, and how they follow the shape of the tree.
-/

namespace ControlDB
namespace Library
namespace JsonTree

universe u

variable {L K : Type u}

/-- A step into an array, or into an object: the number of the item, and the key of a member. -/
inductive Segment (K : Type u)
  | item (i : Nat)
  | member (i : Nat) (k : K)

/-- The subtree at a place. -/
inductive At : JsonTree L K → List (Segment K) → JsonTree L K → Prop
  | here (t : JsonTree L K) : At t [] t
  | item {items : List (JsonTree L K)} {i : Nat} {t u : JsonTree L K} {path : List (Segment K)} :
      items[i]? = some t → At t path u → At (.arr items) (.item i :: path) u
  | member {members : List (K × JsonTree L K)} {i : Nat} {k : K} {t u : JsonTree L K}
      {path : List (Segment K)} :
      members[i]? = some (k, t) → At t path u → At (.obj members) (.member i k :: path) u

/-- None of the keys on the way has the property. -/
def Avoids (P : K → Prop) (path : List (Segment K)) : Prop :=
  ∀ i k, Segment.member i k ∈ path → ¬ P k

@[simp] theorem avoids_nil (P : K → Prop) : Avoids P [] := by
  simp [Avoids]

@[simp] theorem avoids_item {P : K → Prop} {i : Nat} {path : List (Segment K)} :
    Avoids P (.item i :: path) ↔ Avoids P path := by
  simp [Avoids]

@[simp] theorem avoids_member {P : K → Prop} {i : Nat} {k : K} {path : List (Segment K)} :
    Avoids P (.member i k :: path) ↔ ¬ P k ∧ Avoids P path := by
  constructor
  · intro h
    exact ⟨h i k List.mem_cons_self, fun j m hm => h j m (List.mem_cons_of_mem _ hm)⟩
  · rintro ⟨hk, hpath⟩ j m hm
    rcases List.mem_cons.1 hm with heq | hm
    · cases heq
      exact hk
    · exact hpath j m hm

/-! ## A property of all members -/

/-- The members of every object in the tree have the property. -/
def MembersHold (P : K → JsonTree L K → Prop) (t : JsonTree L K) : Prop :=
  ∀ path members, At t path (.obj members) → ∀ m ∈ members, P m.1 m.2

section Members

variable {P : K → JsonTree L K → Prop}

theorem membersHold_leaf (l : L) : MembersHold P (.leaf l) := by
  intro path members hat
  cases hat

theorem membersHold_arr_iff {items : List (JsonTree L K)} :
    MembersHold P (.arr items) ↔ ∀ t ∈ items, MembersHold P t := by
  constructor
  · intro h t ht path members hat
    rcases List.getElem?_of_mem ht with ⟨i, hi⟩
    exact h (.item i :: path) members (.item hi hat)
  · intro h path members hat
    cases hat with
    | item hi hat => exact h _ (List.mem_of_getElem? hi) _ _ hat

theorem membersHold_obj_iff {members : List (K × JsonTree L K)} :
    MembersHold P (.obj members) ↔ ∀ m ∈ members, P m.1 m.2 ∧ MembersHold P m.2 := by
  constructor
  · intro h m hm
    refine ⟨h [] members (.here _) m hm, fun path inner hat => ?_⟩
    rcases List.getElem?_of_mem hm with ⟨i, hi⟩
    exact h (.member i m.1 :: path) inner (.member hi hat)
  · intro h path inner hat
    cases hat with
    | here => exact fun m hm => (h m hm).1
    | member hi hat => exact (h _ (List.mem_of_getElem? hi)).2 _ _ hat

end Members

/-! ## What becomes of the leaves -/

/-- Where `t` has a leaf with the property, behind no closed key, `u` has something that is fine. -/
def LeavesBecome (closed : K → Prop) (P : L → Prop) (fine : JsonTree L K → Prop)
    (t u : JsonTree L K) : Prop :=
  ∀ path l, At t path (.leaf l) → Avoids closed path → P l → ∃ v, At u path v ∧ fine v

section Leaves

variable {closed : K → Prop} {P : L → Prop} {fine : JsonTree L K → Prop}

theorem leavesBecome_leaf_iff {l : L} {u : JsonTree L K} :
    LeavesBecome closed P fine (.leaf l) u ↔ (P l → fine u) := by
  constructor
  · intro h hl
    rcases h [] l (.here _) (avoids_nil closed) hl with ⟨v, hat, hfine⟩
    cases hat
    exact hfine
  · intro h path m hat _ hm
    cases hat
    exact ⟨u, .here u, h hm⟩

theorem leavesBecome_arr_iff {α : Type*} {items : List α} {f g : α → JsonTree L K} :
    LeavesBecome closed P fine (.arr (items.map f)) (.arr (items.map g)) ↔
      ∀ a ∈ items, LeavesBecome closed P fine (f a) (g a) := by
  constructor
  · intro h a ha path l hat havoids hl
    rcases List.getElem?_of_mem ha with ⟨i, hi⟩
    have hplace : At (.arr (items.map f)) (.item i :: path) (.leaf l) :=
      .item (by rw [List.getElem?_map, hi]; rfl) hat
    rcases h _ l hplace (avoids_item.2 havoids) hl with ⟨v, hv, hfine⟩
    cases hv with
    | item hi' hv =>
        rw [List.getElem?_map, hi] at hi'
        cases hi'
        exact ⟨v, hv, hfine⟩
  · intro h path l hat havoids hl
    cases hat with
    | item hi hat =>
        rw [List.getElem?_map, Option.map_eq_some_iff] at hi
        rcases hi with ⟨a, ha, rfl⟩
        rcases h a (List.mem_of_getElem? ha) _ l hat (avoids_item.1 havoids) hl with ⟨v, hv, hfine⟩
        exact ⟨v, .item (by rw [List.getElem?_map, ha]; rfl) hv, hfine⟩

theorem leavesBecome_obj_iff {α : Type*} {members : List α} {key : α → K}
    {f g : α → JsonTree L K} :
    LeavesBecome closed P fine (.obj (members.map fun a => (key a, f a)))
        (.obj (members.map fun a => (key a, g a))) ↔
      ∀ a ∈ members, ¬ closed (key a) → LeavesBecome closed P fine (f a) (g a) := by
  constructor
  · intro h a ha hopen path l hat havoids hl
    rcases List.getElem?_of_mem ha with ⟨i, hi⟩
    have hplace : At (.obj (members.map fun a => (key a, f a))) (.member i (key a) :: path)
        (.leaf l) :=
      .member (by rw [List.getElem?_map, hi]; rfl) hat
    rcases h _ l hplace (avoids_member.2 ⟨hopen, havoids⟩) hl with ⟨v, hv, hfine⟩
    cases hv with
    | member hi' hv =>
        rw [List.getElem?_map, hi] at hi'
        cases hi'
        exact ⟨v, hv, hfine⟩
  · intro h path l hat havoids hl
    cases hat with
    | member hi hat =>
        rw [List.getElem?_map, Option.map_eq_some_iff] at hi
        rcases hi with ⟨a, ha, heq⟩
        cases heq
        rcases avoids_member.1 havoids with ⟨hopen, havoids'⟩
        rcases h a (List.mem_of_getElem? ha) hopen _ l hat havoids' hl with ⟨v, hv, hfine⟩
        exact ⟨v, .member (by rw [List.getElem?_map, ha]; rfl) hv, hfine⟩

end Leaves

end JsonTree
end Library
end ControlDB
