import ControlDB.Library.JsonSame

/-!
# The members of a JSON tree

Properties of all leaves and of all members that are reached without passing a closed key, and the
number of members, which the order of the members does not change.
-/

namespace ControlDB
namespace Library
namespace JsonTree

universe u

variable {L L' K K' : Type u}

/-! ## The leaves of a tree -/

section Leaves

variable (P : L → Prop)

mutual

def EveryLeaf : JsonTree L K → Prop
  | leaf l => P l
  | arr items => EveryLeafItem items
  | obj members => EveryLeafMember members

def EveryLeafItem : List (JsonTree L K) → Prop
  | [] => True
  | t :: rest => EveryLeaf t ∧ EveryLeafItem rest

def EveryLeafMember : List (K × JsonTree L K) → Prop
  | [] => True
  | (_, t) :: rest => EveryLeaf t ∧ EveryLeafMember rest

end

end Leaves

theorem everyLeafItem_iff {P : L → Prop} {items : List (JsonTree L K)} :
    EveryLeafItem P items ↔ ∀ t ∈ items, t.EveryLeaf P := by
  induction items with
  | nil => simp [EveryLeafItem]
  | cons t rest ih => simp [EveryLeafItem, ih]

theorem everyLeafMember_iff {P : L → Prop} {members : List (K × JsonTree L K)} :
    EveryLeafMember P members ↔ ∀ m ∈ members, m.2.EveryLeaf P := by
  induction members with
  | nil => simp [EveryLeafMember]
  | cons m rest ih =>
      rcases m with ⟨k, t⟩
      simp [EveryLeafMember, ih]

section Sorted

variable [LinearOrder K] {P : L → Prop}

mutual

theorem everyLeaf_sortKeys_iff : ∀ {t : JsonTree L K}, t.sortKeys.EveryLeaf P ↔ t.EveryLeaf P
  | leaf _ => Iff.rfl
  | arr items => everyLeafItem_sortItems_iff
  | obj members => by
      have hperm := List.perm_insertionSort
        (fun a b : K × JsonTree L K => a.1 ≤ b.1) (sortMembers members)
      have hmembers : EveryLeafMember P (sortMembers members) ↔ EveryLeafMember P members :=
        everyLeafMember_sortMembers_iff
      rw [everyLeafMember_iff] at hmembers
      rw [sortKeys, EveryLeaf, everyLeafMember_iff, EveryLeaf, ← hmembers]
      exact forall_congr' fun m => imp_congr_left hperm.mem_iff

theorem everyLeafItem_sortItems_iff : ∀ {items : List (JsonTree L K)},
    EveryLeafItem P (sortItems items) ↔ EveryLeafItem P items
  | [] => Iff.rfl
  | t :: rest => and_congr (everyLeaf_sortKeys_iff (t := t)) everyLeafItem_sortItems_iff

theorem everyLeafMember_sortMembers_iff : ∀ {members : List (K × JsonTree L K)},
    EveryLeafMember P (sortMembers members) ↔ EveryLeafMember P members
  | [] => Iff.rfl
  | (_, t) :: rest => and_congr (everyLeaf_sortKeys_iff (t := t)) everyLeafMember_sortMembers_iff

end

end Sorted

mutual

theorem everyLeaf_map_iff {P : L' → Prop} {Q : L → Prop} {f : L → L'} {g : K → K'}
    (h : ∀ l, P (f l) ↔ Q l) : ∀ {t : JsonTree L K}, (t.map f g).EveryLeaf P ↔ t.EveryLeaf Q
  | leaf l => h l
  | arr items => everyLeafItem_map_iff h
  | obj members => everyLeafMember_map_iff h

theorem everyLeafItem_map_iff {P : L' → Prop} {Q : L → Prop} {f : L → L'} {g : K → K'}
    (h : ∀ l, P (f l) ↔ Q l) : ∀ {items : List (JsonTree L K)},
    EveryLeafItem P (mapItems f g items) ↔ EveryLeafItem Q items
  | [] => Iff.rfl
  | t :: rest => and_congr (everyLeaf_map_iff h (t := t)) (everyLeafItem_map_iff h)

theorem everyLeafMember_map_iff {P : L' → Prop} {Q : L → Prop} {f : L → L'} {g : K → K'}
    (h : ∀ l, P (f l) ↔ Q l) : ∀ {members : List (K × JsonTree L K)},
    EveryLeafMember P (mapMembers f g members) ↔ EveryLeafMember Q members
  | [] => Iff.rfl
  | (_, t) :: rest =>
      and_congr (everyLeaf_map_iff h (t := t)) (everyLeafMember_map_iff h)

end

mutual

theorem everyObject_map_iff {P : List K' → Prop} (f : L → L') (g : K → K') :
    ∀ {t : JsonTree L K}, (t.map f g).EveryObject P ↔ t.EveryObject fun keys => P (keys.map g)
  | leaf _ => Iff.rfl
  | arr items => everyItem_map_iff f g
  | obj members => by
      have hkeys : (mapMembers f g members).map Prod.fst = (members.map Prod.fst).map g := by
        rw [mapMembers_eq_map, List.map_map, List.map_map]
        rfl
      rw [map, EveryObject, EveryObject, hkeys, everyMember_map_iff f g]

theorem everyItem_map_iff {P : List K' → Prop} (f : L → L') (g : K → K') :
    ∀ {items : List (JsonTree L K)},
    EveryItem P (mapItems f g items) ↔ EveryItem (fun keys => P (keys.map g)) items
  | [] => Iff.rfl
  | t :: rest => and_congr (everyObject_map_iff f g (t := t)) (everyItem_map_iff f g)

theorem everyMember_map_iff {P : List K' → Prop} (f : L → L') (g : K → K') :
    ∀ {members : List (K × JsonTree L K)},
    EveryMember P (mapMembers f g members) ↔ EveryMember (fun keys => P (keys.map g)) members
  | [] => Iff.rfl
  | (_, t) :: rest =>
      and_congr (everyObject_map_iff f g (t := t)) (everyMember_map_iff f g)

end

mutual

/-- A tree whose leaves come from other leaves comes from a tree of these. -/
theorem exists_map_of_everyLeaf {f : L → L'} : ∀ {t : JsonTree L' K},
    t.EveryLeaf (fun l => ∃ m, f m = l) → ∃ u : JsonTree L K, u.map f id = t
  | leaf _, h => by
      rcases h with ⟨m, rfl⟩
      exact ⟨leaf m, rfl⟩
  | arr items, h => by
      rcases exists_mapItems_of_everyLeaf h with ⟨us, hus⟩
      exact ⟨arr us, by rw [map, hus]⟩
  | obj members, h => by
      rcases exists_mapMembers_of_everyLeaf h with ⟨us, hus⟩
      exact ⟨obj us, by rw [map, hus]⟩

theorem exists_mapItems_of_everyLeaf {f : L → L'} : ∀ {items : List (JsonTree L' K)},
    EveryLeafItem (fun l => ∃ m, f m = l) items →
    ∃ us : List (JsonTree L K), mapItems f id us = items
  | [], _ => ⟨[], rfl⟩
  | t :: rest, h => by
      rcases exists_map_of_everyLeaf (t := t) h.1 with ⟨u, hu⟩
      rcases exists_mapItems_of_everyLeaf h.2 with ⟨us, hus⟩
      exact ⟨u :: us, by rw [mapItems, hu, hus]⟩

theorem exists_mapMembers_of_everyLeaf {f : L → L'} : ∀ {members : List (K × JsonTree L' K)},
    EveryLeafMember (fun l => ∃ m, f m = l) members →
    ∃ us : List (K × JsonTree L K), mapMembers f id us = members
  | [], _ => ⟨[], rfl⟩
  | (k, t) :: rest, h => by
      rcases exists_map_of_everyLeaf (t := t) h.1 with ⟨u, hu⟩
      rcases exists_mapMembers_of_everyLeaf h.2 with ⟨us, hus⟩
      exact ⟨(k, u) :: us, by rw [mapMembers, hu, hus]; rfl⟩

end

section Injective

variable {f : L → L'} {g : K → K'}

mutual

theorem map_inj (hf : Function.Injective f) (hg : Function.Injective g) : ∀ {t u : JsonTree L K},
    t.map f g = u.map f g → t = u
  | leaf l, u, h => by
      cases u with
      | leaf m => rw [hf (leaf.inj h)]
      | arr items => cases h
      | obj members => cases h
  | arr items, u, h => by
      cases u with
      | leaf m => cases h
      | arr items' => rw [mapItems_inj hf hg (arr.inj h)]
      | obj members => cases h
  | obj members, u, h => by
      cases u with
      | leaf m => cases h
      | arr items => cases h
      | obj members' => rw [mapMembers_inj hf hg (obj.inj h)]

theorem mapItems_inj (hf : Function.Injective f) (hg : Function.Injective g) :
    ∀ {items us : List (JsonTree L K)}, mapItems f g items = mapItems f g us → items = us
  | [], us, h => by
      cases us with
      | nil => rfl
      | cons u us => cases h
  | t :: rest, us, h => by
      cases us with
      | nil => cases h
      | cons u us =>
          rcases List.cons.inj h with ⟨hhead, htail⟩
          rw [map_inj hf hg hhead, mapItems_inj hf hg htail]

theorem mapMembers_inj (hf : Function.Injective f) (hg : Function.Injective g) :
    ∀ {members us : List (K × JsonTree L K)}, mapMembers f g members = mapMembers f g us →
      members = us
  | [], us, h => by
      cases us with
      | nil => rfl
      | cons u us => cases h
  | (k, t) :: rest, us, h => by
      cases us with
      | nil => cases h
      | cons u us =>
          rcases u with ⟨k', u⟩
          rcases List.cons.inj h with ⟨hhead, htail⟩
          rcases Prod.mk.inj hhead with ⟨hkey, hvalue⟩
          rw [hg hkey, map_inj hf hg hvalue, mapMembers_inj hf hg htail]

end

end Injective

/-! ## The members that are reached -/

section Reached

variable (closed : K → Prop) (P : K → JsonTree L K → Prop)

mutual

/-- Every member has the property, apart from those inside the value of a closed key. -/
def EveryReached : JsonTree L K → Prop
  | leaf _ => True
  | arr items => ReachedItems items
  | obj members => ReachedMembers members

def ReachedItems : List (JsonTree L K) → Prop
  | [] => True
  | t :: rest => EveryReached t ∧ ReachedItems rest

def ReachedMembers : List (K × JsonTree L K) → Prop
  | [] => True
  | (k, t) :: rest => (P k t ∧ (closed k ∨ EveryReached t)) ∧ ReachedMembers rest

end

end Reached

/-! ## The number of members -/

mutual

/-- How many members the objects of the tree have together. -/
def memberCount : JsonTree L K → Nat
  | leaf _ => 0
  | arr items => itemsCount items
  | obj members => membersCount members

def itemsCount : List (JsonTree L K) → Nat
  | [] => 0
  | t :: rest => memberCount t + itemsCount rest

def membersCount : List (K × JsonTree L K) → Nat
  | [] => 0
  | (_, t) :: rest => 1 + memberCount t + membersCount rest

end

theorem membersCount_eq_sum (members : List (K × JsonTree L K)) :
    membersCount members = (members.map fun m => 1 + m.2.memberCount).sum := by
  induction members with
  | nil => rfl
  | cons m rest ih =>
      rcases m with ⟨k, t⟩
      simp [membersCount, ih]

mutual

theorem memberCount_map (f : L → L') (g : K → K') : ∀ t : JsonTree L K,
    (t.map f g).memberCount = t.memberCount
  | leaf _ => rfl
  | arr items => by rw [map, memberCount, memberCount, itemsCount_map f g items]
  | obj members => by rw [map, memberCount, memberCount, membersCount_map f g members]

theorem itemsCount_map (f : L → L') (g : K → K') : ∀ items : List (JsonTree L K),
    itemsCount (mapItems f g items) = itemsCount items
  | [] => rfl
  | t :: rest => by
      rw [mapItems, itemsCount, itemsCount, memberCount_map f g t, itemsCount_map f g rest]

theorem membersCount_map (f : L → L') (g : K → K') : ∀ members : List (K × JsonTree L K),
    membersCount (mapMembers f g members) = membersCount members
  | [] => rfl
  | (k, t) :: rest => by
      rw [mapMembers, membersCount, membersCount, memberCount_map f g t, membersCount_map f g rest]

end

section Sorted

variable [LinearOrder K]

mutual

theorem memberCount_sortKeys : ∀ t : JsonTree L K, t.sortKeys.memberCount = t.memberCount
  | leaf _ => rfl
  | arr items => by rw [sortKeys, memberCount, memberCount, itemsCount_sortItems items]
  | obj members => by
      have hperm := List.perm_insertionSort
        (fun a b : K × JsonTree L K => a.1 ≤ b.1) (sortMembers members)
      rw [sortKeys, memberCount, memberCount, membersCount_eq_sum,
        (hperm.map _).sum_nat, ← membersCount_eq_sum, membersCount_sortMembers members]

theorem itemsCount_sortItems : ∀ items : List (JsonTree L K),
    itemsCount (sortItems items) = itemsCount items
  | [] => rfl
  | t :: rest => by
      rw [sortItems, itemsCount, itemsCount, memberCount_sortKeys t, itemsCount_sortItems rest]

theorem membersCount_sortMembers : ∀ members : List (K × JsonTree L K),
    membersCount (sortMembers members) = membersCount members
  | [] => rfl
  | (k, t) :: rest => by
      rw [sortMembers, membersCount, membersCount, memberCount_sortKeys t,
        membersCount_sortMembers rest]

end

/-- Values that are the same up to the order of members have as many of them. -/
theorem memberCount_eq_of_sortKeys {t u : JsonTree L K} (h : t.sortKeys = u.sortKeys) :
    t.memberCount = u.memberCount := by
  rw [← memberCount_sortKeys t, h, memberCount_sortKeys]

end Sorted

/-! ## Walks that lose members -/

/-- What came of a walk has at most the members that were expected of it; it has all of them only if
`kept` holds, and then it is the `same`. -/
structure Loses (kept : Prop) (count expected : Nat) (same : Prop) : Prop where
  le : count ≤ expected
  kept_of_eq : count = expected → kept
  same_of_kept : kept → same

namespace Loses

variable {p q s s' : Prop} {m m' n n' : Nat}

theorem none (hp : p) (hs : s) : Loses p n n s :=
  ⟨Nat.le_refl n, fun _ => hp, fun _ => hs⟩

/-- Two walks next to each other. -/
theorem add (h : Loses p m m' s) (h' : Loses q n n' s') :
    Loses (p ∧ q) (m + n) (m' + n') (s ∧ s') where
  le := Nat.add_le_add h.le h'.le
  kept_of_eq := fun heq => by
    have hm := h.le
    have hn := h'.le
    exact ⟨h.kept_of_eq (by omega), h'.kept_of_eq (by omega)⟩
  same_of_kept := fun hboth => ⟨h.same_of_kept hboth.1, h'.same_of_kept hboth.2⟩

/-- A member that stays. -/
theorem member (h : Loses p m n s) : Loses p (1 + m) (1 + n) s where
  le := Nat.add_le_add_left h.le 1
  kept_of_eq := fun heq => h.kept_of_eq (Nat.add_left_cancel heq)
  same_of_kept := h.same_of_kept

/-- A member that is missing. -/
theorem missing (hle : n ≤ n') (hp : ¬ p) : Loses p n (1 + m + n') s where
  le := by omega
  kept_of_eq := fun heq => by omega
  same_of_kept := fun h => absurd h hp

theorem congr {kept' same' : Prop} (h : Loses p m n s) (hp : p ↔ kept') (hs : s → same') :
    Loses kept' m n same' where
  le := h.le
  kept_of_eq := fun heq => hp.1 (h.kept_of_eq heq)
  same_of_kept := fun hkept => hs (h.same_of_kept (hp.2 hkept))

end Loses

end JsonTree
end Library
end ControlDB
