import ControlDB.Library.JsonOrder

/-!
# JSON values up to the order of members

Two trees with distinct keys spell the same value if they differ only in the order of the members of
their objects.  Sorting the members decides it.
-/

namespace ControlDB
namespace Library
namespace JsonTree

universe u

variable {L K : Type u}

mutual

/-- The same value: the objects have the same members, in any order. -/
def Same : JsonTree L K → JsonTree L K → Prop
  | leaf l, u => u = leaf l
  | arr items, u => ∃ items', u = arr items' ∧ SameItems items items'
  | obj members, u => ∃ members', u = obj members' ∧ members.length = members'.length ∧
      SameMembers members members'

def SameItems : List (JsonTree L K) → List (JsonTree L K) → Prop
  | [], us => us = []
  | t :: rest, us => ∃ u rest', us = u :: rest' ∧ Same t u ∧ SameItems rest rest'

/-- Each member of the first list has its like in the second one. -/
def SameMembers : List (K × JsonTree L K) → List (K × JsonTree L K) → Prop
  | [], _ => True
  | (k, t) :: rest, us => (∃ u, (k, u) ∈ us ∧ Same t u) ∧ SameMembers rest us

end

theorem everyMember_iff {P : List K → Prop} {members : List (K × JsonTree L K)} :
    EveryMember P members ↔ ∀ m ∈ members, m.2.EveryObject P := by
  induction members with
  | nil => simp [EveryMember]
  | cons m rest ih =>
      rcases m with ⟨k, t⟩
      simp [EveryMember, ih]

theorem everyItem_iff {P : List K → Prop} {items : List (JsonTree L K)} :
    EveryItem P items ↔ ∀ t ∈ items, t.EveryObject P := by
  induction items with
  | nil => simp [EveryItem]
  | cons t rest ih => simp [EveryItem, ih]

variable [LinearOrder K]

theorem mem_sortMembers {members : List (K × JsonTree L K)} {k : K} {t : JsonTree L K} :
    (k, t) ∈ sortMembers members ↔ ∃ u, (k, u) ∈ members ∧ u.sortKeys = t := by
  rw [sortMembers_eq_map, List.mem_map]
  constructor
  · rintro ⟨⟨k', u⟩, hmem, heq⟩
    cases heq
    exact ⟨u, hmem, rfl⟩
  · rintro ⟨u, hmem, rfl⟩
    exact ⟨(k, u), hmem, rfl⟩

/-- Lists of members with distinct keys are permutations of each other if one has as many members as
the other and all of them occur there. -/
theorem perm_sortMembers_iff {members us : List (K × JsonTree L K)}
    (hnodup : (members.map Prod.fst).Nodup) :
    (sortMembers members).Perm (sortMembers us) ↔
      members.length = us.length ∧ ∀ m ∈ members, ∃ u, (m.1, u) ∈ us ∧ m.2.sortKeys = u.sortKeys := by
  have hlength : ∀ l : List (K × JsonTree L K), (sortMembers l).length = l.length := fun l => by
    rw [sortMembers_eq_map, List.length_map]
  constructor
  · intro hperm
    refine ⟨by rw [← hlength, hperm.length_eq, hlength], fun m hm => ?_⟩
    have hmem : (m.1, m.2.sortKeys) ∈ sortMembers us :=
      hperm.subset (mem_sortMembers.2 ⟨m.2, hm, rfl⟩)
    rcases mem_sortMembers.1 hmem with ⟨u, hu, heq⟩
    exact ⟨u, hu, heq.symm⟩
  · rintro ⟨hlen, hall⟩
    have hdistinct : (sortMembers members).Nodup := by
      refine List.Nodup.of_map Prod.fst ?_
      rw [map_fst_sortMembers]
      exact hnodup
    have hsub : sortMembers members ⊆ sortMembers us := by
      rintro ⟨k, t⟩ hmem
      rcases mem_sortMembers.1 hmem with ⟨v, hv, rfl⟩
      rcases hall (k, v) hv with ⟨u, hu, heq⟩
      exact mem_sortMembers.2 ⟨u, hu, heq.symm⟩
    exact (List.subperm_of_subset hdistinct hsub).perm_of_length_le (by rw [hlength, hlength, hlen])

mutual

/-- Values are the same exactly if they are equal with their members sorted. -/
theorem sortKeys_eq_iff_same : ∀ {t u : JsonTree L K}, t.EveryObject List.Nodup →
    u.EveryObject List.Nodup → (t.sortKeys = u.sortKeys ↔ t.Same u)
  | leaf l, u, _, _ => by
      cases u with
      | leaf m => simp [sortKeys, Same, eq_comm]
      | arr items => simp [sortKeys, Same]
      | obj members => simp [sortKeys, Same]
  | arr items, u, ht, hu => by
      cases u with
      | leaf m => simp [sortKeys, Same]
      | arr items' =>
          have hitems := sortItems_eq_iff_same ht hu
          simpa [sortKeys, Same] using hitems
      | obj members => simp [sortKeys, Same]
  | obj members, u, ht, hu => by
      cases u with
      | leaf m => simp [sortKeys, Same]
      | arr items => simp [sortKeys, Same]
      | obj members' =>
          calc (obj members).sortKeys = (obj members').sortKeys
              ↔ (sortMembers members).Perm (sortMembers members') := sortKeys_obj_eq_iff ht.1
            _ ↔ members.length = members'.length ∧
                ∀ m ∈ members, ∃ u, (m.1, u) ∈ members' ∧ m.2.sortKeys = u.sortKeys :=
              perm_sortMembers_iff ht.1
            _ ↔ (obj members).Same (obj members') := by
              have hvalues := sortMembers_eq_iff_same ht.2
                (everyMember_iff.1 hu.2)
              rw [hvalues]
              simp [Same]

theorem sortItems_eq_iff_same : ∀ {items us : List (JsonTree L K)}, EveryItem List.Nodup items →
    EveryItem List.Nodup us → (sortItems items = sortItems us ↔ SameItems items us)
  | [], us, _, _ => by
      cases us <;> simp [sortItems, SameItems]
  | t :: rest, us, ht, hu => by
      cases us with
      | nil => simp [sortItems, SameItems]
      | cons u rest' =>
          have hhead := sortKeys_eq_iff_same (t := t) (u := u) ht.1 hu.1
          have htail := sortItems_eq_iff_same ht.2 hu.2
          simp [sortItems, SameItems, hhead, htail]

theorem sortMembers_eq_iff_same : ∀ {members us : List (K × JsonTree L K)},
    EveryMember List.Nodup members → (∀ u ∈ us, u.2.EveryObject List.Nodup) →
    ((∀ m ∈ members, ∃ u, (m.1, u) ∈ us ∧ m.2.sortKeys = u.sortKeys) ↔ SameMembers members us)
  | [], us, _, _ => by simp [SameMembers]
  | (k, t) :: rest, us, ht, hu => by
      have htail := sortMembers_eq_iff_same ht.2 hu
      have hhead : (∃ u, (k, u) ∈ us ∧ t.sortKeys = u.sortKeys) ↔ ∃ u, (k, u) ∈ us ∧ t.Same u :=
        exists_congr fun u => and_congr_right fun hmem =>
          sortKeys_eq_iff_same (t := t) (u := u) ht.1 (hu _ hmem)
      rw [SameMembers, ← htail, ← hhead, List.forall_mem_cons]

end

/-! ## The sorted tree -/

mutual

/-- With distinct keys, sorting puts the keys of every object in strict order. -/
theorem everyObject_sortKeys : ∀ {t : JsonTree L K}, t.EveryObject List.Nodup →
    t.sortKeys.EveryObject (List.Pairwise (· < ·))
  | leaf _, _ => trivial
  | arr _, h => everyItem_sortItems h
  | obj members, h => by
      have hperm := List.perm_insertionSort
        (fun a b : K × JsonTree L K => a.1 ≤ b.1) (sortMembers members)
      have hordered : (((sortMembers members).insertionSort fun a b => a.1 ≤ b.1).map
          Prod.fst).Pairwise (· ≤ ·) :=
        List.pairwise_map.2 (List.pairwise_insertionSort _ _)
      have hdistinct : (((sortMembers members).insertionSort fun a b => a.1 ≤ b.1).map
          Prod.fst).Nodup := by
        rw [(hperm.map Prod.fst).nodup_iff, map_fst_sortMembers]
        exact h.1
      refine ⟨(hordered.and hdistinct).imp fun hle => lt_of_le_of_ne hle.1 hle.2, ?_⟩
      rw [everyMember_iff]
      intro m hm
      exact everyMember_iff.1 (everyMember_sortMembers h.2) m (hperm.mem_iff.1 hm)

theorem everyItem_sortItems : ∀ {items : List (JsonTree L K)}, EveryItem List.Nodup items →
    EveryItem (List.Pairwise (· < ·)) (sortItems items)
  | [], _ => trivial
  | _ :: _, h => ⟨everyObject_sortKeys h.1, everyItem_sortItems h.2⟩

theorem everyMember_sortMembers : ∀ {members : List (K × JsonTree L K)},
    EveryMember List.Nodup members → EveryMember (List.Pairwise (· < ·)) (sortMembers members)
  | [], _ => trivial
  | (_, _) :: _, h => ⟨everyObject_sortKeys h.1, everyMember_sortMembers h.2⟩

end

mutual

/-- Sorting changes nothing where the keys are in order. -/
theorem sortKeys_of_sorted : ∀ {t : JsonTree L K}, t.EveryObject (List.Pairwise (· < ·)) →
    t.sortKeys = t
  | leaf _, _ => rfl
  | arr items, h => by rw [sortKeys, sortItems_of_sorted h]
  | obj members, h => by
      have hordered : members.Pairwise fun a b => a.1 ≤ b.1 :=
        (List.pairwise_map.1 h.1).imp le_of_lt
      rw [sortKeys, sortMembers_of_sorted h.2, hordered.insertionSort_eq]

theorem sortItems_of_sorted : ∀ {items : List (JsonTree L K)},
    EveryItem (List.Pairwise (· < ·)) items → sortItems items = items
  | [], _ => rfl
  | t :: rest, h => by rw [sortItems, sortKeys_of_sorted h.1, sortItems_of_sorted h.2]

theorem sortMembers_of_sorted : ∀ {members : List (K × JsonTree L K)},
    EveryMember (List.Pairwise (· < ·)) members → sortMembers members = members
  | [], _ => rfl
  | (k, t) :: rest, h => by rw [sortMembers, sortKeys_of_sorted h.1, sortMembers_of_sorted h.2]

end

end JsonTree
end Library
end ControlDB
