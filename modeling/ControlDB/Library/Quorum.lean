import Mathlib

/-!
# Quorums

A majority of a finite set of members, and the value that a majority of a list reaches.
-/

namespace ControlDB
namespace Library

section Quorum

variable {α : Type} [DecidableEq α]

/-- More than half of the members. -/
def IsQuorum (members Q : Finset α) : Prop :=
  Q ⊆ members ∧ members.card < 2 * Q.card

/-- Two quorums share a member. -/
theorem IsQuorum.common {members Q Q' : Finset α} (h : IsQuorum members Q)
    (h' : IsQuorum members Q') : ∃ v, v ∈ Q ∧ v ∈ Q' := by
  by_contra hnone
  have hdisjoint : Disjoint Q Q' :=
    Finset.disjoint_left.2 fun v hv hv' => hnone ⟨v, hv, hv'⟩
  have hunion : (Q ∪ Q').card ≤ members.card :=
    Finset.card_le_card (Finset.union_subset h.1 h'.1)
  have hcard : (Q ∪ Q').card = Q.card + Q'.card := Finset.card_union_of_disjoint hdisjoint
  have hQ := h.2
  have hQ' := h'.2
  omega

end Quorum

section Majority

/-- In a list sorted downwards, everything before a position is at least the value there. -/
theorem le_of_mem_take_of_sorted {l : List Nat} (h : l.Pairwise (· ≥ ·)) {k x : Nat}
    (hk : l[k]? = some x) {y : Nat} (hy : y ∈ l.take (k + 1)) : x ≤ y := by
  induction l generalizing k with
  | nil => simp at hk
  | cons a l ih =>
      rcases List.pairwise_cons.1 h with ⟨hhead, htail⟩
      cases k with
      | zero => simp_all
      | succ k =>
          simp only [List.getElem?_cons_succ] at hk
          rcases List.mem_cons.1 hy with rfl | hrest
          · exact hhead x (List.mem_of_getElem? hk)
          · exact ih htail hk hrest

/-- The value at position `k` of a list sorted downwards is reached by more than `k` of the
values. -/
theorem lt_countP_of_insertionSort {l : List Nat} {k x : Nat}
    (hk : (l.insertionSort (· ≥ ·))[k]? = some x) : k < l.countP (x ≤ ·) := by
  have hsorted : (l.insertionSort (· ≥ ·)).Pairwise (· ≥ ·) := List.pairwise_insertionSort _ l
  have hlt : k < (l.insertionSort (· ≥ ·)).length := (List.getElem?_eq_some_iff.1 hk).1
  calc k < ((l.insertionSort (· ≥ ·)).take (k + 1)).length := by simp; simpa using hlt
    _ = ((l.insertionSort (· ≥ ·)).take (k + 1)).countP (x ≤ ·) := by
        refine (List.countP_eq_length.2 fun y hy => ?_).symm
        simpa using le_of_mem_take_of_sorted hsorted hk hy
    _ ≤ (l.insertionSort (· ≥ ·)).countP (x ≤ ·) := (List.take_sublist _ _).countP_le
    _ = l.countP (x ≤ ·) := (List.perm_insertionSort _ l).countP_eq _

end Majority

end Library
end ControlDB
