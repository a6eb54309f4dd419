import ControlDB.Library.KeyOrder
import ControlDB.Library.Paging
import ControlDB.Library.SortedMap

/-!
# Scans of an index

An index has a key for every item.  A scan walks the keys from a start on, as long as they have a
prefix, so it comes to the items under that prefix in the order of their keys (`prefixScan_eq`).  If
the first of them are then put in another order, they are the first ones in that order exactly when
none of those left out would come before one of them (`inKeyOrder_take_iff`).
-/

namespace ControlDB
namespace Library

variable {σ K V : Type*} {α : Type} [LinearOrder σ] [LinearOrder K]

/-! ## Items in order -/

section Order

variable {key : α → K} {items : List α}

def inKeyOrder (key : α → K) (items : List α) : List α :=
  items.insertionSort fun a b => key a ≤ key b

theorem inKeyOrder_perm (key : α → K) (items : List α) : (inKeyOrder key items).Perm items :=
  List.perm_insertionSort _ _

@[simp] theorem mem_inKeyOrder {a : α} : a ∈ inKeyOrder key items ↔ a ∈ items :=
  (inKeyOrder_perm key items).mem_iff

theorem inKeyOrder_of_sorted (h : items.Pairwise fun a b => key a < key b) :
    inKeyOrder key items = items :=
  eq_of_perm_of_keys (inKeyOrder_perm key items)
    (insertionSort_ordered (h.imp fun hab => hab.ne)) h

theorem filter_inKeyOrder (h : items.Pairwise fun a b => key a ≠ key b) (p : α → Bool) :
    (inKeyOrder key items).filter p = inKeyOrder key (items.filter p) :=
  eq_of_perm_of_keys (((inKeyOrder_perm key items).filter p).trans (inKeyOrder_perm key _).symm)
    ((insertionSort_ordered h).filter p) (insertionSort_ordered (h.filter p))

/-- Keys that order the items alike give the same list. -/
theorem inKeyOrder_congr {K' : Type*} [LinearOrder K'] {key' : α → K'}
    (h : items.Pairwise fun a b => key a ≠ key b)
    (hsame : ∀ a ∈ items, ∀ b ∈ items, key a < key b → key' a < key' b) :
    inKeyOrder key items = inKeyOrder key' items := by
  have hne : items.Pairwise fun a b => key' a ≠ key' b := by
    refine h.imp_of_mem fun ha hb hab => ?_
    rcases lt_or_gt_of_ne hab with hlt | hgt
    · exact (hsame _ ha _ hb hlt).ne
    · exact (hsame _ hb _ ha hgt).ne'
  have hsorted : (inKeyOrder key items).Pairwise fun a b => key' a < key' b :=
    (insertionSort_ordered h).imp_of_mem fun ha hb hab =>
      hsame _ (mem_inKeyOrder.1 ha) _ (mem_inKeyOrder.1 hb) hab
  exact eq_of_perm_of_keys ((inKeyOrder_perm key items).trans (inKeyOrder_perm key' items).symm)
    hsorted (insertionSort_ordered hne)

/-- The order that items had before does not matter. -/
theorem inKeyOrder_of_perm {items' : List α} (hperm : items.Perm items')
    (h : items.Pairwise fun a b => key a ≠ key b) : inKeyOrder key items = inKeyOrder key items' :=
  eq_of_perm_of_keys
    ((inKeyOrder_perm key items).trans (hperm.trans (inKeyOrder_perm key items').symm))
    (insertionSort_ordered h) (insertionSort_ordered (hperm.pairwise h fun hab => hab.symm))

/-- The first items put in order are the first ones in order, if no later item would come before one
of them. -/
theorem inKeyOrder_take_iff (h : items.Pairwise fun a b => key a ≠ key b) (n : Nat) :
    inKeyOrder key (items.take n) = (inKeyOrder key items).take n ↔
      ∀ a ∈ items.take n, ∀ b ∈ items.drop n, key a < key b := by
  have hsplit : (items.take n ++ items.drop n).Pairwise fun a b => key a ≠ key b := by
    rwa [List.take_append_drop]
  rcases List.pairwise_append.1 hsplit with ⟨hfirst, hrest, hne⟩
  have hsorted := insertionSort_ordered h
  constructor
  · intro heq a ha b hb
    have hafirst : a ∈ (inKeyOrder key items).take n := heq ▸ mem_inKeyOrder.2 ha
    have hb' : b ∈ (inKeyOrder key items).take n ++ (inKeyOrder key items).drop n := by
      rw [List.take_append_drop]
      exact mem_inKeyOrder.2 (List.mem_of_mem_drop hb)
    rcases List.mem_append.1 hb' with hbfirst | hbrest
    · -- an item is not both among the first and among the others
      have hbtake : b ∈ items.take n := mem_inKeyOrder.1 (heq.symm ▸ hbfirst)
      exact absurd rfl (hne b hbtake b hb)
    · have hpair : ((inKeyOrder key items).take n ++ (inKeyOrder key items).drop n).Pairwise
          fun a b => key a < key b := by
        rw [List.take_append_drop]
        exact hsorted
      exact (List.pairwise_append.1 hpair).2.2 a hafirst b hbrest
  · intro hlt
    have hall : inKeyOrder key items =
        inKeyOrder key (items.take n) ++ inKeyOrder key (items.drop n) := by
      have hparts := (inKeyOrder_perm key (items.take n)).append (inKeyOrder_perm key (items.drop n))
      rw [List.take_append_drop] at hparts
      have hordered : (inKeyOrder key (items.take n) ++ inKeyOrder key (items.drop n)).Pairwise
          fun a b => key a < key b := by
        refine List.pairwise_append.2 ⟨insertionSort_ordered hfirst, insertionSort_ordered hrest, ?_⟩
        exact fun a ha b hb => hlt a (mem_inKeyOrder.1 ha) b (mem_inKeyOrder.1 hb)
      exact eq_of_perm_of_keys ((inKeyOrder_perm key items).trans hparts.symm) hsorted hordered
    rcases Nat.le_total n items.length with hle | hge
    · have hlength : (inKeyOrder key (items.take n)).length = n := by
        rw [(inKeyOrder_perm key _).length_eq, List.length_take, Nat.min_eq_left hle]
      rw [hall, List.take_left' hlength]
    · have hlength : (inKeyOrder key items).length ≤ n := by
        rwa [(inKeyOrder_perm key items).length_eq]
      rw [List.take_of_length_le hge, List.take_of_length_le hlength]

end Order

/-- The first items with a property are the first items, if those have it. -/
theorem filter_take_iff {p : α → Bool} {items : List α} (n : Nat) :
    (items.filter p).take n = items.take n ↔ ∀ a ∈ items.take n, p a = true := by
  constructor
  · intro heq a ha
    rw [← heq] at ha
    exact (List.mem_filter.1 (List.mem_of_mem_take ha)).2
  · intro hall
    induction items generalizing n with
    | nil => simp
    | cons a items ih =>
        cases n with
        | zero => simp
        | succ n =>
            rw [List.take_succ_cons] at hall ⊢
            rw [List.filter_cons_of_pos (hall a List.mem_cons_self), List.take_succ_cons,
              ih n fun b hb => hall b (List.mem_cons_of_mem a hb)]

/-! ## The walk -/

section Scan

variable {m : SortedMap (List σ) V} {start p : List σ}

/-- The keys from `start` on, up to the first without the prefix. -/
def prefixScan (m : SortedMap (List σ) V) (start p : List σ) : List (List σ) :=
  ((m.seek start).map Prod.fst).takeWhile fun k => decide (p <+: k)

/-- All keys with the prefix that are not before the start are read. -/
theorem mem_prefixScan (hp : p <+: start) {k : List σ} :
    k ∈ prefixScan m start p ↔ (m.get k).isSome ∧ ¬ k < start ∧ p <+: k := by
  unfold prefixScan
  rw [mem_takeWhile_iff (List.pairwise_map.2 (m.seek_sorted start))]
  simp only [SortedMap.mem_keys_seek_iff, decide_eq_true_eq]
  constructor
  · rintro ⟨⟨hkey, hstart⟩, hpre, _⟩
    exact ⟨hkey, hstart, hpre⟩
  · rintro ⟨hkey, hstart, hpre⟩
    refine ⟨⟨hkey, hstart⟩, hpre, fun k' hk' hlt => ?_⟩
    -- between the prefix and a key that has it all keys have it
    rcases hp with ⟨t, rfl⟩
    rcases hpre with ⟨u, rfl⟩
    refine isPrefix_of_between (fun hbefore => hk'.2 ?_) hlt.asymm
    exact lt_of_lt_of_le hbefore (not_lt.1 (not_append_lt p t))

/-- A scan comes to the items under its prefix in the order of their keys. -/
theorem prefixScan_eq {key : α → List σ} {items : List α}
    (hdistinct : items.Pairwise fun a b => key a ≠ key b)
    (hindex : ∀ k, (m.get k).isSome ↔ ∃ a ∈ items, key a = k) (hp : p <+: start) :
    prefixScan m start p = (inKeyOrder key (items.filter fun a =>
      decide (¬ key a < start ∧ p <+: key a))).map key := by
  have hscan : (prefixScan m start p).Pairwise (· < ·) :=
    (List.pairwise_map.2 (m.seek_sorted start)).sublist (List.takeWhile_sublist _)
  have hitems : ((inKeyOrder key (items.filter fun a =>
      decide (¬ key a < start ∧ p <+: key a))).map key).Pairwise (· < ·) :=
    List.pairwise_map.2 (insertionSort_ordered (hdistinct.filter _))
  refine hscan.eq_of_mem_iff hitems fun k => ?_
  rw [mem_prefixScan hp, hindex]
  simp only [List.mem_map, mem_inKeyOrder, List.mem_filter, decide_eq_true_eq]
  constructor
  · rintro ⟨⟨a, ha, rfl⟩, hstart, hpre⟩
    exact ⟨a, ⟨ha, hstart, hpre⟩, rfl⟩
  · rintro ⟨a, ⟨ha, hstart, hpre⟩, rfl⟩
    exact ⟨⟨a, ha, rfl⟩, hstart, hpre⟩

end Scan

end Library
end ControlDB
