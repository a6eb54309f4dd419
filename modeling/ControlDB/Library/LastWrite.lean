import Mathlib

/-!
# The last item that sets a value

Items are read in order, and an item that stands in a table sets a value.  When one table is a part
of another, `lastSet_eq_iff` says for which lists the two leave the same value.
-/

namespace ControlDB
namespace Library

section LastSet

variable {α β : Type*} (table : α → Option β)

/-- The value that a list of items leaves. -/
def lastSet (init : β) (items : List α) : β :=
  items.foldl (fun value item => (table item).getD value) init

@[simp] theorem lastSet_nil (init : β) : lastSet table init [] = init := rfl

@[simp] theorem lastSet_cons (init : β) (a : α) (items : List α) :
    lastSet table init (a :: items) = lastSet table ((table a).getD init) items := rfl

theorem lastSet_concat (init : β) (items : List α) (a : α) :
    lastSet table init (items ++ [a]) = (table a).getD (lastSet table init items) := by
  simp [lastSet]

theorem lastSet_eq_getLast? (init : β) (items : List α) :
    lastSet table init items = (items.filterMap table).getLast?.getD init := by
  induction items using List.reverseRecOn with
  | nil => rfl
  | append_singleton items a ih =>
      rw [lastSet_concat, ih]
      cases hlast : table a <;> simp [List.filterMap_append, hlast]

/-- A value that was not there before was set by an item. -/
theorem lastSet_cases (init : β) (items : List α) :
    (∀ a ∈ items, table a = none) ∨ ∃ a ∈ items, table a = some (lastSet table init items) := by
  induction items using List.reverseRecOn with
  | nil => exact .inl fun a ha => absurd ha List.not_mem_nil
  | append_singleton items a ih =>
      rw [lastSet_concat]
      cases hlast : table a with
      | some value => exact .inr ⟨a, List.mem_append_right _ (List.mem_singleton_self a), hlast⟩
      | none =>
          rcases ih with hnone | ⟨b, hb, hset⟩
          · refine .inl fun b hb => ?_
            rcases List.mem_append.1 hb with hold | hnew
            · exact hnone b hold
            · exact List.mem_singleton.1 hnew ▸ hlast
          · exact .inr ⟨b, List.mem_append_left _ hb, hset⟩

/-- Items and values may be written in another way. -/
theorem lastSet_map {γ δ : Type*} (table' : γ → Option δ) (f : α → γ) (g : β → δ)
    (htable : ∀ a, table' (f a) = (table a).map g) (init : β) (items : List α) :
    lastSet table' (g init) (items.map f) = g (lastSet table init items) := by
  induction items using List.reverseRecOn with
  | nil => rfl
  | append_singleton items a ih =>
      rw [List.map_append, List.map_singleton, lastSet_concat, lastSet_concat, htable, ih]
      cases table a <;> rfl

variable {table}

theorem lastSet_eq_init {init : β} {items : List α} (h : ∀ a ∈ items, table a = none) :
    lastSet table init items = init := by
  induction items using List.reverseRecOn with
  | nil => rfl
  | append_singleton items a ih =>
      have hlast := h a (List.mem_append_right _ (List.mem_singleton_self a))
      rw [lastSet_concat, hlast]
      exact ih fun b hb => h b (List.mem_append_left _ hb)

end LastSet

/-! ## Two tables -/

section TwoTables

variable {α β : Type*} {small large : α → Option β}

/-- The last item that the large table knows is in the small one too; or the small one knows no
item at all, and the large one leaves the value as it was. -/
def SameDecider (small large : α → Option β) (init : β) (items : List α) : Prop :=
  ∀ a ∈ (items.filter fun a => (large a).isSome).getLast?,
    (small a).isSome = true ∨ (∀ b ∈ items, small b = none) ∧ large a = some init

/-- Every entry of the small table is one of the large table. -/
def PartOf (small large : α → Option β) : Prop :=
  ∀ a value, small a = some value → large a = some value

theorem PartOf.eq_none (hpart : PartOf small large) {a : α} (h : large a = none) :
    small a = none := by
  cases hsmall : small a with
  | none => rfl
  | some value => exact absurd (hpart a value hsmall) (by simp [h])

theorem sameDecider_concat_none (hpart : PartOf small large) {init : β} {items : List α} {a : α}
    (h : large a = none) :
    SameDecider small large init (items ++ [a]) ↔ SameDecider small large init items := by
  have hfilter : (items ++ [a]).filter (fun a => (large a).isSome) =
      items.filter fun a => (large a).isSome := by simp [h]
  have hnone : (∀ b ∈ items ++ [a], small b = none) ↔ ∀ b ∈ items, small b = none := by
    simp [or_imp, forall_and, hpart.eq_none h]
  simp only [SameDecider, hfilter, hnone]

theorem sameDecider_concat_some {init value : β} {items : List α} {a : α} (h : large a = some value) :
    SameDecider small large init (items ++ [a]) ↔
      (small a).isSome = true ∨ (∀ b ∈ items ++ [a], small b = none) ∧ value = init := by
  have hlast : ((items ++ [a]).filter fun a => (large a).isSome).getLast? = some a := by simp [h]
  simp only [SameDecider, hlast, Option.mem_some_iff, forall_eq', h, Option.some.injEq]

/-- The two tables leave the same value exactly when the same item decides, if the large one
gives no value twice. -/
theorem lastSet_eq_iff (hpart : PartOf small large)
    (hinj : ∀ a b value, large a = some value → large b = some value → a = b) (init : β)
    (items : List α) :
    lastSet small init items = lastSet large init items ↔ SameDecider small large init items := by
  induction items using List.reverseRecOn with
  | nil => simp [SameDecider]
  | append_singleton items a ih =>
      rw [lastSet_concat, lastSet_concat]
      cases hlarge : large a with
      | none =>
          rw [sameDecider_concat_none hpart hlarge, hpart.eq_none hlarge]
          exact ih
      | some value =>
          rw [sameDecider_concat_some hlarge]
          cases hsmall : small a with
          | some value' =>
              have hvalue := Option.some.inj ((hpart a value' hsmall).symm.trans hlarge)
              simp [hvalue]
          | none =>
              -- the last item counts for the large table only
              simp only [Option.getD_none, Option.getD_some, Option.isSome_none, Bool.false_eq_true,
                false_or]
              constructor
              · intro heq
                rcases lastSet_cases small init items with hnone | ⟨b, hb, hset⟩
                · refine ⟨fun b hb => ?_, ?_⟩
                  · rcases List.mem_append.1 hb with hold | hnew
                    · exact hnone b hold
                    · exact List.mem_singleton.1 hnew ▸ hsmall
                  · exact heq.symm.trans (lastSet_eq_init hnone)
                -- an item that the small table knows would have set the same value
                · have hlarge' := hpart b value (hset.trans (congrArg some heq))
                  have hsame : b = a := hinj b a value hlarge' hlarge
                  rw [hsame, hsmall] at hset
                  cases hset
              · rintro ⟨hnone, rfl⟩
                exact lastSet_eq_init fun b hb => hnone b (List.mem_append_left _ hb)

end TwoTables

end Library
end ControlDB
