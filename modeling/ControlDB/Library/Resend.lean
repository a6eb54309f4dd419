import Mathlib

/-!
# Sending again until it is acknowledged

A sender keeps what has not been acknowledged and sends all of it, as often as it likes.  A batch on
the wire may be lost, come late, or come more than once; the receiver stores a message whose key it has
not stored before.  In every run what is stored is a beginning of what was emitted, in order and
without repetition, and what was acknowledged is stored.
-/

namespace ControlDB
namespace Library

/-- What was emitted, how much of it was acknowledged, the batches on the wire, what the receiver has
stored, and the batches it has answered. -/
structure Channel (α : Type) where
  emitted : List α := []
  acked : Nat := 0
  sent : List (List α) := []
  stored : List α := []
  answered : List (List α) := []

section Store

variable {α κ : Type} [DecidableEq κ] (key : α → κ)

/-- The receiver goes through a batch and stores what is new. -/
def storeNew : List α → List α → List α
  | stored, [] => stored
  | stored, x :: rest =>
      storeNew (if key x ∈ stored.map key then stored else stored ++ [x]) rest

theorem storeNew_append (stored xs ys : List α) :
    storeNew key stored (xs ++ ys) = storeNew key (storeNew key stored xs) ys := by
  induction xs generalizing stored with
  | nil => rfl
  | cons x rest ih => exact ih _

/-- A batch that is stored already changes nothing. -/
theorem storeNew_of_subset {stored batch : List α} (h : batch ⊆ stored) :
    storeNew key stored batch = stored := by
  induction batch with
  | nil => rfl
  | cons x rest ih =>
      rcases List.cons_subset.1 h with ⟨hx, hrest⟩
      rw [storeNew, if_pos (List.mem_map_of_mem hx)]
      exact ih hrest

/-- A batch of new messages is stored as it is. -/
theorem storeNew_of_nodup {stored batch : List α} (h : ((stored ++ batch).map key).Nodup) :
    storeNew key stored batch = stored ++ batch := by
  induction batch generalizing stored with
  | nil => rw [storeNew, List.append_nil]
  | cons x rest ih =>
      have hnew : key x ∉ stored.map key := by
        rw [List.map_append, List.nodup_append] at h
        exact fun hmem => h.2.2 _ hmem _ (List.mem_map_of_mem List.mem_cons_self) rfl
      rw [storeNew, if_neg hnew, ih (by simpa using h), List.append_assoc, List.singleton_append]

theorem storeNew_extends (stored batch : List α) : stored <+: storeNew key stored batch := by
  induction batch generalizing stored with
  | nil => exact List.prefix_rfl
  | cons x rest ih =>
      refine List.IsPrefix.trans ?_ (ih _)
      split
      · exact List.prefix_rfl
      · exact List.prefix_append stored [x]

omit [DecidableEq κ] in
/-- A batch that starts among the stored messages and ends behind them is what the receiver has, and
then what it lacks. -/
theorem window_eq_append (emitted : List α) {n a b : Nat} (ha : a ≤ n) (hn : n ≤ emitted.length)
    (hb : n ≤ b) :
    emitted.take n ++ (emitted.take b).drop n = emitted.take b ∧
      (emitted.take b).drop a = (emitted.take n).drop a ++ (emitted.take b).drop n := by
  have hall : emitted.take n ++ (emitted.take b).drop n = emitted.take b := by
    have hsplit := List.take_append_drop n (emitted.take b)
    rwa [List.take_take, min_eq_left hb] at hsplit
  refine ⟨hall, ?_⟩
  have hlength : a ≤ (emitted.take n).length := by
    rw [List.length_take]
    omega
  rw [← List.drop_append_of_le_length hlength, hall]

/-- A batch that starts among the stored messages brings the store up to its own end. -/
theorem storeNew_window {emitted : List α} (h : (emitted.map key).Nodup) {n a b : Nat} (ha : a ≤ n)
    (hn : n ≤ emitted.length) :
    storeNew key (emitted.take n) ((emitted.take b).drop a) = emitted.take (max n b) := by
  rcases le_total b n with hb | hb
  · rw [max_eq_left hb]
    refine storeNew_of_subset key fun x hx => ?_
    exact List.take_subset_take_left _ hb (List.mem_of_mem_drop hx)
  · rcases window_eq_append emitted ha hn hb with ⟨hall, hbatch⟩
    rw [max_eq_right hb, hbatch, storeNew_append,
      storeNew_of_subset key (List.drop_subset a (emitted.take n)), storeNew_of_nodup, hall]
    rw [hall]
    exact h.sublist ((List.take_sublist b emitted).map key)

end Store

namespace Channel

variable {α κ : Type} {key : α → κ}

/-- What the sender keeps. -/
def waiting (c : Channel α) : List α :=
  c.emitted.drop c.acked

/-- What is stored is between what was acknowledged and what was emitted, and a batch starts at what
was acknowledged when it was sent. -/
structure Lawful (key : α → κ) (c : Channel α) : Prop where
  distinct : (c.emitted.map key).Nodup
  stored : ∃ n, c.acked ≤ n ∧ n ≤ c.emitted.length ∧ c.stored = c.emitted.take n
  sent : ∀ batch ∈ c.sent, ∃ a b, a ≤ c.acked ∧ b ≤ c.emitted.length ∧
    batch = (c.emitted.take b).drop a
  answered : ∀ batch ∈ c.answered, batch ⊆ c.stored

theorem lawful_init : Lawful key ({} : Channel α) where
  distinct := List.nodup_nil
  stored := ⟨0, le_rfl, le_rfl, rfl⟩
  sent _ h := absurd h List.not_mem_nil
  answered _ h := absurd h List.not_mem_nil

theorem Lawful.acked_le {c : Channel α} (h : Lawful key c) : c.acked ≤ c.emitted.length := by
  rcases h.stored with ⟨n, hacked, hn, _⟩
  exact hacked.trans hn

/-- Where all that the sender keeps is stored, everything is. -/
theorem Lawful.stored_eq_of_waiting {c : Channel α} (h : Lawful key c)
    (hwaiting : c.waiting ⊆ c.stored) : c.stored = c.emitted := by
  rcases h.stored with ⟨n, hacked, hn, hstored⟩
  rcases hn.lt_or_eq with hlt | heq
  · -- the first message that is not stored is kept, so it would be stored twice
    have hnodup : c.emitted.Nodup := List.Nodup.of_map key h.distinct
    have hkept : c.emitted[n] ∈ c.waiting :=
      List.mem_drop_iff_getElem.2 ⟨n - c.acked, by omega, by congr 1; omega⟩
    have hmem := hwaiting hkept
    rw [hstored] at hmem
    rcases List.mem_take_iff_getElem.1 hmem with ⟨i, hi, hget⟩
    have hsame := (List.Nodup.getElem_inj_iff hnodup).1 hget
    omega
  · rw [hstored, heq, List.take_length]

variable [DecidableEq κ]

/-- Losing a batch is no step: nothing has to come of one that was sent. -/
inductive Step (key : α → κ) : Channel α → Channel α → Prop
  | emit {c : Channel α} {x : α} (hnew : key x ∉ c.emitted.map key) :
      Step key c { c with emitted := c.emitted ++ [x] }
  | send {c : Channel α} : Step key c { c with sent := c.waiting :: c.sent }
  | receive {c : Channel α} {batch : List α} (hsent : batch ∈ c.sent) :
      Step key c
        { c with
          stored := storeNew key c.stored batch
          answered := batch :: c.answered }
  | acknowledge {c : Channel α} (hanswered : c.waiting ∈ c.answered) :
      Step key c { c with acked := c.emitted.length }

theorem Lawful.step {c c' : Channel α} (h : Lawful key c) (hstep : Step key c c') :
    Lawful key c' := by
  rcases h.stored with ⟨n, hacked, hn, hstored⟩
  cases hstep with
  | @emit x hnew =>
      refine ⟨?_, ⟨n, hacked, ?_, ?_⟩, fun batch hbatch => ?_, h.answered⟩
      · rw [List.map_append, List.nodup_append]
        refine ⟨h.distinct, List.nodup_singleton _, fun k hk k' hk' heq => hnew ?_⟩
        rw [List.map_singleton, List.mem_singleton] at hk'
        exact hk' ▸ heq ▸ hk
      · rw [List.length_append]
        omega
      · rw [List.take_append_of_le_length hn]
        exact hstored
      · rcases h.sent batch hbatch with ⟨a, b, ha, hb, rfl⟩
        refine ⟨a, b, ha, ?_, ?_⟩
        · rw [List.length_append]
          omega
        · rw [List.take_append_of_le_length hb]
  | send =>
      refine ⟨h.distinct, h.stored, fun batch hbatch => ?_, h.answered⟩
      rcases List.mem_cons.1 hbatch with rfl | hold
      · exact ⟨c.acked, c.emitted.length, le_rfl, le_rfl, by rw [List.take_length, waiting]⟩
      · exact h.sent batch hold
  | @receive batch hsent =>
      -- a batch is a window of what was emitted, and what is stored reaches to where it begins
      rcases h.sent batch hsent with ⟨a, b, ha, hb, rfl⟩
      have hwindow := storeNew_window key h.distinct (b := b) (ha.trans hacked) hn
      rw [← hstored] at hwindow
      refine ⟨h.distinct, ⟨max n b, hacked.trans (le_max_left n b), max_le hn hb, hwindow⟩, h.sent,
        fun batch' hbatch => ?_⟩
      rcases List.mem_cons.1 hbatch with rfl | hold
      · rw [hwindow]
        exact fun x hx =>
          List.take_subset_take_left _ (le_max_right n b) (List.mem_of_mem_drop hx)
      · exact List.Subset.trans (h.answered batch' hold) (storeNew_extends key _ _).subset
  | acknowledge hanswered =>
      -- what waited is stored by now, and with what was acknowledged before that is everything
      have hall := h.stored_eq_of_waiting (h.answered _ hanswered)
      refine ⟨h.distinct, ⟨c.emitted.length, le_rfl, le_rfl, ?_⟩, fun batch hbatch => ?_, h.answered⟩
      · rw [List.take_length]
        exact hall
      · rcases h.sent batch hbatch with ⟨a, b, ha, hb, rfl⟩
        exact ⟨a, b, ha.trans h.acked_le, hb, rfl⟩

theorem lawful_of_run {c : Channel α} (h : Relation.ReflTransGen (Step key) {} c) :
    Lawful key c := by
  induction h with
  | refl => exact lawful_init
  | tail _ hstep ih => exact ih.step hstep

end Channel

end Library
end ControlDB
