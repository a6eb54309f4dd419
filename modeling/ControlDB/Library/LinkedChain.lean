import Mathlib

/-!
# Chains of hash-linked entries

Entries that carry a hash of their own and the hash of the entry before them.  `Linked h l` says
that `l` continues a chain whose last hash is `h`, and `lastLink h l` is the last hash afterwards.

A chain with distinct hashes cannot lose an entry that another one follows: what is left of it and
still linked is a beginning of it.  Where a hash binds its entry, the last hash binds the chain.
-/

namespace ControlDB
namespace Library

variable {ε η : Type*} (prev : ε → Option η) (hash : ε → η)

def Linked : Option η → List ε → Prop
  | _, [] => True
  | h, e :: rest => prev e = h ∧ Linked (some (hash e)) rest

def lastLink : Option η → List ε → Option η
  | h, [] => h
  | _, e :: rest => lastLink (some (hash e)) rest

variable {prev hash}

@[simp] theorem linked_nil (h : Option η) : Linked prev hash h [] := trivial

@[simp] theorem linked_cons {h : Option η} {e : ε} {l : List ε} :
    Linked prev hash h (e :: l) ↔ prev e = h ∧ Linked prev hash (some (hash e)) l := Iff.rfl

@[simp] theorem lastLink_nil (h : Option η) : lastLink hash h [] = h := rfl

@[simp] theorem lastLink_cons (h : Option η) (e : ε) (l : List ε) :
    lastLink hash h (e :: l) = lastLink hash (some (hash e)) l := rfl

theorem linked_append {h : Option η} {l m : List ε} :
    Linked prev hash h (l ++ m) ↔ Linked prev hash h l ∧ Linked prev hash (lastLink hash h l) m := by
  induction l generalizing h with
  | nil => simp
  | cons e l ih => simp [ih, and_assoc]

theorem lastLink_append (h : Option η) (l m : List ε) :
    lastLink hash h (l ++ m) = lastLink hash (lastLink hash h l) m := by
  induction l generalizing h with
  | nil => rfl
  | cons e l ih => exact ih (some (hash e))

theorem lastLink_eq_getLast? (h : Option η) (l : List ε) :
    lastLink hash h l = (l.getLast?.map hash).or h := by
  induction l generalizing h with
  | nil => simp
  | cons e l ih =>
      rw [lastLink_cons, ih]
      cases hlast : l.getLast? with
      | none => simp [List.getLast?_cons, hlast]
      | some last => simp [List.getLast?_cons, hlast]

/-- Going through the end of a chain once more leads to the same hash. -/
theorem lastLink_again (h : Option η) (l m : List ε) :
    lastLink hash (lastLink hash h (l ++ m)) m = lastLink hash h (l ++ m) := by
  rcases List.eq_nil_or_concat m with rfl | ⟨m', e, rfl⟩
  · rfl
  · rw [List.concat_eq_append, ← List.append_assoc, lastLink_append _ m', lastLink_append _ (l ++ m')]
    rfl

/-- A chain only depends on the links of its entries. -/
theorem linked_congr {h : Option η} {l m : List ε}
    (hsame : List.Forall₂ (fun a b => prev a = prev b ∧ hash a = hash b) l m) :
    Linked prev hash h l ↔ Linked prev hash h m := by
  induction hsame generalizing h with
  | nil => exact Iff.rfl
  | cons hentry _ ih =>
      rw [linked_cons, linked_cons, hentry.1, hentry.2, ih]

/-- Behind the first one, every entry of a chain points to an entry of it. -/
theorem Linked.prev_mem {h : Option η} {a : ε} {l : List ε} (hl : Linked prev hash h (a :: l)) {b : ε}
    (hb : b ∈ l) : ∃ c ∈ a :: l, prev b = some (hash c) := by
  induction l generalizing h a with
  | nil => simp at hb
  | cons d l ih =>
      rcases List.mem_cons.1 hb with rfl | htail
      · exact ⟨a, List.mem_cons_self, hl.2.1⟩
      · rcases ih hl.2 htail with ⟨c, hc, hprev⟩
        exact ⟨c, List.mem_cons_of_mem a hc, hprev⟩

/-- What survives of a chain and is still linked from the same start is a beginning of it. -/
theorem Linked.isPrefix_of_sublist {h : Option η} {l m : List ε} (hl : Linked prev hash h l)
    (hnodup : (l.map hash).Nodup) (hstart : ∀ e ∈ l, h ≠ some (hash e)) (hsub : m.Sublist l)
    (hm : Linked prev hash h m) : m <+: l := by
  induction hsub generalizing h with
  | slnil => exact List.nil_prefix
  | @cons m l a hsub _ =>
      -- `a` was lost, and nothing behind it points to the start
      cases m with
      | nil => exact List.nil_prefix
      | cons b m =>
          rcases hl.prev_mem (hsub.subset List.mem_cons_self) with ⟨c, hc, hprev⟩
          exact (hstart c hc (hm.1.symm.trans hprev)).elim
  | @cons_cons m l a hsub ih =>
      rcases List.nodup_cons.1 hnodup with ⟨hnew, hnodup'⟩
      have hstart' : ∀ e ∈ l, some (hash a) ≠ some (hash e) := by
        intro e he heq
        exact hnew (Option.some.inj heq ▸ List.mem_map_of_mem he)
      exact (List.prefix_cons_inj a).2 (ih hl.2 hnodup' hstart' hm.2)

/-- If entries with the same hash are alike and point to the same one, the last hash of a chain binds
all of it. -/
theorem Linked.forall₂_of_lastLink {R : ε → ε → Prop} {l m : List ε} (hl : Linked prev hash none l)
    (hm : Linked prev hash none m) (hlast : lastLink hash none l = lastLink hash none m)
    (hbind : ∀ a ∈ l, ∀ b ∈ m, hash a = hash b → R a b ∧ prev a = prev b) :
    List.Forall₂ R l m := by
  -- from the last entry to the first one
  induction l using List.reverseRecOn generalizing m with
  | nil =>
      rcases List.eq_nil_or_concat' m with rfl | ⟨m, b, rfl⟩
      · exact .nil
      · simp [lastLink_append] at hlast
  | append_singleton l a ih =>
      rcases List.eq_nil_or_concat' m with rfl | ⟨m, b, rfl⟩
      · simp [lastLink_append] at hlast
      · rw [lastLink_append, lastLink_append] at hlast
        rcases linked_append.1 hl with ⟨hl, hla⟩
        rcases linked_append.1 hm with ⟨hm, hmb⟩
        rcases hbind a (by simp) b (by simp) (Option.some.inj hlast) with ⟨hab, hprev⟩
        have hrest : lastLink hash none l = lastLink hash none m :=
          hla.1.symm.trans (hprev.trans hmb.1)
        have hsame := ih hl hm hrest fun c hc e he =>
          hbind c (List.mem_append_left _ hc) e (List.mem_append_left _ he)
        exact List.rel_append hsame (.cons hab .nil)

end Library
end ControlDB
