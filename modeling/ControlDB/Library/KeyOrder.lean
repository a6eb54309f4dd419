import Mathlib

/-!
# Keys that start alike

Lexicographic order on keys: the continuations of a text follow it without a gap, and among them
the continuations decide.
-/

namespace ControlDB
namespace Library

variable {σ : Type*} [LinearOrder σ]

theorem append_lt_append_iff (p : List σ) {a b : List σ} : p ++ a < p ++ b ↔ a < b := by
  induction p with
  | nil => rfl
  | cons d p ih => simp [ih]

/-- Texts with beginnings of one length are compared by these first. -/
theorem append_lt_append_of_length {a b x y : List σ} (h : a.length = b.length) :
    a ++ x < b ++ y ↔ a < b ∨ a = b ∧ x < y := by
  induction a generalizing b with
  | nil =>
      rcases List.length_eq_zero_iff.1 h.symm with rfl
      simp
  | cons d a ih =>
      cases b with
      | nil => simp at h
      | cons e b =>
          have htail : a.length = b.length := Nat.succ.inj h
          rw [List.cons_append, List.cons_append, List.cons_lt_cons_iff, List.cons_lt_cons_iff,
            ih htail, List.cons.injEq]
          tauto

theorem not_append_lt (p a : List σ) : ¬ p ++ a < p := by
  induction p with
  | nil => simp
  | cons d p ih => simpa using ih

/-- Between a text and one of its continuations there are only continuations. -/
theorem isPrefix_of_between {p k a : List σ} (hlow : ¬ k < p) (hhigh : ¬ p ++ a < k) : p <+: k := by
  induction p generalizing k with
  | nil => exact List.nil_prefix
  | cons d p ih =>
      cases k with
      | nil => exact absurd (List.nil_lt_cons d p) hlow
      | cons e k =>
          rw [List.cons_lt_cons_iff, not_or, not_and] at hlow
          rw [List.cons_append, List.cons_lt_cons_iff, not_or, not_and] at hhigh
          have hde : d = e := le_antisymm (not_lt.1 hlow.1) (not_lt.1 hhigh.1)
          subst hde
          exact List.cons_prefix_cons.2 ⟨rfl, ih (hlow.2 rfl) (hhigh.2 rfl)⟩

/-! ## Walking an ordered list -/

/-- A walk reaches what satisfies its condition, if all that comes before does. -/
theorem mem_takeWhile_iff {l : List σ} (hl : l.Pairwise (· < ·)) {P : σ → Bool} {k : σ} :
    k ∈ l.takeWhile P ↔ k ∈ l ∧ P k = true ∧ ∀ k' ∈ l, k' < k → P k' = true := by
  induction l with
  | nil => simp
  | cons d l ih =>
      rcases List.pairwise_cons.1 hl with ⟨hd, hl'⟩
      -- the first key is before all others, so it decides whether anything is taken
      by_cases hP : P d = true
      · rw [List.takeWhile_cons_of_pos hP, List.mem_cons, ih hl']
        constructor
        · rintro (rfl | ⟨hmem, hk, hbefore⟩)
          · refine ⟨List.mem_cons_self, hP, fun k' hk' hlt => ?_⟩
            rcases List.mem_cons.1 hk' with rfl | htail
            · exact hP
            · exact absurd hlt (hd k' htail).asymm
          · refine ⟨List.mem_cons_of_mem _ hmem, hk, fun k' hk' hlt => ?_⟩
            rcases List.mem_cons.1 hk' with rfl | htail
            · exact hP
            · exact hbefore k' htail hlt
        · rintro ⟨hmem, hk, hbefore⟩
          rcases List.mem_cons.1 hmem with rfl | htail
          · exact .inl rfl
          · exact .inr ⟨htail, hk, fun k' hk' => hbefore k' (List.mem_cons_of_mem _ hk')⟩
      · rw [List.takeWhile_cons_of_neg hP]
        refine ⟨fun hmem => absurd hmem List.not_mem_nil, ?_⟩
        rintro ⟨hmem, hk, hbefore⟩
        rcases List.mem_cons.1 hmem with rfl | htail
        · exact absurd hk hP
        · exact absurd (hbefore d List.mem_cons_self (hd k htail)) hP

/-- What comes before one of the first `n` is one of them. -/
theorem mem_take_of_lt {l : List σ} (hl : l.Pairwise (· < ·)) {n : Nat} {k k' : σ}
    (hk : k ∈ l.take n) (hk' : k' ∈ l) (hlt : k' < k) : k' ∈ l.take n := by
  rw [← List.take_append_drop n l] at hl hk'
  rcases List.mem_append.1 hk' with hfirst | hrest
  · exact hfirst
  · exact absurd hlt ((List.pairwise_append.1 hl).2.2 k hk k' hrest).asymm

/-- An ordered selection that nothing left out comes before is an initial part. -/
theorem isPrefix_of_initial {l m : List σ} (hl : l.Pairwise (· < ·)) (hm : m.Pairwise (· < ·))
    (hsub : ∀ k ∈ m, k ∈ l) (hrest : ∀ k ∈ l, k ∉ m → ∀ k' ∈ m, k' < k) : m <+: l := by
  induction m generalizing l with
  | nil => exact List.nil_prefix
  | cons a m ih =>
      rcases List.pairwise_cons.1 hm with ⟨ha, hm'⟩
      cases l with
      | nil => exact absurd (hsub a List.mem_cons_self) List.not_mem_nil
      | cons b l =>
          rcases List.pairwise_cons.1 hl with ⟨hb, hl'⟩
          -- a first key left out of `m` would be before one that is in it
          have hab : a = b := by
            by_contra hne
            have hal : a ∈ l := (List.mem_cons.1 (hsub a List.mem_cons_self)).resolve_left hne
            have hlt : b < a := hb a hal
            have hbm : b ∉ a :: m := by
              intro hmem
              rcases List.mem_cons.1 hmem with rfl | htail
              · exact hne rfl
              · exact (ha b htail).asymm hlt
            exact (hrest b List.mem_cons_self hbm a List.mem_cons_self).asymm hlt
          subst hab
          refine List.cons_prefix_cons.2 ⟨rfl, ih hl' hm' (fun k hk => ?_) fun k hk hout k' hk' => ?_⟩
          · exact (List.mem_cons.1 (hsub k (List.mem_cons_of_mem _ hk))).resolve_left (ha k hk).ne'
          · refine hrest k (List.mem_cons_of_mem _ hk) ?_ k' (List.mem_cons_of_mem _ hk')
            intro hmem
            rcases List.mem_cons.1 hmem with rfl | htail
            · exact lt_irrefl _ (hb k hk)
            · exact hout htail

end Library
end ControlDB
