import Mathlib

/-!
# Runs of a step function

States reached by the allowed steps of a system, the induction rules for them, and an evaluator that
finds such states.  The last section is about total steps: from what a condition says of one step,
exactly, it follows what it says of a run.
-/

namespace ControlDB
namespace Library

section Reach

variable {σ α τ : Type} (step : σ → α → Option σ) (ok : σ → α → Prop) (init : σ)

/-- Reached from `init` by steps that are all allowed. -/
inductive Reach : σ → Prop
  | init : Reach init
  | step {s s' : σ} {a : α} : Reach s → ok s a → step s a = some s' → Reach s'

variable {step ok init}

/-- What holds at first and is kept by every allowed step holds in all states reached. -/
theorem Reach.invariant {P : σ → Prop} (hinit : P init)
    (hstep : ∀ {s s' a}, Reach step ok init s → P s → ok s a → step s a = some s' → P s')
    {s : σ} (h : Reach step ok init s) : P s := by
  induction h with
  | init => exact hinit
  | step hs hok hnext ih => exact hstep hs ih hok hnext

theorem Reach.mono {ok' : σ → α → Prop} (hok : ∀ {s a}, ok s a → ok' s a) {s : σ}
    (h : Reach step ok init s) : Reach step ok' init s := by
  induction h with
  | init => exact .init
  | step _ ha hnext ih => exact .step ih (hok ha) hnext

theorem Reach.trans {s s' : σ} (h : Reach step ok init s) (h' : Reach step ok s s') :
    Reach step ok init s' := by
  induction h' with
  | init => exact h
  | step _ hok hnext ih => exact ih.step hok hnext

/-- A relation that follows every allowed step with steps of a second system relates all states
reached to states that system reaches. -/
theorem Reach.simulated {next : τ → τ → Prop} {start : τ} {R : σ → τ → Prop} (hinit : R init start)
    (hstep : ∀ {s s' a t}, Reach step ok init s → Relation.ReflTransGen next start t → R s t →
      ok s a → step s a = some s' → ∃ t', Relation.ReflTransGen next t t' ∧ R s' t')
    {s : σ} (h : Reach step ok init s) :
    ∃ t, Relation.ReflTransGen next start t ∧ R s t := by
  induction h with
  | init => exact ⟨start, .refl, hinit⟩
  | step hs hok hnext ih =>
      rcases ih with ⟨t, ht, hR⟩
      rcases hstep hs ht hR hok hnext with ⟨t', hmore, hR'⟩
      exact ⟨t', ht.trans hmore, hR'⟩

end Reach

section Run

variable {σ α : Type} (step : σ → α → Option σ) (ok : σ → α → Prop)
  [∀ s a, Decidable (ok s a)]

/-- The state after a list of steps, if each is possible and allowed. -/
def run : σ → List α → Option σ
  | s, [] => some s
  | s, a :: rest => if ok s a then (step s a).bind fun s' => run s' rest else none

variable {step ok}

theorem Reach.run {init s s' : σ} (h : Reach step ok init s) {actions : List α}
    (hrun : run step ok s actions = some s') : Reach step ok init s' := by
  induction actions generalizing s with
  | nil =>
      cases hrun
      exact h
  | cons a rest ih =>
      by_cases hok : ok s a
      · simp only [Library.run, if_pos hok, Option.bind_eq_some_iff] at hrun
        rcases hrun with ⟨s₁, hnext, hrest⟩
        exact ih (h.step hok hnext) hrest
      · simp [Library.run, hok] at hrun

theorem reach_of_run {init s : σ} {actions : List α} (h : run step ok init actions = some s) :
    Reach step ok init s :=
  Reach.run .init h

end Run

/-! ## Exact conditions -/

section Exact

variable {σ α : Type*} (step : σ → α → σ) (P : σ → Prop) (Q ok : σ → α → Prop)

/-- `P` holds in every state of the run from `s`, and `Q` of every step. -/
def Throughout : σ → List α → Prop
  | s, [] => P s
  | s, a :: rest => P s ∧ Q s a ∧ Throughout (step s a) rest

/-- Every step of the run from `s` meets the condition in the state before it. -/
def Meets : σ → List α → Prop
  | _, [] => True
  | s, a :: rest => ok s a ∧ Meets (step s a) rest

variable {step P Q ok}

theorem Throughout.start {s : σ} {actions : List α} (h : Throughout step P Q s actions) : P s := by
  cases actions with
  | nil => exact h
  | cons a rest => exact h.1

theorem Throughout.final {s : σ} {actions : List α} (h : Throughout step P Q s actions) :
    P (actions.foldl step s) := by
  induction actions generalizing s with
  | nil => exact h
  | cons a rest ih => exact ih h.2.2

/-- An invariant that is kept by every step that meets the condition holds at the end. -/
theorem Meets.final {I : σ → Prop} (hkeep : ∀ {s a}, I s → ok s a → I (step s a)) {s : σ}
    (hI : I s) {actions : List α} (h : Meets step ok s actions) : I (actions.foldl step s) := by
  induction actions generalizing s with
  | nil => exact hI
  | cons a rest ih => exact ih (hkeep hI h.1) h.2

/-- What such an invariant says of a state and of a step holds throughout. -/
theorem Meets.throughout {I : σ → Prop} (hstate : ∀ {s}, I s → P s)
    (hkeep : ∀ {s a}, I s → ok s a → Q s a ∧ I (step s a)) {s : σ} (hI : I s) {actions : List α}
    (h : Meets step ok s actions) : Throughout step P Q s actions := by
  induction actions generalizing s with
  | nil => exact hstate hI
  | cons a rest ih =>
      rcases hkeep hI h.1 with ⟨hQ, hnext⟩
      exact ⟨hstate hI, hQ, ih hnext h.2⟩

/-- Where the condition says of every step, from a state in which `P` and the invariant hold,
whether the step is as it should be, it says so of whole runs. -/
theorem throughout_iff_meets {I : σ → Prop} (hkeep : ∀ {s a}, I s → I (step s a))
    (hstep : ∀ {s a}, I s → P s → (Q s a ∧ P (step s a) ↔ ok s a)) {s : σ} (hI : I s) (hP : P s)
    (actions : List α) : Throughout step P Q s actions ↔ Meets step ok s actions := by
  induction actions generalizing s with
  | nil => simp [Throughout, Meets, hP]
  | cons a rest ih =>
      simp only [Throughout, Meets]
      constructor
      · rintro ⟨_, hQ, hrest⟩
        have hok := (hstep hI hP).1 ⟨hQ, hrest.start⟩
        exact ⟨hok, (ih (hkeep hI) hrest.start).1 hrest⟩
      · rintro ⟨hok, hrest⟩
        rcases (hstep hI hP).2 hok with ⟨hQ, hnext⟩
        exact ⟨hP, hQ, (ih (hkeep hI) hnext).2 hrest⟩

end Exact

/-! ## As far as a run goes -/

section Along

variable {σ α : Type*} (step : σ → α → Option σ)

/-- Every step of the run from `s` is as the relation says; the run ends where no step is possible. -/
def Along (Q : σ → α → σ → Prop) : σ → List α → Prop
  | _, [] => True
  | s, a :: rest => ∀ s', step s a = some s' → Q s a s' ∧ Along Q s' rest

variable {step} {Q : σ → α → σ → Prop}

/-- What is said of a run is said of the rest of it. -/
theorem Along.after {s s' : σ} {before rest : List α} (h : Along step Q s (before ++ rest))
    (hrun : before.foldlM step s = some s') : Along step Q s' rest := by
  induction before generalizing s with
  | nil =>
      cases hrun
      exact h
  | cons a before ih =>
      rw [List.foldlM_cons] at hrun
      rcases Option.bind_eq_some_iff.1 hrun with ⟨s₁, hnext, hmore⟩
      exact ih (h s₁ hnext).2 hmore

/-- A run that was evaluated under a condition meets it. -/
theorem along_of_run {σ α : Type} {step : σ → α → Option σ} {ok : σ → α → Prop}
    [∀ s a, Decidable (ok s a)] {s s' : σ} {actions : List α}
    (h : run step ok s actions = some s') : Along step (fun s a _ => ok s a) s actions := by
  induction actions generalizing s with
  | nil => trivial
  | cons a rest ih =>
      intro s₁ hnext
      by_cases hok : ok s a
      · simp only [run, if_pos hok, hnext, Option.bind_some] at h
        exact ⟨hok, ih h⟩
      · simp [run, hok] at h

/-- Where a condition says of every step, from a state in which an invariant holds, whether the step
is as it should be, and keeps the invariant, it says so of whole runs. -/
theorem along_iff {I : σ → Prop} {ok : σ → α → Prop} {A : α → Prop}
    (hkeep : ∀ {s a s'}, I s → A a → ok s a → step s a = some s' → I s')
    (hstep : ∀ {s a s'}, I s → A a → step s a = some s' → (Q s a s' ↔ ok s a))
    {s : σ} (hI : I s) {actions : List α} (hallowed : ∀ a ∈ actions, A a) :
    Along step Q s actions ↔ Along step (fun s a _ => ok s a) s actions := by
  induction actions generalizing s with
  | nil => exact Iff.rfl
  | cons a rest ih =>
      have hfirst := hallowed a List.mem_cons_self
      have hrest : ∀ b ∈ rest, A b := fun b hb => hallowed b (List.mem_cons_of_mem a hb)
      refine forall_congr' fun s' => forall_congr' fun hnext => ?_
      rw [hstep hI hfirst hnext]
      exact and_congr_right fun hok => ih (hkeep hI hfirst hok hnext) hrest

end Along

end Library
end ControlDB
