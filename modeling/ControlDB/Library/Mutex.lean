import Mathlib

/-!
# Threads with one mutex

Threads over shared data and one mutex that is not recursive: a thread that locks it while it holds
it waits for ever.  A thread may start others and wait for their end.  `Trapped` is the state of a
thread that holds the mutex and will lock it again before it unlocks it; it is never left.
-/

namespace ControlDB
namespace Library
namespace Mutex

open Function (update)

/-- An instruction of a thread. -/
inductive Instr (ι σ : Type)
  | lock
  | unlock
  /-- Wait for the end of a thread. -/
  | join (t : ι)
  | spawn (t : ι) (code : List (Instr ι σ))
  /-- Change the data, and go on with what it says. -/
  | run (f : σ → σ × List (Instr ι σ))

/-- A thread without code has ended, or has not been started. -/
structure State (ι σ : Type) where
  owner : Option ι := none
  code : ι → List (Instr ι σ)
  data : σ

variable {ι σ : Type} [DecidableEq ι]

/-- A step of one thread. -/
inductive Step (t : ι) (s : State ι σ) : State ι σ → Prop
  | lock {rest : List (Instr ι σ)} : s.code t = .lock :: rest → s.owner = none →
      Step t s { s with owner := some t, code := update s.code t rest }
  | unlock {rest : List (Instr ι σ)} : s.code t = .unlock :: rest → s.owner = some t →
      Step t s { s with owner := none, code := update s.code t rest }
  | join {u : ι} {rest : List (Instr ι σ)} : s.code t = .join u :: rest → s.code u = [] →
      Step t s { s with code := update s.code t rest }
  | spawn {u : ι} {code rest : List (Instr ι σ)} : s.code t = .spawn u code :: rest →
      s.code u = [] → Step t s { s with code := update (update s.code t rest) u code }
  | run {f : σ → σ × List (Instr ι σ)} {rest : List (Instr ι σ)} : s.code t = .run f :: rest →
      Step t s { s with data := (f s.data).1, code := update s.code t ((f s.data).2 ++ rest) }

/-- Reached by steps of any threads in any order. -/
def Reached (s s' : State ι σ) : Prop :=
  Relation.ReflTransGen (fun s s' => ∃ t, Step t s s') s s'

/-- No thread can move. -/
def Stuck (s : State ι σ) : Prop :=
  ∀ t s', ¬ Step t s s'

/-- The thread waits for a mutex that the other one holds, or for its end. -/
def WaitsFor (s : State ι σ) (t u : ι) : Prop :=
  (∃ rest, s.code t = .lock :: rest ∧ s.owner = some u) ∨
    ∃ rest, s.code t = .join u :: rest ∧ s.code u ≠ []

/-- The thread waits for itself, directly or by way of others. -/
def Deadlocked (s : State ι σ) (t : ι) : Prop :=
  Relation.TransGen (WaitsFor s) t t

/-- What holds at first and is kept by every step holds in all states reached. -/
theorem Reached.invariant {P : State ι σ → Prop} (hstep : ∀ {t s s'}, P s → Step t s s' → P s')
    {s s' : State ι σ} (h : Reached s s') (hs : P s) : P s' := by
  induction h with
  | refl => exact hs
  | tail _ hnext ih =>
      rcases hnext with ⟨t, hnext⟩
      exact hstep ih hnext

/-! ## A mutex locked twice -/

/-- The code comes to a lock before any unlock and before its end. -/
inductive Relocks : List (Instr ι σ) → Prop
  | lock (rest : List (Instr ι σ)) : Relocks (.lock :: rest)
  | join (u : ι) {rest : List (Instr ι σ)} : Relocks rest → Relocks (.join u :: rest)
  | spawn (u : ι) (code : List (Instr ι σ)) {rest : List (Instr ι σ)} : Relocks rest →
      Relocks (.spawn u code :: rest)
  | run {f : σ → σ × List (Instr ι σ)} {rest : List (Instr ι σ)} :
      (∀ x, Relocks ((f x).2 ++ rest)) → Relocks (.run f :: rest)

omit [DecidableEq ι] in
theorem Relocks.ne_nil {code : List (Instr ι σ)} (h : Relocks code) : code ≠ [] := by
  cases h <;> simp

/-- The thread holds the mutex and will lock it once more. -/
structure Trapped (t : ι) (s : State ι σ) : Prop where
  owner : s.owner = some t
  relocks : Relocks (s.code t)

section Trapped

variable {t u : ι} {s s' : State ι σ}

theorem Trapped.step (h : Trapped t s) (hstep : Step u s s') : Trapped t s' := by
  have hrelocks := h.relocks
  cases hstep with
  | lock hcode hfree =>
      rw [h.owner] at hfree
      cases hfree
  | unlock hcode howner =>
      -- only the thread itself could unlock, and it does not
      rw [h.owner, Option.some.injEq] at howner
      subst howner
      rw [hcode] at hrelocks
      cases hrelocks
  | @join v rest hcode hended =>
      refine ⟨h.owner, ?_⟩
      by_cases hu : t = u
      · subst hu
        rw [hcode] at hrelocks
        cases hrelocks with
        | join _ hrest => simpa using hrest
      · simpa [hu] using hrelocks
  | @spawn v code rest hcode hfree =>
      refine ⟨h.owner, ?_⟩
      have hother : t ≠ v := by
        rintro rfl
        exact hrelocks.ne_nil hfree
      by_cases hu : t = u
      · subst hu
        rw [hcode] at hrelocks
        cases hrelocks with
        | spawn _ _ hrest => simpa [hother] using hrest
      · simpa [hother, hu] using hrelocks
  | @run f rest hcode =>
      refine ⟨h.owner, ?_⟩
      by_cases hu : t = u
      · subst hu
        rw [hcode] at hrelocks
        cases hrelocks with
        | run hrest => simpa using hrest s.data
      · simpa [hu] using hrelocks

/-- A trapped thread never ends, whatever the others do. -/
theorem Trapped.never_ends (h : Trapped t s) (hreached : Reached s s') : s'.code t ≠ [] :=
  (hreached.invariant (fun hs hstep => hs.step hstep) h).relocks.ne_nil

omit [DecidableEq ι] in
/-- At its second lock it waits for itself. -/
theorem Trapped.deadlocked_lock (h : Trapped t s) {rest : List (Instr ι σ)}
    (hcode : s.code t = .lock :: rest) : Deadlocked s t :=
  .single (.inl ⟨rest, hcode, h.owner⟩)

omit [DecidableEq ι] in
/-- So it does where it waits for a thread that wants the mutex. -/
theorem Trapped.deadlocked_join (h : Trapped t s) {rest rest' : List (Instr ι σ)}
    (hcode : s.code t = .join u :: rest) (hwants : s.code u = .lock :: rest') : Deadlocked s t := by
  have hwaits : WaitsFor s t u := .inr ⟨rest, hcode, by simp [hwants]⟩
  exact .tail (.single hwaits) (.inl ⟨rest', hwants, h.owner⟩)

end Trapped

end Mutex
end Library
end ControlDB
