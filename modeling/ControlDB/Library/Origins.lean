import Mathlib.Data.List.Induction

/-!
# Where the facts of a state come from

A fact that holds at the end of a run and not at its start was brought about by one of its steps.
-/

namespace ControlDB
namespace Library

section Origin

variable {σ α ι : Type*} {step : σ → α → σ} {I : σ → Prop} {Has : σ → ι → Prop}
  {Gives : σ → α → ι → Prop} {s₀ : σ}

/-- If a step only adds facts that it gives, then every fact was there at first or was given by a step,
in the state that this step found. -/
theorem exists_origin (hI : I s₀) (hkeep : ∀ {s} (a : α), I s → I (step s a))
    (hstep : ∀ {s a i}, I s → Has (step s a) i → Has s i ∨ Gives s a i)
    (actions : List α) {i : ι} (h : Has (actions.foldl step s₀) i) :
    Has s₀ i ∨
      ∃ before a after, actions = before ++ a :: after ∧ Gives (before.foldl step s₀) a i := by
  induction actions using List.reverseRecOn with
  | nil => exact .inl h
  | append_singleton actions a ih =>
      have hbefore : I (actions.foldl step s₀) :=
        List.foldlRecOn actions step hI fun s hs a _ => hkeep a hs
      rw [List.foldl_append] at h
      rcases hstep hbefore h with hold | hgives
      · rcases ih hold with hfirst | ⟨before, b, after, rfl, hgives⟩
        · exact .inl hfirst
        · exact .inr ⟨before, b, after ++ [a], by simp, hgives⟩
      · exact .inr ⟨actions, a, [], rfl, hgives⟩

/-- A fact that every step keeps holds at the end if it holds on the way. -/
theorem holds_later {i : ι} (hI : I s₀) (hkeep : ∀ {s} (a : α), I s → I (step s a))
    (hstays : ∀ {s} (a : α), I s → Has s i → Has (step s a) i) {before after : List α}
    (h : Has (before.foldl step s₀) i) : Has ((before ++ after).foldl step s₀) i := by
  have hbefore : I (before.foldl step s₀) :=
    List.foldlRecOn before step hI fun s hs a _ => hkeep a hs
  rw [List.foldl_append]
  refine (List.foldlRecOn (motive := fun s => I s ∧ Has s i) after step ⟨hbefore, h⟩ ?_).2
  exact fun s hs a _ => ⟨hkeep a hs.1, hstays a hs.1 hs.2⟩

end Origin

end Library
end ControlDB
