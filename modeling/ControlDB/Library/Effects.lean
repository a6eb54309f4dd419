import Mathlib

/-!
# Programs with a state and exceptions

A program that raises leaves the state as it is at that point, and a handler goes on from there.
`Triple` says what holds afterwards, however the program ends, and `Keeps` what every program made
of such parts keeps.
-/

namespace ControlDB
namespace Library

/-- A program over states `σ` that may raise an `ε`. -/
abbrev Prog (ε σ α : Type) : Type :=
  ExceptT ε (StateM σ) α

namespace Prog

variable {ε σ α β : Type}

/-- How the program ends, and in which state. -/
def exec (m : Prog ε σ α) (s : σ) : Except ε α × σ :=
  m.run.run s

/-- The state in the end. -/
def final (m : Prog ε σ α) (s : σ) : σ :=
  (exec m s).2

@[simp] theorem exec_pure (a : α) (s : σ) : exec (pure a : Prog ε σ α) s = (.ok a, s) := rfl

@[simp] theorem exec_throw (e : ε) (s : σ) : exec (throw e : Prog ε σ α) s = (.error e, s) := rfl

@[simp] theorem exec_get (s : σ) : exec (get : Prog ε σ σ) s = (.ok s, s) := rfl

@[simp] theorem exec_modify (f : σ → σ) (s : σ) :
    exec (modify f : Prog ε σ PUnit) s = (.ok ⟨⟩, f s) := rfl

theorem exec_bind (m : Prog ε σ α) (f : α → Prog ε σ β) (s : σ) :
    exec (m >>= f) s =
      match exec m s with
      | (.ok a, s') => exec (f a) s'
      | (.error e, s') => (.error e, s') := by
  simp only [exec, ExceptT.run, StateT.run, bind, ExceptT.bind, ExceptT.mk, StateT.bind,
    ExceptT.bindCont]
  rcases m s with ⟨_ | _, _⟩ <;> rfl

@[simp] theorem exec_map (f : α → β) (m : Prog ε σ α) (s : σ) :
    exec (f <$> m) s = ((exec m s).1.map f, (exec m s).2) := by
  simp only [exec, Functor.map, ExceptT.map, ExceptT.mk, ExceptT.run, StateT.run, bind, StateT.bind]
  rcases m s with ⟨_ | _, _⟩ <;> rfl

theorem final_bind_ok {m : Prog ε σ α} {s s' : σ} {a : α} (h : exec m s = (.ok a, s'))
    (f : α → Prog ε σ β) : final (m >>= f) s = final (f a) s' := by
  rw [final, exec_bind, h, final]

theorem exec_bind_error {m : Prog ε σ α} {s s' : σ} {e : ε} (h : exec m s = (.error e, s'))
    (f : α → Prog ε σ β) : exec (m >>= f) s = (.error e, s') := by
  rw [exec_bind, h]

/-- What is returned in the end does not matter for the state. -/
theorem final_bind_pure (m : Prog ε σ α) (f : α → β) (s : σ) :
    final (m >>= fun a => pure (f a)) s = final m s := by
  rw [final, exec_bind, final]
  rcases exec m s with ⟨_ | _, _⟩ <;> rfl

theorem exec_tryCatch (m : Prog ε σ α) (handler : ε → Prog ε σ α) (s : σ) :
    exec (tryCatch m handler) s =
      match exec m s with
      | (.ok a, s') => (.ok a, s')
      | (.error e, s') => exec (handler e) s' := by
  simp only [exec, ExceptT.run, StateT.run, tryCatch, tryCatchThe, MonadExceptOf.tryCatch,
    ExceptT.tryCatch, ExceptT.mk, bind, StateT.bind]
  rcases m s with ⟨_ | _, _⟩ <;> rfl

/-- A value that is there already, or an exception. -/
def lift (x : Except ε α) : Prog ε σ α :=
  match x with
  | .ok a => pure a
  | .error e => throw e

@[simp] theorem exec_lift (x : Except ε α) (s : σ) : exec (lift x : Prog ε σ α) s = (x, s) := by
  cases x <;> rfl

/-- Dropping the value changes nothing else. -/
theorem exec_discard (m : Prog ε σ α) (s : σ) :
    exec (discard m) s = ((exec m s).1.map fun _ => ⟨⟩, (exec m s).2) :=
  exec_map _ m s

theorem final_discard (m : Prog ε σ α) (s : σ) : final (discard m) s = final m s := by
  rw [final, exec_discard, final]

/-! ## Triples -/

/-- From a state with `P` the program ends with `Q`, whether it returns or raises. -/
def Triple (P : σ → Prop) (m : Prog ε σ α) (Q : Except ε α → σ → Prop) : Prop :=
  ∀ s, P s → Q (exec m s).1 (exec m s).2

section Rules

variable {P : σ → Prop} {m : Prog ε σ α} {Q R : Except ε α → σ → Prop}

theorem triple_pure {a : α} (h : ∀ s, P s → Q (.ok a) s) : Triple P (pure a) Q := h

theorem triple_throw {e : ε} (h : ∀ s, P s → Q (.error e) s) : Triple P (throw e) Q := h

theorem triple_lift {x : Except ε α} (h : ∀ s, P s → Q x s) : Triple P (lift x) Q := by
  intro s hs
  rw [exec_lift]
  exact h s hs

theorem triple_get {Q : Except ε σ → σ → Prop} (h : ∀ s, P s → Q (.ok s) s) : Triple P get Q := h

theorem triple_modify {f : σ → σ} {Q : Except ε PUnit → σ → Prop}
    (h : ∀ s, P s → Q (.ok ⟨⟩) (f s)) : Triple P (modify f) Q := h

/-- What the first program ends with is what the second one begins with, unless it raised. -/
theorem Triple.bind {f : α → Prog ε σ β} {S : Except ε β → σ → Prop} (hm : Triple P m Q)
    (hraise : ∀ e s, Q (.error e) s → S (.error e) s)
    (hf : ∀ a, Triple (Q (.ok a)) (f a) S) : Triple P (m >>= f) S := by
  intro s hs
  have hend := hm s hs
  rw [exec_bind]
  rcases hexec : exec m s with ⟨_ | a, s'⟩
  · rw [hexec] at hend
    exact hraise _ _ hend
  · rw [hexec] at hend
    exact hf a s' hend

theorem Triple.tryCatch {handler : ε → Prog ε σ α} (hm : Triple P m Q)
    (hreturn : ∀ a s, Q (.ok a) s → R (.ok a) s)
    (hhandler : ∀ e, Triple (Q (.error e)) (handler e) R) : Triple P (tryCatch m handler) R := by
  intro s hs
  have hend := hm s hs
  rw [exec_tryCatch]
  rcases hexec : exec m s with ⟨e | a, s'⟩
  · rw [hexec] at hend
    exact hhandler e s' hend
  · rw [hexec] at hend
    exact hreturn _ _ hend

end Rules

/-! ## What a program keeps -/

/-- The program keeps the property, whether it returns or raises. -/
def Keeps (P : σ → Prop) (m : Prog ε σ α) : Prop :=
  Triple P m fun _ => P

section Keeping

variable {P : σ → Prop}

theorem keeps_pure (a : α) : Keeps P (pure a : Prog ε σ α) :=
  triple_pure fun _ hs => hs

theorem keeps_throw (e : ε) : Keeps P (throw e : Prog ε σ α) :=
  triple_throw fun _ hs => hs

theorem keeps_get : Keeps P (get : Prog ε σ σ) :=
  triple_get fun _ hs => hs

theorem keeps_lift (x : Except ε α) : Keeps P (lift x : Prog ε σ α) :=
  triple_lift fun _ hs => hs

theorem keeps_modify {f : σ → σ} (h : ∀ s, P s → P (f s)) :
    Keeps P (modify f : Prog ε σ PUnit) :=
  triple_modify h

theorem Keeps.bind {m : Prog ε σ α} {f : α → Prog ε σ β} (hm : Keeps P m) (hf : ∀ a, Keeps P (f a)) :
    Keeps P (m >>= f) :=
  Triple.bind hm (fun _ _ hs => hs) hf

theorem Keeps.tryCatch {m : Prog ε σ α} {handler : ε → Prog ε σ α} (hm : Keeps P m)
    (hhandler : ∀ e, Keeps P (handler e)) : Keeps P (tryCatch m handler) :=
  Triple.tryCatch hm (fun _ _ hs => hs) hhandler

/-- What the second program keeps still holds after both if it holds after the first. -/
theorem Keeps.final_bind {m : Prog ε σ α} {f : α → Prog ε σ β} {s : σ} (hf : ∀ a, Keeps P (f a))
    (h : P (final m s)) : P (final (m >>= f) s) := by
  rw [final] at h
  rw [final, exec_bind]
  rcases hexec : exec m s with ⟨_ | a, s'⟩
  · rw [hexec] at h
    exact h
  · rw [hexec] at h
    exact hf a s' h

theorem Keeps.discard {m : Prog ε σ α} (hm : Keeps P m) : Keeps P (discard m) := by
  intro s hs
  rw [exec_discard]
  exact hm s hs

theorem Keeps.ite {c : Prop} [Decidable c] {m m' : Prog ε σ α} (hm : c → Keeps P m)
    (hm' : ¬ c → Keeps P m') : Keeps P (if c then m else m') := by
  split
  case isTrue h => exact hm h
  case isFalse h => exact hm' h

end Keeping

end Prog
end Library
end ControlDB
