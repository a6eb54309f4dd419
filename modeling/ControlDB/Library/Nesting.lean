import Mathlib

/-!
# Nested blocks in a trace

A block leaves a mark when it is entered and one when it is left.  Blocks that nest leave nested marks;
where a block may be left without a mark, a start may stay open.  Behind a start that has its stop only
nested marks lie between the two (`Nested.exists_start`), and with no start left open there are as many
stops as starts.
-/

namespace ControlDB
namespace Library

universe u

inductive Mark (ι : Type u)
  | start (id : ι)
  | stop (id : ι) (failed : Bool)
  deriving DecidableEq

namespace Mark

variable {ι : Type u}

def isStart : Mark ι → Bool
  | start _ => true
  | stop _ _ => false

def isStop : Mark ι → Bool
  | start _ => false
  | stop _ _ => true

end Mark

variable {ι : Type u} {lenient : Prop}

/-- Marks of nested blocks.  Only if it is `lenient` a start may stay open. -/
inductive Nested (lenient : Prop) : List (Mark ι) → Prop
  | nil : Nested lenient []
  | block {id : ι} {failed : Bool} {w rest : List (Mark ι)} (hw : Nested lenient w)
      (hrest : Nested lenient rest) :
      Nested lenient (.start id :: (w ++ .stop id failed :: rest))
  | left {id : ι} {w : List (Mark ι)} (h : lenient) (hw : Nested lenient w) :
      Nested lenient (.start id :: w)

theorem Nested.append {v w : List (Mark ι)} (hv : Nested lenient v) (hw : Nested lenient w) :
    Nested lenient (v ++ w) := by
  induction hv with
  | nil => exact hw
  | block hbody _ _ ih =>
      rw [List.cons_append, List.append_assoc, List.cons_append]
      exact .block hbody ih
  | left h _ ih => exact .left h ih

theorem nested_block {id : ι} {failed : Bool} {w : List (Mark ι)} (hw : Nested lenient w) :
    Nested lenient (.start id :: (w ++ [.stop id failed])) :=
  .block hw .nil

/-- A stop has its start, and between them lie nested marks only. -/
theorem Nested.exists_start {v : List (Mark ι)} (hv : Nested lenient v) {id : ι} {failed : Bool}
    {front back : List (Mark ι)} (h : v = front ++ .stop id failed :: back) :
    ∃ before w, front = before ++ .start id :: w ∧ Nested lenient w := by
  induction hv generalizing front back with
  | nil => simp at h
  | @block id' failed' w rest hw hrest ihw ihrest =>
      cases front with
      | nil => simp at h
      | cons mark front =>
          rw [List.cons_append, List.cons.injEq] at h
          rcases h with ⟨rfl, h⟩
          -- the stop is that of the block, one inside it, or one behind it
          rcases List.append_eq_append_iff.1 h with ⟨c, hfront, hc⟩ | ⟨c, hw', hc⟩
          · cases c with
            | nil =>
                rw [List.nil_append, List.cons.injEq] at hc
                cases hc.1
                exact ⟨[], w, by rw [hfront, List.append_nil]; rfl, hw⟩
            | cons mark' c =>
                rw [List.cons_append, List.cons.injEq] at hc
                rcases ihrest hc.2 with ⟨before, w', hbefore, hw'⟩
                refine ⟨.start id' :: (w ++ mark' :: before), w', ?_, hw'⟩
                rw [hfront, hbefore]
                simp
          · cases c with
            | nil =>
                rw [List.nil_append, List.cons.injEq] at hc
                cases hc.1
                exact ⟨[], w, by rw [hw', List.append_nil]; rfl, hw⟩
            | cons mark' c =>
                rw [List.cons_append, List.cons.injEq] at hc
                cases hc.1
                rcases ihw hw' with ⟨before, w', hbefore, hnested⟩
                exact ⟨.start id' :: before, w', by rw [hbefore]; rfl, hnested⟩
  | @left id' w hlenient hw ih =>
      cases front with
      | nil => simp at h
      | cons mark front =>
          rw [List.cons_append, List.cons.injEq] at h
          rcases h with ⟨rfl, h⟩
          rcases ih h with ⟨before, w', hbefore, hnested⟩
          exact ⟨.start id' :: before, w', by rw [hbefore]; rfl, hnested⟩

theorem Nested.countP_stop_le {v : List (Mark ι)} (hv : Nested lenient v) :
    v.countP Mark.isStop ≤ v.countP Mark.isStart := by
  induction hv with
  | nil => exact le_rfl
  | block _ _ ihw ihrest =>
      simp only [List.countP_cons, List.countP_append, Mark.isStart, Mark.isStop]
      simp
      omega
  | left _ _ ih =>
      simp only [List.countP_cons, Mark.isStart, Mark.isStop]
      simp
      omega

/-- With no start left open, every block that was entered was left. -/
theorem Nested.countP_stop_eq {v : List (Mark ι)} (hstrict : ¬ lenient) (hv : Nested lenient v) :
    v.countP Mark.isStop = v.countP Mark.isStart := by
  induction hv with
  | nil => rfl
  | block _ _ ihw ihrest =>
      simp only [List.countP_cons, List.countP_append, Mark.isStart, Mark.isStop]
      simp
      omega
  | left h _ _ => exact absurd h hstrict

end Library
end ControlDB
