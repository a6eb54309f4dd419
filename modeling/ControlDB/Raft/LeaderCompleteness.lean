import ControlDB.Raft.Safety

/-!
# What was committed stays committed

Two moments of a run.  What a node takes for committed at the first one is still in its log at the
second, agrees with what any node then takes for committed, and is in the log of every node that then
leads in a term that is not lower.  The runs are those in which state machine safety holds.
-/

namespace ControlDB
namespace Raft

open Library

section Later

variable {m : Members} {s s' : Cluster}

/-- The two moments, as moments of one run of the protocol. -/
theorem sims_of_sound (hnamed : ∀ id ∈ m.ids, id ≠ [])
    (h : Reach (Cluster.step m) (Cluster.Sound m) (Cluster.init m) s)
    (hmore : Reach (Cluster.step m) (Cluster.Sound m) s s') :
    ∃ t t', Replication.Reached m.nodes t ∧
      Relation.ReflTransGen (Replication.Step m.nodes) t t' ∧ Sim m s t ∧ Sim m s' t' := by
  have hnext : ∀ {s s' : Cluster} {a : Action} {t : Protocol},
      Reach (Cluster.step m) (Cluster.Sound m) (Cluster.init m) s → Replication.Reached m.nodes t →
      Sim m s t → Cluster.Sound m s a → s.step m a = some s' →
      ∃ t', Relation.ReflTransGen (Replication.Step m.nodes) t t' ∧ Sim m s' t' := by
    intro s s' a t hs ht hsim hsound hstep
    have hvotes := votes_of_reach hnamed (hs.mono restartable_of_sound)
    exact hsim.step ht hvotes.1 hvotes.2 hsound hstep
  rcases Reach.simulated (sim_init m) hnext h with ⟨t, ht, hsim⟩
  -- the second part of the run starts where the protocol has come to
  have hlater : ∃ t', Relation.ReflTransGen (Replication.Step m.nodes) t t' ∧ Sim m s' t' :=
    hmore.simulated hsim fun hs ht' hsim' hsound hstep =>
      hnext (h.trans hs) (ht.trans ht') hsim' hsound hstep
  rcases hlater with ⟨t', ht', hsim'⟩
  exact ⟨t, t', ht, ht', hsim, hsim'⟩

/-- What a node has taken for committed is never lost from its log, and what any node takes for
committed later is the same, as far as both go. -/
theorem committed_stays (hnamed : ∀ id ∈ m.ids, id ≠ [])
    (h : Reach (Cluster.step m) (Cluster.Sound m) (Cluster.init m) s)
    (hmore : Reach (Cluster.step m) (Cluster.Sound m) s s') (id other : Bytes) :
    (s'.nodes id).log.view.take (s.nodes id).committedIndex =
        (s.nodes id).log.view.take (s.nodes id).committedIndex ∧
      (s'.nodes other).log.view.take
          (min (s.nodes id).committedIndex (s'.nodes other).committedIndex) =
        (s.nodes id).log.view.take
          (min (s.nodes id).committedIndex (s'.nodes other).committedIndex) := by
  rcases sims_of_sound hnamed h hmore with ⟨t, t', ht, hsteps, hsim, hsim'⟩
  have hreached : Replication.Reached m.nodes t' := Relation.ReflTransGen.trans ht hsteps
  have hknows : ∀ {t : Protocol} {id : Bytes} {k k' : Nat}, k ≤ k' → t.Knows id k' → t.Knows id k := by
    rintro t id k k' hle (rfl | ⟨last, hlast, hlearned⟩)
    · exact .inl (Nat.le_zero.1 hle)
    · exact .inr ⟨last, hle.trans hlast, hlearned⟩
  have hcommitted := (hsim.nodes id).committed
  have hcommitted' := (hsim'.nodes other).committed
  rw [← (hsim.nodes id).log, ← (hsim'.nodes id).log, ← (hsim'.nodes other).log]
  refine ⟨(ht.covered_later hsteps (ht.covered hcommitted)).1, ?_⟩
  -- as far as both go, the entries are chosen in both logs
  generalize hk : min (s.nodes id).committedIndex (s'.nodes other).committedIndex = k
  have hle : k ≤ (s.nodes id).committedIndex := hk ▸ min_le_left _ _
  have hle' : k ≤ (s'.nodes other).committedIndex := hk ▸ min_le_right _ _
  rcases ht.covered_later hsteps (ht.covered (hknows hle hcommitted)) with ⟨hkept, hcovered⟩
  have hother : t'.Covered m.nodes other k := hreached.covered (hknows hle' hcommitted')
  exact (hreached.inv.covered_agree hcovered hother).trans hkept

/-- What a node takes for committed is in the log of every node that leads at that moment or later,
in a term that is not lower: such a leader appends only behind it. -/
theorem leader_complete (hnamed : ∀ id ∈ m.ids, id ≠ [])
    (h : Reach (Cluster.step m) (Cluster.Sound m) (Cluster.init m) s)
    (hmore : Reach (Cluster.step m) (Cluster.Sound m) s s') {id leader : Bytes}
    (hrole : (s'.nodes leader).role = .leader)
    (hterm : (s.nodes id).ps.currentTerm ≤ (s'.nodes leader).ps.currentTerm) :
    (s'.nodes leader).log.view.take (s.nodes id).committedIndex =
        (s.nodes id).log.view.take (s.nodes id).committedIndex ∧
      (s.nodes id).committedIndex ≤ (s'.nodes leader).log.lastIndex := by
  rcases sims_of_sound hnamed h hmore with ⟨t, t', ht, hsteps, hsim, hsim'⟩
  have hn := hsim.nodes id
  have hn' := hsim'.nodes leader
  rw [← hn.term, ← hn'.term] at hterm
  rw [hn'.indexed.lastIndex_eq, ← hn.log, ← hn'.log]
  exact ht.leader_has hsteps hn.committed (hn'.leading hrole) hterm

end Later

/-! ### A second leader -/

namespace SafetyExample

open Trio

/-- The first leader has committed a command, and the second is about to be elected. -/
def firstCommitted : Option Cluster :=
  run (Cluster.step trio) (Cluster.Sound trio) (Cluster.init trio)
    (elect a c 0 0 ++ commitWith a b (bytes "x") 0 0)

theorem firstCommitted_isSome : firstCommitted.isSome = true := by
  decide +kernel

def secondElected : Option Cluster :=
  run (Cluster.step trio) (Cluster.Sound trio) (firstCommitted.get firstCommitted_isSome)
    ([.replicate a b, .sendAppend a b, .deliverAppend 1, .readCommitted b, .applyNext b] ++
      elect b a 3 1)

theorem secondElected_isSome : secondElected.isSome = true := by
  decide +kernel

end SafetyExample

open SafetyExample Trio in
theorem committed_stays_secondElected :
    ((secondElected.get secondElected_isSome).nodes a).log.view.take
          ((firstCommitted.get firstCommitted_isSome).nodes a).committedIndex =
        ((firstCommitted.get firstCommitted_isSome).nodes a).log.view.take
          ((firstCommitted.get firstCommitted_isSome).nodes a).committedIndex ∧
      ((secondElected.get secondElected_isSome).nodes b).log.view.take
          (min ((firstCommitted.get firstCommitted_isSome).nodes a).committedIndex
            ((secondElected.get secondElected_isSome).nodes b).committedIndex) =
        ((firstCommitted.get firstCommitted_isSome).nodes a).log.view.take
          (min ((firstCommitted.get firstCommitted_isSome).nodes a).committedIndex
            ((secondElected.get secondElected_isSome).nodes b).committedIndex) :=
  committed_stays (by decide) (reach_of_run (Option.some_get firstCommitted_isSome).symm)
    (reach_of_run (Option.some_get secondElected_isSome).symm) a b

open SafetyExample Trio in
theorem leader_complete_secondElected :
    ((secondElected.get secondElected_isSome).nodes b).log.view.take
          ((firstCommitted.get firstCommitted_isSome).nodes a).committedIndex =
        ((firstCommitted.get firstCommitted_isSome).nodes a).log.view.take
          ((firstCommitted.get firstCommitted_isSome).nodes a).committedIndex ∧
      ((firstCommitted.get firstCommitted_isSome).nodes a).committedIndex ≤
        ((secondElected.get secondElected_isSome).nodes b).log.lastIndex :=
  leader_complete (by decide) (reach_of_run (Option.some_get firstCommitted_isSome).symm)
    (reach_of_run (Option.some_get secondElected_isSome).symm) (by decide +kernel)
    (by decide +kernel)

end Raft
end ControlDB
