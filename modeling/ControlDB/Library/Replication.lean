import ControlDB.Library.Quorum

/-!
# Replicating a log under elected leaders

An abstract protocol over arbitrary node and command types: terms with at most one leader, bids and
ballots, logs that followers splice from requests, and a commit rule.  The state remembers
what was once true (the bids, the log of every leader, what was sent, acknowledged, learned and
applied), so that its steps can be stated without messages in flight.
-/

namespace ControlDB
namespace Library
namespace Replication

structure Entry (κ : Type) where
  term : Nat
  command : κ
  deriving DecidableEq

section Logs

variable {κ : Type}

/-- Term of the entry at a 1-based index, 0 outside the log. -/
def termAt (l : List (Entry κ)) : Nat → Nat
  | 0 => 0
  | i + 1 => (l[i]?.map Entry.term).getD 0

def lastTerm (l : List (Entry κ)) : Nat :=
  termAt l l.length

/-- The first log is at least as recent as the second. -/
def UpToDate (l mine : List (Entry κ)) : Prop :=
  lastTerm mine < lastTerm l ∨ lastTerm l = lastTerm mine ∧ mine.length ≤ l.length

/-- Write commands of the term after the first `i` entries: entries that have the term already
stay, and the first one that has not is cut off with everything after it. -/
def splice (term : Nat) (l : List (Entry κ)) (i : Nat) : List κ → List (Entry κ)
  | [] => l
  | c :: cs =>
      if (l[i]?.map Entry.term) = some term then splice term l (i + 1) cs
      else l.take i ++ (c :: cs).map (Entry.mk term)

/-! ## Agreement up to an index -/

theorem getElem?_of_take_eq {l l' : List (Entry κ)} {k i : Nat} (h : l.take k = l'.take k)
    (hi : i < k) : l[i]? = l'[i]? := by
  have hget := congrArg (·[i]?) h
  simpa [List.getElem?_take, hi] using hget

theorem take_eq_of_le {l l' : List (Entry κ)} {k i : Nat} (h : l.take k = l'.take k)
    (hi : i ≤ k) : l.take i = l'.take i := by
  have htake := congrArg (List.take i) h
  simpa [List.take_take, Nat.min_eq_left hi] using htake

theorem le_length_of_take_eq {l l' : List (Entry κ)} {k : Nat} (h : l.take k = l'.take k)
    (hk : k ≤ l'.length) : k ≤ l.length := by
  have hlength := congrArg List.length h
  simp only [List.length_take] at hlength
  omega

theorem take_append_of_le {l l' : List (Entry κ)} {k : Nat} (hk : k ≤ l.length) :
    (l ++ l').take k = l.take k := by
  simp [List.take_append, Nat.sub_eq_zero_of_le hk]

theorem take_of_prefix {l l' : List (Entry κ)} (h : l <+: l') {k : Nat} (hk : k ≤ l.length) :
    l'.take k = l.take k := by
  rcases h with ⟨rest, rfl⟩
  exact take_append_of_le hk

theorem termAt_of_take_eq {l l' : List (Entry κ)} {k i : Nat} (h : l.take k = l'.take k)
    (hi : i ≤ k) : termAt l i = termAt l' i := by
  cases i with
  | zero => rfl
  | succ i => simp only [termAt, getElem?_of_take_eq h hi]

theorem lt_length_of_getElem? {l : List (Entry κ)} {i : Nat} {e : Entry κ} (h : l[i]? = some e) :
    i < l.length :=
  (List.getElem?_eq_some_iff.1 h).1

/-- The last term is that of the last entry. -/
theorem lastTerm_eq {l : List (Entry κ)} (h : l ≠ []) :
    ∃ e, l[l.length - 1]? = some e ∧ lastTerm l = e.term := by
  have hlength : 0 < l.length := List.length_pos_iff.2 h
  rcases hget : l[l.length - 1]? with _ | e
  · have hle := List.getElem?_eq_none_iff.1 hget
    omega
  · refine ⟨e, rfl, ?_⟩
    calc lastTerm l
        = termAt l (l.length - 1 + 1) := by rw [Nat.sub_add_cancel hlength, lastTerm]
      _ = e.term := by simp [termAt, hget]

/-! ## What a splice leaves -/

/-- The entries written by a splice, in a reference log. -/
structure Segment (term : Nat) (ref : List (Entry κ)) (i : Nat) (cs : List κ) : Prop where
  bound : i + cs.length ≤ ref.length
  same : (ref.drop i).take cs.length = cs.map (Entry.mk term)

theorem Segment.head {term i : Nat} {ref : List (Entry κ)} {c : κ} {cs : List κ}
    (h : Segment term ref i (c :: cs)) : ref[i]? = some ⟨term, c⟩ := by
  have hget := congrArg (·[0]?) h.same
  simpa [List.getElem?_take, List.getElem?_drop] using hget

theorem Segment.tail {term i : Nat} {ref : List (Entry κ)} {c : κ} {cs : List κ}
    (h : Segment term ref i (c :: cs)) : Segment term ref (i + 1) cs where
  bound := by
    have hbound := h.bound
    simp only [List.length_cons] at hbound
    omega
  same := by
    have hdrop := congrArg (List.drop 1) h.same
    simpa [List.drop_take, List.drop_drop] using hdrop

/-- The reference log may grow. -/
theorem Segment.mono {term i : Nat} {ref ref' : List (Entry κ)} {cs : List κ}
    (h : Segment term ref i cs) (hgrows : ref <+: ref') : Segment term ref' i cs where
  bound := h.bound.trans hgrows.length_le
  same := by
    have hsame : ref'.take (i + cs.length) = ref.take (i + cs.length) :=
      take_of_prefix hgrows h.bound
    calc (ref'.drop i).take cs.length
        = (ref'.take (i + cs.length)).drop i := by rw [List.take_drop]
      _ = (ref.take (i + cs.length)).drop i := by rw [hsame]
      _ = (ref.drop i).take cs.length := by rw [List.take_drop]
      _ = cs.map (Entry.mk term) := h.same

theorem Segment.take_append {term i : Nat} {ref : List (Entry κ)} {cs : List κ}
    (h : Segment term ref i cs) :
    ref.take i ++ cs.map (Entry.mk term) = ref.take (i + cs.length) := by
  rw [List.take_add, h.same]

/-- Entries of the term in `l` are those of the reference log, with all before them. -/
def Follows (term : Nat) (ref l : List (Entry κ)) : Prop :=
  ∀ k e, l[k]? = some e → e.term = term → l.take (k + 1) = ref.take (k + 1)

/-- A splice either finds everything in place, or leaves exactly the reference log up to its end
and removes an entry that was not in the reference log. -/
theorem splice_eq {term i : Nat} {ref l : List (Entry κ)} {cs : List κ}
    (hfollows : Follows term ref l) (hseg : Segment term ref i cs) (hi : l.take i = ref.take i) :
    (splice term l i cs = l ∧ l.take (i + cs.length) = ref.take (i + cs.length)) ∨
    (splice term l i cs = ref.take (i + cs.length) ∧
      ∃ j, j < i + cs.length ∧ l[j]? ≠ ref[j]?) := by
  induction cs generalizing i with
  | nil => exact .inl ⟨rfl, hi⟩
  | cons c cs ih =>
      by_cases hterm : l[i]?.map Entry.term = some term
      · -- the entry is there already, and so is everything before it
        rcases Option.map_eq_some_iff.1 hterm with ⟨e, hget, he⟩
        have hnext := ih hseg.tail (hfollows i e hget he)
        have hlength : i + (cs.length + 1) = i + 1 + cs.length := by omega
        simpa [splice, hterm, hlength] using hnext
      · refine .inr ⟨?_, i, by simp, ?_⟩
        · calc splice term l i (c :: cs)
              = l.take i ++ (c :: cs).map (Entry.mk term) := by rw [splice, if_neg hterm]
            _ = ref.take i ++ (c :: cs).map (Entry.mk term) := by rw [hi]
            _ = ref.take (i + (c :: cs).length) := hseg.take_append
        · intro hsame
          apply hterm
          simp [hsame, hseg.head]

section Splice

variable {term i : Nat} {ref l : List (Entry κ)} {cs : List κ}

/-- Afterwards the logs agree up to the end of the splice. -/
theorem splice_take (hfollows : Follows term ref l) (hseg : Segment term ref i cs)
    (hi : l.take i = ref.take i) :
    (splice term l i cs).take (i + cs.length) = ref.take (i + cs.length) := by
  rcases splice_eq hfollows hseg hi with ⟨hsplice, hsame⟩ | ⟨hsplice, _⟩
  · rw [hsplice, hsame]
  · simp [hsplice, List.take_take]

/-- A splice keeps all agreement there was. -/
theorem splice_keeps (hfollows : Follows term ref l) (hseg : Segment term ref i cs)
    (hi : l.take i = ref.take i) {k : Nat} (hk : l.take k = ref.take k) :
    (splice term l i cs).take k = ref.take k := by
  rcases splice_eq hfollows hseg hi with ⟨hsplice, _⟩ | ⟨hsplice, j, hj, hdiffers⟩
  · rw [hsplice, hk]
  · have hle : k ≤ j := Nat.le_of_not_lt fun hlt => hdiffers (getElem?_of_take_eq hk hlt)
    have hmin : min k (i + cs.length) = k := Nat.min_eq_left (by omega)
    simp [hsplice, List.take_take, hmin]

end Splice

/-- A splice leaves a part of the log in which it finds only its own term. -/
theorem splice_take_self {term i k : Nat} {l : List (Entry κ)} {cs : List κ} (hk : k ≤ l.length)
    (hfound : ∀ j, i ≤ j → j < i + cs.length → j < k → l[j]?.map Entry.term = some term) :
    (splice term l i cs).take k = l.take k := by
  induction cs generalizing i with
  | nil => rfl
  | cons c cs ih =>
      by_cases hterm : l[i]?.map Entry.term = some term
      · rw [splice, if_pos hterm]
        refine ih fun j hij hj hjk => hfound j (by omega) ?_ hjk
        simp only [List.length_cons]
        omega
      -- below `k` only entries of the term are found, so the cut lies above
      · have hki : k ≤ i := by
          by_contra hlt
          exact hterm (hfound i le_rfl (by simp) (by omega))
        have hlength : k ≤ (l.take i).length := by
          simp only [List.length_take]
          omega
        rw [splice, if_neg hterm, take_append_of_le hlength, List.take_take, Nat.min_eq_left hki]

/-- A splice that finds only its own term changes nothing. -/
theorem splice_of_found {term i : Nat} {l : List (Entry κ)} {cs : List κ}
    (hfound : ∀ j, i ≤ j → j < i + cs.length → l[j]?.map Entry.term = some term) :
    splice term l i cs = l := by
  induction cs generalizing i with
  | nil => rfl
  | cons c cs ih =>
      rw [splice, if_pos (hfound i le_rfl (by simp))]
      refine ih fun j hij hj => hfound j (by omega) ?_
      simp only [List.length_cons]
      omega

/-- What a splice leaves where it has been has its term. -/
theorem term_splice {term i j : Nat} {l : List (Entry κ)} {cs : List κ} (hi : i ≤ l.length)
    (hij : i ≤ j) (hj : j < i + cs.length) :
    (splice term l i cs)[j]?.map Entry.term = some term := by
  induction cs generalizing i with
  | nil => simp only [List.length_nil] at hj; omega
  | cons c cs ih =>
      simp only [List.length_cons] at hj
      by_cases hterm : l[i]?.map Entry.term = some term
      · rw [splice, if_pos hterm]
        have hlt : i < l.length := by
          rcases hget : l[i]? with _ | e
          · simp [hget] at hterm
          · exact lt_length_of_getElem? hget
        rcases Nat.eq_or_lt_of_le hij with rfl | hlt'
        · -- the rest of the splice lies behind the entry
          have hkept : (splice term l (i + 1) cs).take (i + 1) = l.take (i + 1) :=
            splice_take_self hlt fun j hj _ hjk => by omega
          rwa [getElem?_of_take_eq hkept (Nat.lt_succ_self i)]
        · exact ih hlt hlt' (by omega)
      · have hlength : (l.take i).length = i := List.length_take_of_le hi
        rw [splice, if_neg hterm, List.getElem?_append_right (by omega), hlength]
        rw [List.getElem?_map, List.getElem?_eq_getElem (by simp only [List.length_cons]; omega)]
        rfl

theorem splice_splice {term i : Nat} {l : List (Entry κ)} {cs : List κ} (hi : i ≤ l.length) :
    splice term (splice term l i cs) i cs = splice term l i cs :=
  splice_of_found fun _ hij hj => term_splice hi hij hj

/-- How far the log reaches after a splice: to the end of the commands, or as far as before if
nothing was cut. -/
theorem le_length_splice_iff {term i k : Nat} {l : List (Entry κ)} {cs : List κ}
    (hi : i ≤ l.length) :
    k ≤ (splice term l i cs).length ↔ k ≤ i + cs.length ∨
      k ≤ l.length ∧ ∀ j, i ≤ j → j < i + cs.length → j < l.length →
        l[j]?.map Entry.term = some term := by
  induction cs generalizing i with
  | nil =>
      simp only [splice, List.length_nil]
      constructor
      · exact fun hk => .inr ⟨hk, fun j hij hj => by omega⟩
      · rintro (hk | ⟨hk, _⟩)
        · exact hk.trans hi
        · exact hk
  | cons c cs ih =>
      simp only [List.length_cons]
      by_cases hterm : l[i]?.map Entry.term = some term
      · rcases Option.map_eq_some_iff.1 hterm with ⟨e, hget, _⟩
        rw [splice, if_pos hterm, ih (lt_length_of_getElem? hget)]
        have hend : i + 1 + cs.length = i + (cs.length + 1) := by omega
        rw [hend]
        refine or_congr Iff.rfl (and_congr_right fun _ => ⟨fun h j hij => ?_, fun h j hij => ?_⟩)
        · rcases Nat.eq_or_lt_of_le hij with rfl | hlt
          · exact fun _ _ => hterm
          · exact h j hlt
        · exact h j (Nat.le_of_succ_le hij)
      · -- the log is cut here, if it reaches that far
        have hlength : (splice term l i (c :: cs)).length = i + (cs.length + 1) := by
          rw [splice, if_neg hterm, List.length_append, List.length_take_of_le hi, List.length_map]
          rfl
        rw [hlength]
        constructor
        · exact .inl
        · rintro (hk | ⟨hk, hfound⟩)
          · exact hk
          · by_contra hbeyond
            exact hterm (hfound i le_rfl (by omega) (by omega))

/-- Cutting at an index where the terms differ keeps all agreement there was. -/
theorem cut_keeps {ref l : List (Entry κ)} {i k : Nat} (hterm : termAt l i ≠ termAt ref i)
    (hk : l.take k = ref.take k) : (l.take (i - 1)).take k = ref.take k := by
  have hle : k ≤ i - 1 := by
    by_contra hnot
    exact hterm (termAt_of_take_eq hk (by omega))
  simp [List.take_take, Nat.min_eq_left hle, hk]

end Logs

/-! ## The protocol -/

/-- A request of the leader of a term: its entries follow the index `prev`. -/
structure Request (κ : Type) where
  term : Nat
  prev : Nat
  prevTerm : Nat
  entries : List κ
  commit : Nat

structure State (ν κ : Type) where
  term : ν → Nat
  log : ν → List (Entry κ)
  /-- The node acts as leader of its term. -/
  leading : ν → Prop
  /-- The log with which a node stood for a term. -/
  bid : ν → Nat → Option (List (Entry κ))
  /-- Voter, candidate and term of every vote. -/
  ballot : ν → ν → Nat → Prop
  leader : Nat → Option ν
  /-- The log of the leader of a term, as long as it led. -/
  leaderLog : Nat → List (Entry κ)
  sent : Request κ → Prop
  /-- The node has held the log of the leader of a term up to an index. -/
  acked : ν → Nat → Nat → Prop
  /-- The node has taken everything up to an index for committed. -/
  learned : ν → Nat → Prop
  applied : ν → Nat → κ → Prop

/-- The node has taken at least that much for committed. -/
def State.Knows {ν κ : Type} (t : State ν κ) (n : ν) (k : Nat) : Prop :=
  k = 0 ∨ ∃ k', k ≤ k' ∧ t.learned n k'

/-- Every log empty, and nothing has happened. -/
def State.start (ν κ : Type) : State ν κ where
  term := fun _ => 0
  log := fun _ => []
  leading := fun _ => False
  bid := fun _ _ => none
  ballot := fun _ _ _ => False
  leader := fun _ => none
  leaderLog := fun _ => []
  sent := fun _ => False
  acked := fun _ _ _ => False
  learned := fun _ _ => False
  applied := fun _ _ _ => False

open Function (update)

variable {ν κ : Type} [DecidableEq ν]

inductive Step (members : Finset ν) (t : State ν κ) : State ν κ → Prop
  /-- A node hears of a higher term. -/
  | raise (n : ν) (T : Nat) : t.term n < T →
      Step members t { t with
        term := update t.term n T
        leading := update t.leading n False }
  | yield (n : ν) : Step members t { t with leading := update t.leading n False }
  | stand (n : ν) : Step members t { t with
      term := update t.term n (t.term n + 1)
      leading := update t.leading n False
      bid := update t.bid n (update (t.bid n) (t.term n + 1) (some (t.log n))) }
  | grant (v c : ν) (l : List (Entry κ)) : t.bid c (t.term v) = some l → UpToDate l (t.log v) →
      Step members t { t with
        ballot := fun v' c' T => t.ballot v' c' T ∨ v' = v ∧ c' = c ∧ T = t.term v }
  /-- A term gets a leader at most once. -/
  | win (c : ν) (Q : Finset ν) : t.bid c (t.term c) = some (t.log c) →
      t.leader (t.term c) = none → IsQuorum members Q →
      (∀ v ∈ Q, v = c ∨ t.ballot v c (t.term c)) →
      Step members t { t with
        leading := update t.leading c True
        leader := update t.leader (t.term c) (some c)
        leaderLog := update t.leaderLog (t.term c) (t.log c) }
  | extend (n : ν) (command : κ) : t.leading n →
      Step members t { t with
        log := update t.log n (t.log n ++ [⟨t.term n, command⟩])
        leaderLog := update t.leaderLog (t.term n) (t.log n ++ [⟨t.term n, command⟩]) }
  /-- A leader sends what it has after `prev`, all of its own term. -/
  | send (n : ν) (prev commit : Nat) : t.leading n → prev ≤ (t.log n).length →
      (∀ e ∈ (t.log n).drop prev, e.term = t.term n) → t.Knows n commit →
      Step members t { t with
        sent := fun r => t.sent r ∨ r =
          { term := t.term n, prev, prevTerm := termAt (t.log n) prev
            entries := ((t.log n).drop prev).map Entry.command, commit } }
  | cut (v : ν) (r : Request κ) : ¬ t.leading v → t.sent r → t.term v = r.term →
      r.prev ≤ (t.log v).length → termAt (t.log v) r.prev ≠ r.prevTerm →
      Step members t { t with log := update t.log v ((t.log v).take (r.prev - 1)) }
  | accept (v : ν) (r : Request κ) : ¬ t.leading v → t.sent r → t.term v = r.term →
      r.prev ≤ (t.log v).length → termAt (t.log v) r.prev = r.prevTerm →
      Step members t { t with
        log := update t.log v (splice r.term (t.log v) r.prev r.entries)
        acked := fun v' T N =>
          t.acked v' T N ∨ v' = v ∧ T = r.term ∧ N = r.prev + r.entries.length
        learned := fun v' k => t.learned v' k ∨ v' = v ∧ k = r.commit }
  /-- A leader finds an entry of its own term at a majority. -/
  | settle (n : ν) (N : Nat) (e : Entry κ) (Q : Finset ν) : t.leading n →
      (t.log n)[N]? = some e → e.term = t.term n → IsQuorum members Q →
      (∀ v ∈ Q, v = n ∨ ∃ N', N < N' ∧ t.acked v (t.term n) N') →
      Step members t { t with learned := fun v k => t.learned v k ∨ v = n ∧ k = N + 1 }
  | perform (n : ν) (k i : Nat) (e : Entry κ) : t.learned n k → i < k → (t.log n)[i]? = some e →
      Step members t { t with
        applied := fun v j c => t.applied v j c ∨ v = n ∧ j = i + 1 ∧ c = e.command }

end Replication
end Library
end ControlDB
