import ControlDB.Library.Replication

/-!
# The invariant of the replicated log

It is cut in three: how the logs relate to the logs of the leaders, what bids, ballots and
acknowledgements say about entries that a quorum may still accept, and what follows for committed
indexes.
-/

namespace ControlDB
namespace Library
namespace Replication

variable {ν κ : Type}

/-! ## Logs made of leaders' logs -/

/-- Up to any entry, the log is that of the leader of the entry's term. -/
def Matches (L : Nat → List (Entry κ)) (l : List (Entry κ)) : Prop :=
  ∀ k e, l[k]? = some e → l.take (k + 1) = (L e.term).take (k + 1)

section Matches

variable {L L' : Nat → List (Entry κ)} {l : List (Entry κ)}

theorem Matches.follows (h : Matches L l) (T : Nat) : Follows T (L T) l := by
  intro k e hget hterm
  subst hterm
  exact h k e hget

theorem Matches.take (h : Matches L l) (N : Nat) : Matches L (l.take N) := by
  intro k e hget
  rw [List.getElem?_take] at hget
  split_ifs at hget with hk
  calc (l.take N).take (k + 1)
      = l.take (k + 1) := by rw [List.take_take, Nat.min_eq_left hk]
    _ = (L e.term).take (k + 1) := h k e hget

/-- Leaders' logs may grow. -/
theorem Matches.mono (h : Matches L l) (hL : ∀ T, L T <+: L' T) : Matches L' l := by
  intro k e hget
  have hsame := h k e hget
  have hlength : k + 1 ≤ (L e.term).length :=
    le_length_of_take_eq hsame.symm (lt_length_of_getElem? hget)
  rw [hsame, take_of_prefix (hL e.term) hlength]

theorem Matches.concat {e : Entry κ} (h : Matches L l) (hnew : L e.term = l ++ [e]) :
    Matches L (l ++ [e]) := by
  intro k e' hget
  rcases Nat.lt_or_ge k l.length with hlt | hge
  · rw [List.getElem?_append_left hlt] at hget
    rw [take_append_of_le hlt]
    exact h k e' hget
  · -- the new entry itself
    have hk : k < (l ++ [e]).length := lt_length_of_getElem? hget
    have hlast : k = l.length := by
      simp only [List.length_append, List.length_singleton] at hk
      omega
    subst hlast
    have he : e = e' := by simpa using hget
    rw [← he, hnew]

end Matches

/-- The terms in a log only go up. -/
def Ascending (l : List (Entry κ)) : Prop :=
  l.Pairwise fun e e' => e.term ≤ e'.term

theorem Ascending.le {l : List (Entry κ)} (h : Ascending l) {i j : Nat} {e e' : Entry κ}
    (hij : i ≤ j) (hi : l[i]? = some e) (hj : l[j]? = some e') : e.term ≤ e'.term := by
  rcases Nat.eq_or_lt_of_le hij with rfl | hlt
  · rw [hi] at hj
    cases hj
    exact le_rfl
  · rcases List.getElem?_eq_some_iff.1 hi with ⟨hilt, rfl⟩
    rcases List.getElem?_eq_some_iff.1 hj with ⟨hjlt, rfl⟩
    exact List.pairwise_iff_getElem.1 h i j hilt hjlt hlt

/-- A matching log is the log of the leader of its last term, cut at its length. -/
theorem Matches.eq_take {L : Nat → List (Entry κ)} {l : List (Entry κ)} (h : Matches L l)
    (hne : l ≠ []) : l = (L (lastTerm l)).take l.length := by
  rcases lastTerm_eq hne with ⟨e, hget, hterm⟩
  have hlength : l.length - 1 + 1 = l.length := Nat.sub_add_cancel (List.length_pos_iff.2 hne)
  calc l = l.take l.length := by simp
    _ = (L e.term).take l.length := by rw [← hlength]; exact h _ e hget
    _ = (L (lastTerm l)).take l.length := by rw [hterm]

theorem Matches.ascending {L : Nat → List (Entry κ)} {l : List (Entry κ)} (h : Matches L l)
    (hL : ∀ T, Ascending (L T)) : Ascending l := by
  by_cases hne : l = []
  · subst hne
    exact List.Pairwise.nil
  · rw [h.eq_take hne]
    exact (hL _).sublist (List.take_sublist _ _)

/-! ## The three parts of the invariant -/

namespace State

/-- The node has held the leader's log of the term up to the index. -/
def Holds (t : State ν κ) (v : ν) (T N : Nat) : Prop :=
  (∃ N', N ≤ N' ∧ t.acked v T N') ∨ (t.leader T = some v ∧ N ≤ (t.leaderLog T).length)

/-- The leader of the term wrote the entry at the index itself. -/
def Own (t : State ν κ) (T N : Nat) : Prop :=
  0 < N ∧ ∃ e, (t.leaderLog T)[N - 1]? = some e ∧ e.term = T

/-- A quorum holds the leader's own entry. -/
def Chosen (members : Finset ν) (t : State ν κ) (T N : Nat) : Prop :=
  t.Own T N ∧ ∃ Q, IsQuorum members Q ∧ ∀ v ∈ Q, t.Holds v T N

/-- A quorum holds the leader's own entry or may still come to hold it. -/
def Choosable (members : Finset ν) (t : State ν κ) (T N : Nat) : Prop :=
  t.Own T N ∧ ∃ Q, IsQuorum members Q ∧ ∀ v ∈ Q, t.Holds v T N ∨ t.term v ≤ T

theorem Own.le_length {t : State ν κ} {T N : Nat} (h : t.Own T N) :
    N ≤ (t.leaderLog T).length := by
  rcases h with ⟨hpos, e, hget, _⟩
  have hlt := lt_length_of_getElem? hget
  omega

theorem Chosen.choosable {members : Finset ν} {t : State ν κ} {T N : Nat}
    (h : t.Chosen members T N) : t.Choosable members T N := by
  rcases h with ⟨hown, Q, hQ, hholds⟩
  exact ⟨hown, Q, hQ, fun v hv => .inl (hholds v hv)⟩

/-- The first `k` entries of a node's log are chosen, in a term it has reached. -/
def Covered (members : Finset ν) (t : State ν κ) (n : ν) (k : Nat) : Prop :=
  k = 0 ∨ ∃ T N, t.Chosen members T N ∧ k ≤ N ∧ T ≤ t.term n ∧
    (t.log n).take k = (t.leaderLog T).take k

end State

structure LogInv (t : State ν κ) : Prop where
  log : ∀ n, Matches t.leaderLog (t.log n)
  leaderLog : ∀ T, Matches t.leaderLog (t.leaderLog T)
  bid : ∀ c T l, t.bid c T = some l → Matches t.leaderLog l
  logTerm : ∀ n, ∀ e ∈ t.log n, e.term ≤ t.term n
  leaderTerm : ∀ T, ∀ e ∈ t.leaderLog T, e.term ≤ T
  bidTerm : ∀ c T l, t.bid c T = some l → ∀ e ∈ l, e.term < T
  ascending : ∀ T, Ascending (t.leaderLog T)
  unled : ∀ T, t.leader T = none → t.leaderLog T = []
  leads : ∀ n, t.leading n → t.leader (t.term n) = some n ∧ t.leaderLog (t.term n) = t.log n
  bid_le : ∀ c T, t.bid c T ≠ none → T ≤ t.term c

structure ChoiceInv (members : Finset ν) (t : State ν κ) : Prop where
  ballot_le : ∀ v c T, t.ballot v c T → T ≤ t.term v ∧ t.bid c T ≠ none
  acked_le : ∀ v T N, t.acked v T N → N ≤ (t.leaderLog T).length
  /-- A quorum has reached the term of every leader. -/
  elected : ∀ T c, t.leader T = some c →
    ∃ Q, IsQuorum members Q ∧ ∀ v ∈ Q, T ≤ t.term v
  /-- A node keeps what it held, as long as that may be chosen. -/
  kept : ∀ v T N, t.Choosable members T N → t.Holds v T N →
    T ≤ t.term v ∧ (t.log v).take N = (t.leaderLog T).take N
  /-- A node votes only for bids with all it held that may be chosen. -/
  carried : ∀ v c T' l, (v = c ∨ t.ballot v c T') → t.bid c T' = some l →
    ∀ T N, T < T' → t.Choosable members T N → t.Holds v T N →
      l.take N = (t.leaderLog T).take N
  /-- Later leaders have all that may be chosen. -/
  complete : ∀ T' c, t.leader T' = some c → ∀ T N, T < T' → t.Choosable members T N →
    (t.leaderLog T').take N = (t.leaderLog T).take N

/-- A request is a part of the log of its leader, and what it calls committed is chosen. -/
structure Genuine (members : Finset ν) (t : State ν κ) (r : Request κ) : Prop where
  led : t.leader r.term ≠ none
  segment : Segment r.term (t.leaderLog r.term) r.prev r.entries
  prevTerm : termAt (t.leaderLog r.term) r.prev = r.prevTerm
  commit_le : r.commit ≤ r.prev + r.entries.length
  commit : r.commit = 0 ∨ ∃ T N, t.Chosen members T N ∧ r.commit ≤ N ∧ T ≤ r.term

structure CommitInv (members : Finset ν) (t : State ν κ) : Prop where
  sent : ∀ r, t.sent r → Genuine members t r
  learned : ∀ n k, t.learned n k → t.Covered members n k
  applied : ∀ n i c, t.applied n i c → ∃ T N, t.Chosen members T N ∧ 0 < i ∧ i ≤ N ∧
    ((t.leaderLog T)[i - 1]?).map Entry.command = some c

structure Inv (members : Finset ν) (t : State ν κ) : Prop where
  logs : LogInv t
  choices : ChoiceInv members t
  commits : CommitInv members t

/-! ## What every step keeps -/

/-- What only grows: terms, leaders with their logs, and what nodes hold, which a node adds to only
in a term it has not passed. -/
structure Grows (t t' : State ν κ) : Prop where
  term : ∀ v, t.term v ≤ t'.term v
  leader : ∀ T c, t.leader T = some c → t'.leader T = some c
  leaderLog : ∀ T, t.leaderLog T <+: t'.leaderLog T
  holds : ∀ v T N, t.Holds v T N → t'.Holds v T N
  fresh : ∀ v T N, t'.Holds v T N → t.Holds v T N ∨ t.term v ≤ T

section Grows

variable {members : Finset ν} {t t' : State ν κ} {T N : Nat}

theorem Grows.take (h : Grows t t') (hN : N ≤ (t.leaderLog T).length) :
    (t'.leaderLog T).take N = (t.leaderLog T).take N :=
  take_of_prefix (h.leaderLog T) hN

theorem Grows.getElem? (h : Grows t t') {i : Nat} (hi : i < (t.leaderLog T).length) :
    (t'.leaderLog T)[i]? = (t.leaderLog T)[i]? :=
  getElem?_of_take_eq (h.take hi) (Nat.lt_succ_self i)

theorem Grows.own (h : Grows t t') (hown : t.Own T N) : t'.Own T N := by
  have hle := hown.le_length
  rcases hown with ⟨hpos, e, hget, hterm⟩
  exact ⟨hpos, e, by rw [h.getElem? (by omega), hget], hterm⟩

theorem Grows.chosen (h : Grows t t') (hchosen : t.Chosen members T N) :
    t'.Chosen members T N := by
  rcases hchosen with ⟨hown, Q, hQ, hholds⟩
  exact ⟨h.own hown, Q, hQ, fun v hv => h.holds v T N (hholds v hv)⟩

/-- What may be chosen later may be chosen now, if it is there. -/
theorem Grows.choosable (h : Grows t t') (hown : t.Own T N) (h' : t'.Choosable members T N) :
    t.Choosable members T N := by
  rcases h' with ⟨_, Q, hQ, hopen⟩
  refine ⟨hown, Q, hQ, fun v hv => ?_⟩
  rcases hopen v hv with hholds | hle
  · exact h.fresh v T N hholds
  · exact .inr ((h.term v).trans hle)

theorem Grows.genuine (h : Grows t t') {r : Request κ} (hr : Genuine members t r) :
    Genuine members t' r where
  led := by
    rcases Option.ne_none_iff_exists'.1 hr.led with ⟨c, hc⟩
    simp [h.leader _ c hc]
  segment := hr.segment.mono (h.leaderLog r.term)
  prevTerm := by
    have hbound := hr.segment.bound
    rw [termAt_of_take_eq (h.take hbound) (Nat.le_add_right _ _), hr.prevTerm]
  commit_le := hr.commit_le
  commit := by
    rcases hr.commit with hzero | ⟨T, N, hchosen, hle, hT⟩
    · exact .inl hzero
    · exact .inr ⟨T, N, h.chosen hchosen, hle, hT⟩

theorem Grows.refl (t : State ν κ) : Grows t t where
  term _ := le_rfl
  leader _ _ h := h
  leaderLog _ := List.prefix_refl _
  holds _ _ _ h := h
  fresh _ _ _ h := .inl h

theorem Grows.trans {t'' : State ν κ} (h : Grows t t') (h' : Grows t' t'') : Grows t t'' where
  term v := (h.term v).trans (h'.term v)
  leader T c hc := h'.leader T c (h.leader T c hc)
  leaderLog T := (h.leaderLog T).trans (h'.leaderLog T)
  holds v T N hN := h'.holds v T N (h.holds v T N hN)
  fresh v T N hN := by
    rcases h'.fresh v T N hN with hheld | hle
    · exact h.fresh v T N hheld
    · exact .inr ((h.term v).trans hle)

end Grows

/-! ## Requests meeting logs -/

/-- Logs with the same term at an index agree up to it. -/
theorem Matches.take_eq {L : Nat → List (Entry κ)} {l l' : List (Entry κ)} (h : Matches L l)
    (h' : Matches L l') {i : Nat} (hi : i ≤ l.length) (hi' : i ≤ l'.length)
    (hterm : termAt l i = termAt l' i) : l.take i = l'.take i := by
  cases i with
  | zero => rfl
  | succ i =>
      have hget : l[i]? = some l[i] := List.getElem?_eq_getElem hi
      have hget' : l'[i]? = some l'[i] := List.getElem?_eq_getElem hi'
      have hsame : l[i].term = l'[i].term := by simpa [termAt, hget, hget'] using hterm
      calc l.take (i + 1)
          = (L l[i].term).take (i + 1) := h i _ hget
        _ = (L l'[i].term).take (i + 1) := by rw [hsame]
        _ = l'.take (i + 1) := (h' i _ hget').symm

theorem Matches.splice {L : Nat → List (Entry κ)} {l : List (Entry κ)} (h : Matches L l)
    {T i : Nat} {cs : List κ} (hL : Matches L (L T)) (hseg : Segment T (L T) i cs)
    (hi : l.take i = (L T).take i) : Matches L (Replication.splice T l i cs) := by
  rcases splice_eq (h.follows T) hseg hi with ⟨hsplice, _⟩ | ⟨hsplice, _⟩
  · rw [hsplice]
    exact h
  · rw [hsplice]
    exact hL.take _

/-- Entries of one term are determined by their commands. -/
theorem map_command {T : Nat} {l : List (Entry κ)} (h : ∀ e ∈ l, e.term = T) :
    (l.map Entry.command).map (Entry.mk T) = l := by
  induction l with
  | nil => rfl
  | cons e l ih =>
      rcases List.forall_mem_cons.1 h with ⟨he, hrest⟩
      simp [← he, he ▸ ih hrest]

/-- What a matching log has after an index, if it is of one term and not nothing, is a part of the
log of the term's leader. -/
theorem Matches.segment {L : Nat → List (Entry κ)} {l : List (Entry κ)} (h : Matches L l) {T i : Nat}
    (hne : l.drop i ≠ []) (hterms : ∀ e ∈ l.drop i, e.term = T) :
    Segment T (L T) i ((l.drop i).map Entry.command) ∧ termAt (L T) i = termAt l i := by
  have hi : i < l.length := by
    by_contra hge
    exact hne (List.drop_eq_nil_of_le (Nat.le_of_not_lt hge))
  -- the last entry is of the term, so the whole log comes from the leader's
  have hlast : l[l.length - 1]? = some l[l.length - 1] := List.getElem?_eq_getElem (by omega)
  have hmem : l[l.length - 1] ∈ l.drop i := by
    refine List.mem_iff_getElem?.2 ⟨l.length - 1 - i, ?_⟩
    rw [List.getElem?_drop, ← hlast]
    congr 1
    omega
  have hsame : (L T).take l.length = l := by
    have htake := h _ _ hlast
    rw [hterms _ hmem, Nat.sub_add_cancel (by omega), List.take_length] at htake
    exact htake.symm
  have hlength : l.length ≤ (L T).length :=
    le_length_of_take_eq (hsame.trans List.take_length.symm) le_rfl
  refine ⟨⟨?_, ?_⟩, ?_⟩
  · simp only [List.length_map, List.length_drop]
    omega
  · calc ((L T).drop i).take ((l.drop i).map Entry.command).length
        = ((L T).take l.length).drop i := by
          rw [List.length_map, List.length_drop, List.take_drop]
          congr 2
          omega
      _ = l.drop i := by rw [hsame]
      _ = ((l.drop i).map Entry.command).map (Entry.mk T) := (map_command hterms).symm
  · exact termAt_of_take_eq (hsame.trans List.take_length.symm) hi.le

/-- The log agrees with the leader's up to the index that the request follows. -/
theorem Genuine.take_prev {members : Finset ν} {t : State ν κ} {r : Request κ}
    (hr : Genuine members t r) (h : LogInv t) {v : ν} (hle : r.prev ≤ (t.log v).length)
    (hsame : termAt (t.log v) r.prev = r.prevTerm) :
    (t.log v).take r.prev = (t.leaderLog r.term).take r.prev := by
  refine (h.log v).take_eq (h.leaderLog r.term) hle ?_ (hsame.trans hr.prevTerm.symm)
  exact (Nat.le_add_right _ _).trans hr.segment.bound

/-- A leader has everything that may be chosen in the terms up to its own. -/
theorem ChoiceInv.leader_take {members : Finset ν} {t : State ν κ} (h : ChoiceInv members t) {T T' N : Nat}
    (hled : t.leader T' ≠ none) (hT : T ≤ T') (hopen : t.Choosable members T N) :
    (t.leaderLog T').take N = (t.leaderLog T).take N := by
  rcases Nat.eq_or_lt_of_le hT with rfl | hlt
  · rfl
  · rcases Option.ne_none_iff_exists'.1 hled with ⟨c, hc⟩
    exact h.complete T' c hc T N hlt hopen

/-- A log at least as recent as one with a choosable entry has that entry and all before it. -/
theorem UpToDate.take_eq {members : Finset ν} {t : State ν κ} (h : Inv members t) {c v : ν} {T T' N : Nat} {l : List (Entry κ)}
    (hrecent : UpToDate l (t.log v)) (hbid : t.bid c T' = some l)
    (hopen : t.Choosable members T N) (hsame : (t.log v).take N = (t.leaderLog T).take N) :
    l.take N = (t.leaderLog T).take N := by
  rcases hopen.1 with ⟨hpos, e, hget, hterm⟩
  -- the voter has the entry, so its last term is no smaller
  have hgetv : (t.log v)[N - 1]? = some e := by
    rw [getElem?_of_take_eq hsame (by omega), hget]
  have hlength : N ≤ (t.log v).length := by
    have hlt := lt_length_of_getElem? hgetv
    omega
  have hmine : T ≤ lastTerm (t.log v) := by
    have hne : t.log v ≠ [] := List.ne_nil_of_length_pos (by omega)
    rcases lastTerm_eq hne with ⟨last, hlast, heq⟩
    rw [heq, ← hterm]
    exact ((h.logs.log v).ascending h.logs.ascending).le (by omega) hgetv hlast
  have hmatches := h.logs.bid c T' l hbid
  -- and the candidate is not behind the voter
  have hle : lastTerm (t.log v) ≤ lastTerm l := by
    rcases hrecent with hlt | ⟨heq, _⟩
    · exact hlt.le
    · exact heq.ge
  have hne : l ≠ [] := by
    rintro rfl
    rcases hrecent with hlt | ⟨_, hshort⟩
    · simp [lastTerm, termAt] at hlt
    · simp only [List.length_nil] at hshort
      omega
  have hl := hmatches.eq_take hne
  rcases Nat.eq_or_lt_of_le (hmine.trans hle) with heq | hlt
  · -- both logs end in the term of the entry
    have hN : N ≤ l.length := by
      rcases hrecent with hless | ⟨_, hshort⟩
      · omega
      · omega
    calc l.take N
        = ((t.leaderLog T).take l.length).take N := by rw [heq, ← hl]
      _ = (t.leaderLog T).take N := by rw [List.take_take, Nat.min_eq_left hN]
  · -- the leader of the last term of `l` has the entry, and before that term
    rcases lastTerm_eq hne with ⟨last, hlast, hlastTerm⟩
    have hin : (t.leaderLog (lastTerm l))[l.length - 1]? = some last := by
      have hpos' : 0 < l.length := List.length_pos_iff.2 hne
      have htake : l.take l.length = (t.leaderLog (lastTerm l)).take l.length := by
        rw [List.take_length]
        exact hl
      have hgetl : l[l.length - 1]? = (t.leaderLog (lastTerm l))[l.length - 1]? :=
        getElem?_of_take_eq htake (by omega)
      rw [← hgetl, hlast]
    have hled : t.leader (lastTerm l) ≠ none := by
      intro hnone
      simp [h.logs.unled _ hnone] at hin
    have href := h.choices.leader_take hled hlt.le hopen
    -- a shorter log would end before the entry, under a term no greater
    have hN : N ≤ l.length := by
      by_contra hshort
      have hgetN : (t.leaderLog (lastTerm l))[N - 1]? = some e := by
        rw [getElem?_of_take_eq href (by omega), hget]
      have hterms := (h.logs.ascending (lastTerm l)).le (by omega) hin hgetN
      omega
    calc l.take N
        = ((t.leaderLog (lastTerm l)).take l.length).take N := by rw [← hl]
      _ = (t.leaderLog (lastTerm l)).take N := by rw [List.take_take, Nat.min_eq_left hN]
      _ = (t.leaderLog T).take N := href

/-- What a node has taken for committed is in its log, and so within its length. -/
theorem State.Covered.le_length {members : Finset ν} {t : State ν κ} {n : ν} {k : Nat} (h : t.Covered members n k) :
    k ≤ (t.log n).length := by
  rcases h with rfl | ⟨T, N, hchosen, hk, _, hsame⟩
  · exact Nat.zero_le _
  · exact le_length_of_take_eq hsame (hk.trans hchosen.1.le_length)

theorem inv_start (members : Finset ν) : Inv members (State.start ν κ) where
  logs := by
    constructor <;> simp [State.start, Matches, Ascending]
  choices := by
    constructor <;> simp [State.start, State.Holds]
  commits := by
    constructor <;> simp [State.start]

/-- Chosen entries of any two terms agree. -/
theorem Inv.chosen_agree {members : Finset ν} {t : State ν κ} (h : Inv members t) {T T' N N' i : Nat} (hchosen : t.Chosen members T N)
    (hchosen' : t.Chosen members T' N') (hi : i < N) (hi' : i < N') :
    (t.leaderLog T)[i]? = (t.leaderLog T')[i]? := by
  have hled : ∀ {T N}, t.Chosen members T N → t.leader T ≠ none := by
    intro T N hown hnone
    have hle := hown.1.le_length
    have hpos := hown.1.1
    simp only [h.logs.unled T hnone, List.length_nil] at hle
    omega
  rcases Nat.le_total T T' with hT | hT
  · have hsame := h.choices.leader_take (hled hchosen') hT hchosen.choosable
    exact (getElem?_of_take_eq hsame hi).symm
  · exact getElem?_of_take_eq (h.choices.leader_take (hled hchosen) hT hchosen'.choosable) hi'

/-- What is chosen in the logs of two nodes is the same. -/
theorem Inv.covered_agree {members : Finset ν} {t : State ν κ} (h : Inv members t) {n v : ν} {k : Nat}
    (hn : t.Covered members n k) (hv : t.Covered members v k) : (t.log v).take k = (t.log n).take k := by
  rcases hn with rfl | ⟨T, N, hchosen, hN, _, hsame⟩
  · rw [List.take_zero, List.take_zero]
  rcases hv with rfl | ⟨T', N', hchosen', hN', _, hsame'⟩
  · rw [List.take_zero, List.take_zero]
  rw [hsame, hsame']
  refine List.ext_getElem? fun i => ?_
  rw [List.getElem?_take, List.getElem?_take]
  split_ifs with hi
  · exact h.chosen_agree hchosen' hchosen (hi.trans_le hN') (hi.trans_le hN)
  · rfl

end Replication
end Library
end ControlDB
