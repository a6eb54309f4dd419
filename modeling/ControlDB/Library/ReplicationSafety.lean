import ControlDB.Library.ReplicationInvariant

/-!
# Safety of the replicated log

Every step keeps the invariant, and so no two nodes apply different commands at one index.
-/

namespace ControlDB
namespace Library
namespace Replication

open Function (update)

variable {ν κ : Type}

section Steps

variable [DecidableEq ν] {members : Finset ν} {t t' : State ν κ}

theorem le_update {f : ν → Nat} {n : ν} {x : Nat} (h : f n ≤ x) (v : ν) : f v ≤ update f n x v := by
  rcases eq_or_ne v n with rfl | hne
  · simpa using h
  · simp [hne]

omit [DecidableEq ν] in
/-- A step that leaves alone who leads, with which log, and what nodes hold. -/
theorem Grows.of_term (hterm : ∀ v, t.term v ≤ t'.term v) (hleader : t'.leader = t.leader)
    (hlog : t'.leaderLog = t.leaderLog) (hholds : ∀ v T N, t'.Holds v T N ↔ t.Holds v T N) :
    Grows t t' where
  term := hterm
  leader _ _ h := hleader ▸ h
  leaderLog _ := hlog ▸ List.prefix_refl _
  holds v T N h := (hholds v T N).2 h
  fresh v T N h := .inl ((hholds v T N).1 h)

theorem Step.grows (hlogs : LogInv t) (h : Step members t t') : Grows t t' := by
  cases h with
  | raise n T hlt =>
      exact .of_term (le_update hlt.le) rfl rfl fun _ _ _ => Iff.rfl
  | yield n =>
      exact .of_term (fun _ => le_rfl) rfl rfl fun _ _ _ => Iff.rfl
  | stand n =>
      exact .of_term (le_update (Nat.le_succ _)) rfl rfl fun _ _ _ => Iff.rfl
  | grant v c l hbid hrecent =>
      exact .of_term (fun _ => le_rfl) rfl rfl fun _ _ _ => Iff.rfl
  | win c Q hbid hnone hQ hvotes =>
      have hleader : ∀ T w, t.leader T = some w →
          T ≠ t.term c ∧ update t.leader (t.term c) (some c) T = some w := by
        intro T w hT
        have hne : T ≠ t.term c := by
          rintro rfl
          simp [hnone] at hT
        exact ⟨hne, by simp [hne, hT]⟩
      refine ⟨fun _ => le_rfl, fun T w hT => (hleader T w hT).2, fun T => ?_, ?_, ?_⟩
      · rcases eq_or_ne T (t.term c) with rfl | hne
        · simp [hlogs.unled _ hnone]
        · simp [hne]
      · rintro v T N (hacked | ⟨hT, hN⟩)
        · exact .inl hacked
        · rcases hleader T v hT with ⟨hne, hsome⟩
          exact .inr ⟨hsome, by simpa [hne] using hN⟩
      · rintro v T N (hacked | ⟨hT, hN⟩)
        · exact .inl (.inl hacked)
        · rcases eq_or_ne T (t.term c) with rfl | hne
          · -- the new leader is in the term it leads
            have hv : c = v := by simpa using hT
            exact .inr (hv ▸ le_rfl)
          · exact .inl (.inr ⟨by simpa [hne] using hT, by simpa [hne] using hN⟩)
  | extend n command hleads =>
      rcases hlogs.leads n hleads with ⟨hleader, hlog⟩
      have hprefix' : ∀ T, t.leaderLog T <+:
          update t.leaderLog (t.term n) (t.log n ++ [⟨t.term n, command⟩]) T := by
        intro T
        rcases eq_or_ne T (t.term n) with rfl | hne
        · simp [hlog]
        · simp [hne]
      refine ⟨fun _ => le_rfl, fun _ _ h => h, hprefix', ?_, ?_⟩
      · rintro v T N (hacked | ⟨hT, hN⟩)
        · exact .inl hacked
        · exact .inr ⟨hT, hN.trans (hprefix' T).length_le⟩
      · rintro v T N (hacked | ⟨hT, hN⟩)
        · exact .inl (.inl hacked)
        · rcases eq_or_ne T (t.term n) with rfl | hne
          · have hv : n = v := by simpa [hleader] using hT
            exact .inr (hv ▸ le_rfl)
          · exact .inl (.inr ⟨hT, by simpa [hne] using hN⟩)
  | send n prev commit hleads hprev hown hcommit =>
      exact .of_term (fun _ => le_rfl) rfl rfl fun _ _ _ => Iff.rfl
  | cut v r hidle hsent hterm hle hdiffers =>
      exact .of_term (fun _ => le_rfl) rfl rfl fun _ _ _ => Iff.rfl
  | accept v r hidle hsent hterm hle hsame =>
      refine ⟨fun _ => le_rfl, fun _ _ h => h, fun _ => List.prefix_refl _, ?_, ?_⟩
      · rintro w T N (⟨N', hN, hacked⟩ | hled)
        · exact .inl ⟨N', hN, .inl hacked⟩
        · exact .inr hled
      · rintro w T N (⟨N', hN, hacked | ⟨rfl, rfl, _⟩⟩ | hled)
        · exact .inl (.inl ⟨N', hN, hacked⟩)
        · -- only a node in the term of the request accepts it
          exact .inr hterm.le
        · exact .inl (.inr hled)
  | settle n N e Q hleads hget hown hQ hholds =>
      exact .of_term (fun _ => le_rfl) rfl rfl fun _ _ _ => Iff.rfl
  | perform n k i e hlearned hi hget =>
      exact .of_term (fun _ => le_rfl) rfl rfl fun _ _ _ => Iff.rfl

/-! ## The logs -/

/-- A node that does not lead replaces its log by one that still matches. -/
theorem LogInv.replace (h : LogInv t) {v : ν} {l : List (Entry κ)} (hidle : ¬ t.leading v)
    (hmatches : Matches t.leaderLog l) (hterms : ∀ e ∈ l, e.term ≤ t.term v) :
    LogInv { t with log := update t.log v l } :=
  { h with
    log := (Function.forall_update_iff _ fun _ l => Matches t.leaderLog l).2
      ⟨hmatches, fun n _ => h.log n⟩
    logTerm := (Function.forall_update_iff _
      fun n (l : List (Entry κ)) => ∀ e ∈ l, e.term ≤ t.term n).2 ⟨hterms, fun n _ => h.logTerm n⟩
    leads := by
      intro n hn
      have hne : n ≠ v := by
        rintro rfl
        exact hidle hn
      simpa [hne] using h.leads n hn }

/-- A node that stops leading may change its term. -/
theorem LogInv.leads_stopped (h : LogInv t) {n : ν} (T : Nat) :
    ∀ v, update t.leading n False v →
      t.leader (update t.term n T v) = some v ∧ t.leaderLog (update t.term n T v) = t.log v := by
  intro v hv
  rcases eq_or_ne v n with rfl | hne
  · simp at hv
  · simpa [hne] using h.leads v (by simpa [hne] using hv)

/-- A node that stands for the next term adds one bid. -/
theorem bid_update {n c : ν} {T T' : Nat} {l l' : List (Entry κ)}
    (hl : update t.bid n (update (t.bid n) T' (some l')) c T = some l) :
    t.bid c T = some l ∨ c = n ∧ T = T' ∧ l = l' := by
  rcases eq_or_ne c n with rfl | hne
  · rcases eq_or_ne T T' with rfl | hT
    · exact .inr ⟨rfl, rfl, by simpa using hl.symm⟩
    · exact .inl (by simpa [hT] using hl)
  · exact .inl (by simpa [hne] using hl)

theorem LogInv.stand (h : LogInv t) (n : ν) :
    LogInv { t with
      term := update t.term n (t.term n + 1)
      leading := update t.leading n False
      bid := update t.bid n (update (t.bid n) (t.term n + 1) (some (t.log n))) } :=
  { h with
    bid := by
      intro c T l hl
      rcases bid_update hl with hold | ⟨rfl, rfl, rfl⟩
      · exact h.bid c T l hold
      · exact h.log c
    logTerm := fun v e he => (h.logTerm v e he).trans (le_update (Nat.le_succ _) v)
    bidTerm := by
      intro c T l hl e he
      rcases bid_update hl with hold | ⟨rfl, rfl, rfl⟩
      · exact h.bidTerm c T l hold e he
      · exact Nat.lt_succ_of_le (h.logTerm c e he)
    bid_le := by
      intro c T hT
      rcases Option.ne_none_iff_exists'.1 hT with ⟨l, hl⟩
      rcases bid_update hl with hold | ⟨rfl, rfl, rfl⟩
      · exact (h.bid_le c T (by simp [hold])).trans (le_update (Nat.le_succ _) c)
      · simp
    leads := h.leads_stopped _ }

/-- The log of a new leader becomes the log of its term. -/
theorem LogInv.win (h : LogInv t) {c : ν} (hnone : t.leader (t.term c) = none)
    (hlonger : ∀ T, t.leaderLog T <+: update t.leaderLog (t.term c) (t.log c) T) :
    LogInv { t with
      leading := update t.leading c True
      leader := update t.leader (t.term c) (some c)
      leaderLog := update t.leaderLog (t.term c) (t.log c) } := by
  have hmono : ∀ {l}, Matches t.leaderLog l →
      Matches (update t.leaderLog (t.term c) (t.log c)) l := fun hl => hl.mono hlonger
  have hlog : ∀ {P : Nat → List (Entry κ) → Prop}, P (t.term c) (t.log c) →
      (∀ T, P T (t.leaderLog T)) → ∀ T, P T (update t.leaderLog (t.term c) (t.log c) T) :=
    fun hc hall => (Function.forall_update_iff _ _).2 ⟨hc, fun T _ => hall T⟩
  exact { h with
    log := fun n => hmono (h.log n)
    leaderLog := hlog (hmono (h.log c)) fun T => hmono (h.leaderLog T)
    bid := fun c' T l hl => hmono (h.bid c' T l hl)
    leaderTerm := hlog (P := fun T l => ∀ e ∈ l, e.term ≤ T) (h.logTerm c) h.leaderTerm
    ascending := hlog (P := fun _ l => Ascending l) ((h.log c).ascending h.ascending) h.ascending
    unled := by
      intro T hT
      rcases eq_or_ne T (t.term c) with rfl | hne
      · simp at hT
      · simpa [hne] using h.unled T (by simpa [hne] using hT)
    leads := by
      intro n hn
      rcases eq_or_ne n c with rfl | hne
      · simp
      · have hold := h.leads n (by simpa [hne] using hn)
        have hterm : t.term n ≠ t.term c := by
          intro hsame
          rw [hsame, hnone] at hold
          simp at hold
        simpa [hterm] using hold }

/-- The same entry goes into the log of a leader and into the leader's log of the term. -/
theorem LogInv.extend (h : LogInv t) {n : ν} {command : κ} (hleads : t.leading n)
    (hlonger : ∀ T, t.leaderLog T <+:
      update t.leaderLog (t.term n) (t.log n ++ [⟨t.term n, command⟩]) T) :
    LogInv { t with
      log := update t.log n (t.log n ++ [⟨t.term n, command⟩])
      leaderLog := update t.leaderLog (t.term n) (t.log n ++ [⟨t.term n, command⟩]) } := by
  rcases h.leads n hleads with ⟨hleader, hlog⟩
  generalize hlonger' : t.log n ++ [⟨t.term n, command⟩] = extended at hlonger ⊢
  have hmono : ∀ {l}, Matches t.leaderLog l →
      Matches (update t.leaderLog (t.term n) extended) l := fun hl => hl.mono hlonger
  have hterms : ∀ e ∈ extended, e.term ≤ t.term n := by
    rw [← hlonger', List.forall_mem_append]
    exact ⟨h.logTerm n, by simp⟩
  have hnew : Matches (update t.leaderLog (t.term n) extended) extended := by
    rw [← hlonger'] at hmono ⊢
    exact (hmono (h.log n)).concat (by simp)
  have hascending : Ascending extended := by
    rw [← hlonger']
    refine List.pairwise_append.2 ⟨(h.log n).ascending h.ascending, List.pairwise_singleton _ _, ?_⟩
    intro e he e' he'
    simpa [List.mem_singleton.1 he'] using h.logTerm n e he
  exact { h with
    log := (Function.forall_update_iff _ fun _ l => Matches _ l).2
      ⟨hnew, fun v _ => hmono (h.log v)⟩
    leaderLog := (Function.forall_update_iff _ fun _ l => Matches _ l).2
      ⟨hnew, fun T _ => hmono (h.leaderLog T)⟩
    bid := fun c T l hl => hmono (h.bid c T l hl)
    logTerm := (Function.forall_update_iff _ fun v (l : List (Entry κ)) => ∀ e ∈ l, e.term ≤ t.term v).2
      ⟨hterms, fun v _ => h.logTerm v⟩
    leaderTerm := (Function.forall_update_iff _ fun T (l : List (Entry κ)) => ∀ e ∈ l, e.term ≤ T).2
      ⟨hterms, fun T _ => h.leaderTerm T⟩
    ascending := (Function.forall_update_iff _ fun _ l => Ascending l).2
      ⟨hascending, fun T _ => h.ascending T⟩
    unled := by
      intro T hT
      rcases eq_or_ne T (t.term n) with rfl | hne
      · simp [hleader] at hT
      · simpa [hne] using h.unled T hT
    leads := by
      intro v hv
      rcases eq_or_ne v n with rfl | hne
      · simpa using hleader
      · have hold := h.leads v hv
        have hterm : t.term v ≠ t.term n := by
          intro hsame
          rw [hsame, hleader] at hold
          exact hne (Option.some.inj hold.1).symm
        simpa [hne, hterm] using hold }

theorem LogInv.step (h : LogInv t) (hsent : ∀ r, t.sent r → Genuine members t r)
    (hstep : Step members t t') : LogInv t' := by
  have hgrows : Grows t t' := hstep.grows h
  cases hstep with
  | raise n T hlt =>
      exact { h with
        logTerm := fun v e he => (h.logTerm v e he).trans (hgrows.term v)
        bid_le := fun c T' hT' => (h.bid_le c T' hT').trans (hgrows.term c)
        leads := h.leads_stopped T }
  | yield n =>
      have hleads := h.leads_stopped (n := n) (t.term n)
      rw [Function.update_eq_self] at hleads
      exact { h with leads := hleads }
  | stand n => exact h.stand n
  | grant v c l hbid hrecent => exact { h with }
  | win c Q hbid hnone hQ hvotes => exact h.win hnone hgrows.leaderLog
  | extend n command hleads => exact h.extend hleads hgrows.leaderLog
  | send n prev commit hleads hprev hown hcommit => exact { h with }
  | cut v r hidle hr hterm hle hdiffers =>
      exact h.replace hidle ((h.log v).take _) fun e he => h.logTerm v e (List.mem_of_mem_take he)
  | accept v r hidle hr hterm hle hsame =>
      have hr := hsent r hr
      have hprev := hr.take_prev h hle hsame
      have hterms : ∀ e ∈ splice r.term (t.log v) r.prev r.entries, e.term ≤ t.term v := by
        intro e he
        rcases splice_eq ((h.log v).follows r.term) hr.segment hprev with
          ⟨hsplice, _⟩ | ⟨hsplice, _⟩
        · exact h.logTerm v e (hsplice ▸ he)
        · rw [hterm]
          exact h.leaderTerm r.term e (List.mem_of_mem_take (hsplice ▸ he))
      have hreplaced := h.replace hidle
        ((h.log v).splice (h.leaderLog r.term) hr.segment hprev) hterms
      exact { hreplaced with }
  | settle n N e Q hleads hget hown hQ hholds => exact { h with }
  | perform n k i e hlearned hi hget => exact { h with }

/-! ## Entries that may be chosen -/

/-- No step takes from a log what may be chosen in a term its node has reached. -/
theorem Step.keeps (h : Inv members t) (hstep : Step members t t') {v : ν} {T N k : Nat}
    (hopen : t.Choosable members T N) (hk : k ≤ N) (hT : T ≤ t.term v)
    (hsame : (t.log v).take k = (t.leaderLog T).take k) :
    (t'.log v).take k = (t.leaderLog T).take k := by
  cases hstep with
  | extend n command hleads =>
      rcases eq_or_ne v n with rfl | hne
      · have hlength : k ≤ (t.log v).length :=
          le_length_of_take_eq hsame (hk.trans hopen.1.le_length)
        simpa [take_append_of_le hlength] using hsame
      · simpa [hne] using hsame
  | cut w r hidle hr hterm hle hdiffers =>
      rcases eq_or_ne v w with rfl | hne
      · have href : (t.leaderLog r.term).take k = (t.leaderLog T).take k :=
          take_eq_of_le
            (h.choices.leader_take (h.commits.sent r hr).led (hterm ▸ hT) hopen) hk
        rw [← (h.commits.sent r hr).prevTerm] at hdiffers
        simpa [href] using cut_keeps hdiffers (hsame.trans href.symm)
      · simpa [hne] using hsame
  | accept w r hidle hr hterm hle hprev =>
      rcases eq_or_ne v w with rfl | hne
      · have hgenuine := h.commits.sent r hr
        have href : (t.leaderLog r.term).take k = (t.leaderLog T).take k :=
          take_eq_of_le (h.choices.leader_take hgenuine.led (hterm ▸ hT) hopen) hk
        have hkeeps := splice_keeps ((h.logs.log v).follows r.term) hgenuine.segment
          (hgenuine.take_prev h.logs hle hprev) (hsame.trans href.symm)
        simpa [href] using hkeeps
      · simpa [hne] using hsame
  | _ => exact hsame

/-- A leader's own entry was there before the step, or it is new and only the leader holds it. -/
theorem Step.own (hlogs : LogInv t) (hacked : ∀ v T N, t.acked v T N → N ≤ (t.leaderLog T).length)
    (hstep : Step members t t') {T N : Nat} (hown : t'.Own T N) :
    t.Own T N ∨ ∀ v, t'.Holds v T N → t'.term v = T ∧ t'.log v = t'.leaderLog T := by
  cases hstep with
  | win c Q hbid hnone hQ hvotes =>
      rcases hown with ⟨hpos, e, hget, hterm⟩
      rcases eq_or_ne T (t.term c) with rfl | hne
      · -- a bid has no entry of its own term
        have hlt := hlogs.bidTerm c _ _ hbid e (List.mem_of_getElem? (by simpa using hget))
        omega
      · exact .inl ⟨hpos, e, by simpa [hne] using hget, hterm⟩
  | extend n command hleads =>
      rcases hlogs.leads n hleads with ⟨hleader, hlog⟩
      rcases hown with ⟨hpos, e, hget, hterm⟩
      rcases eq_or_ne T (t.term n) with rfl | hne
      · rcases Nat.lt_or_ge (N - 1) (t.log n).length with hlt | hge
        · refine .inl ⟨hpos, e, ?_, hterm⟩
          simpa [hlog, List.getElem?_append_left hlt] using hget
        · refine .inr fun v hholds => ?_
          rcases hholds with ⟨N', hN, hack⟩ | ⟨hled, _⟩
          · have hbound := hacked v _ _ hack
            rw [hlog] at hbound
            omega
          · have hv : n = v := by simpa [hleader] using hled
            subst hv
            exact ⟨rfl, by simp⟩
      · exact .inl ⟨hpos, e, by simpa [hne] using hget, hterm⟩
  | _ => exact .inl hown

/-- What a node newly holds of the entries that were there, its log has afterwards. -/
theorem Step.holds (h : Inv members t) (hstep : Step members t t') {v : ν} {T N : Nat}
    (hown : t.Own T N) (hholds : t'.Holds v T N) :
    t.Holds v T N ∨ T ≤ t.term v ∧ (t'.log v).take N = (t.leaderLog T).take N := by
  cases hstep with
  | win c Q hbid hnone hQ hvotes =>
      rcases hholds with hacked | ⟨hled, hN⟩
      · exact .inl (.inl hacked)
      · rcases eq_or_ne T (t.term c) with rfl | hne
        · have hempty := hown.le_length
          have hpos := hown.1
          simp only [h.logs.unled _ hnone, List.length_nil] at hempty
          omega
        · exact .inl (.inr ⟨by simpa [hne] using hled, hown.le_length⟩)
  | extend n command hleads =>
      rcases hholds with hacked | ⟨hled, _⟩
      · exact .inl (.inl hacked)
      · exact .inl (.inr ⟨hled, hown.le_length⟩)
  | accept w r hidle hr hterm hle hprev =>
      rcases hholds with ⟨N', hN, hacked | ⟨rfl, rfl, rfl⟩⟩ | hled
      · exact .inl (.inl ⟨N', hN, hacked⟩)
      · have hgenuine := h.commits.sent r hr
        have htake := splice_take ((h.logs.log v).follows r.term) hgenuine.segment
          (hgenuine.take_prev h.logs hle hprev)
        exact .inr ⟨hterm.ge, by simpa using take_eq_of_le htake hN⟩
      · exact .inl (.inr hled)
  | _ => exact .inl hholds

/-- A vote that counts was there before the step, or it is given in it, and then the node holds
nothing new. -/
theorem Step.votes (h : Inv members t) (hstep : Step members t t') {v c : ν} {T : Nat}
    {l : List (Entry κ)} (hvote : v = c ∨ t'.ballot v c T) (hbid : t'.bid c T = some l) :
    ((v = c ∨ t.ballot v c T) ∧ t.bid c T = some l) ∨
    (∀ T₀ N, t'.Holds v T₀ N → t.Holds v T₀ N) ∧
      (T = t.term v ∧ t.bid c T = some l ∧ UpToDate l (t.log v) ∨
        T = t.term v + 1 ∧ l = t.log v) := by
  cases hstep with
  | stand n =>
      rcases eq_or_ne c n with rfl | hne
      · rcases eq_or_ne T (t.term c + 1) with rfl | hT
        · rcases hvote with rfl | hballot
          · exact .inr ⟨fun _ _ hholds => hholds, .inr ⟨rfl, by simpa using hbid.symm⟩⟩
          · -- nobody votes before the bid is made
            have hle := h.logs.bid_le c _ (h.choices.ballot_le v c _ hballot).2
            omega
        · exact .inl ⟨hvote, by simpa [hT] using hbid⟩
      · exact .inl ⟨hvote, by simpa [hne] using hbid⟩
  | grant w b l' hbid' hrecent =>
      rcases hvote with rfl | hballot | ⟨rfl, rfl, rfl⟩
      · exact .inl ⟨.inl rfl, hbid⟩
      · exact .inl ⟨.inr hballot, hbid⟩
      · have hl : l' = l := Option.some.inj (hbid'.symm.trans hbid)
        exact .inr ⟨fun _ _ hholds => hholds, .inl ⟨rfl, hbid, hl ▸ hrecent⟩⟩
  | _ => exact .inl ⟨hvote, hbid⟩

/-- A leader was elected before the step, or is elected in it by a quorum. -/
theorem Step.leads (hstep : Step members t t') {T : Nat} {c : ν} (hled : t'.leader T = some c) :
    t.leader T = some c ∨ T = t.term c ∧ t.bid c T = some (t'.leaderLog T) ∧
      ∃ Q, IsQuorum members Q ∧ ∀ v ∈ Q, v = c ∨ t.ballot v c T := by
  cases hstep with
  | win b Q hbid hnone hQ hvotes =>
      rcases eq_or_ne T (t.term b) with rfl | hne
      · have hb : b = c := by simpa using hled
        subst hb
        exact .inr ⟨rfl, by simpa using hbid, Q, hQ, hvotes⟩
      · exact .inl (by simpa [hne] using hled)
  | _ => exact .inl hled

/-! ## One step -/

theorem Step.ballot_le (h : Inv members t) (hstep : Step members t t') :
    ∀ v c T, t'.ballot v c T → T ≤ t'.term v ∧ t'.bid c T ≠ none := by
  have hgrows : Grows t t' := hstep.grows h.logs
  have hchoices : ChoiceInv members t := h.choices
  intro v c T hvote
  rcases hbid : t'.bid c T with _ | l
  · -- bids stay, and a vote is given to a bid
    exfalso
    cases hstep with
    | stand n =>
        have hold := (hchoices.ballot_le v c T hvote).2
        rcases eq_or_ne c n with rfl | hne
        · rcases eq_or_ne T (t.term c + 1) with rfl | hT
          · simp at hbid
          · exact hold (by simpa [hT] using hbid)
        · exact hold (by simpa [hne] using hbid)
    | grant w b l' hbid' hrecent =>
        rcases hvote with hold | ⟨rfl, rfl, rfl⟩
        · exact (hchoices.ballot_le v c T hold).2 hbid
        · simp [hbid'] at hbid
    | _ => exact (hchoices.ballot_le v c T hvote).2 hbid
  · refine ⟨?_, by simp⟩
    cases hstep with
    | grant w b l' hbid' hrecent =>
        rcases hvote with hold | ⟨rfl, rfl, rfl⟩
        · exact (hchoices.ballot_le v c T hold).1
        · exact le_rfl
    | _ => exact (hchoices.ballot_le v c T hvote).1.trans (hgrows.term v)

theorem Step.acked_le (h : Inv members t) (hstep : Step members t t') :
    ∀ v T N, t'.acked v T N → N ≤ (t'.leaderLog T).length := by
  have hgrows : Grows t t' := hstep.grows h.logs
  have hchoices : ChoiceInv members t := h.choices
  intro v T N hack
  cases hstep with
  | accept w r hidle hr hterm hle hprev =>
      rcases hack with hold | ⟨rfl, rfl, rfl⟩
      · exact hchoices.acked_le v T N hold
      · exact (h.commits.sent r hr).segment.bound
  | _ => exact (hchoices.acked_le v T N hack).trans (hgrows.leaderLog T).length_le

/-- The quorum that votes for a leader has reached its term. -/
theorem Step.elected (h : Inv members t) (hstep : Step members t t') :
    ∀ T c, t'.leader T = some c → ∃ Q, IsQuorum members Q ∧ ∀ v ∈ Q, T ≤ t'.term v := by
  have hgrows : Grows t t' := hstep.grows h.logs
  have hchoices : ChoiceInv members t := h.choices
  intro T c hled
  rcases hstep.leads hled with hold | ⟨rfl, hbid, Q, hQ, hvotes⟩
  · rcases hchoices.elected T c hold with ⟨Q, hQ, hreached⟩
    exact ⟨Q, hQ, fun v hv => (hreached v hv).trans (hgrows.term v)⟩
  · refine ⟨Q, hQ, fun v hv => ?_⟩
    rcases hvotes v hv with rfl | hvote
    · exact hgrows.term v
    · exact (hchoices.ballot_le v c _ hvote).1.trans (hgrows.term v)

theorem Step.kept (h : Inv members t) (hstep : Step members t t') :
    ∀ v T N, t'.Choosable members T N → t'.Holds v T N →
      T ≤ t'.term v ∧ (t'.log v).take N = (t'.leaderLog T).take N := by
  have hgrows : Grows t t' := hstep.grows h.logs
  have hchoices : ChoiceInv members t := h.choices
  intro v T N hopen' hholds'
  rcases hstep.own h.logs hchoices.acked_le hopen'.1 with hown | hfresh
  · have hopen := hgrows.choosable hown hopen'
    have hgoal : T ≤ t.term v ∧ (t'.log v).take N = (t.leaderLog T).take N := by
      rcases hstep.holds h hown hholds' with hholds | hnew
      · rcases hchoices.kept v T N hopen hholds with ⟨hT, hsame⟩
        exact ⟨hT, hstep.keeps h hopen le_rfl hT hsame⟩
      · exact hnew
    exact ⟨hgoal.1.trans (hgrows.term v), by rw [hgoal.2, hgrows.take hown.le_length]⟩
  · rcases hfresh v hholds' with ⟨hT, hlog⟩
    exact ⟨hT.ge, by rw [hlog]⟩

theorem Step.carried (h : Inv members t) (hlogs' : LogInv t') (hstep : Step members t t') :
    ∀ v c T' l, (v = c ∨ t'.ballot v c T') → t'.bid c T' = some l →
      ∀ T N, T < T' → t'.Choosable members T N → t'.Holds v T N →
        l.take N = (t'.leaderLog T).take N := by
  have hgrows : Grows t t' := hstep.grows h.logs
  have hchoices : ChoiceInv members t := h.choices
  intro v c T' l hvote' hbid' T N hlt hopen' hholds'
  have hreached : T' ≤ t'.term v := by
    rcases hvote' with rfl | hvote
    · exact hlogs'.bid_le v T' (by simp [hbid'])
    · exact (hstep.ballot_le h v c T' hvote).1
  rcases hstep.own h.logs hchoices.acked_le hopen'.1 with hown | hfresh
  · have hopen := hgrows.choosable hown hopen'
    rw [hgrows.take hown.le_length]
    rcases hstep.votes h hvote' hbid' with ⟨hvote, hbid⟩ | ⟨hold, hnew⟩
    · have hpast : T' ≤ t.term v := by
        rcases hvote with rfl | hvote
        · exact h.logs.bid_le v T' (by simp [hbid])
        · exact (hchoices.ballot_le v c T' hvote).1
      -- a node that has voted in a later term holds nothing new of this one
      rcases hgrows.fresh v T N hholds' with hholds | hle
      · exact hchoices.carried v c T' l hvote hbid T N hlt hopen hholds
      · omega
    · have hsame := (hchoices.kept v T N hopen (hold T N hholds')).2
      rcases hnew with ⟨rfl, hbid, hrecent⟩ | ⟨rfl, rfl⟩
      · exact hrecent.take_eq h hbid hopen hsame
      · exact hsame
  · have hT := (hfresh v hholds').1
    omega

theorem Step.complete (h : Inv members t) (hstep : Step members t t') :
    ∀ T' c, t'.leader T' = some c → ∀ T N, T < T' → t'.Choosable members T N →
      (t'.leaderLog T').take N = (t'.leaderLog T).take N := by
  have hgrows : Grows t t' := hstep.grows h.logs
  have hchoices : ChoiceInv members t := h.choices
  intro T' c hled' T N hlt hopen'
  rcases hstep.own h.logs hchoices.acked_le hopen'.1 with hown | hfresh
  · have hopen := hgrows.choosable hown hopen'
    rw [hgrows.take hown.le_length]
    rcases hstep.leads hled' with hled | ⟨rfl, hbid, Q', hQ', hvotes⟩
    · have hsame := hchoices.complete T' c hled T N hlt hopen
      have hlength : N ≤ (t.leaderLog T').length :=
        le_length_of_take_eq hsame hown.le_length
      rw [hgrows.take hlength, hsame]
    · -- the quorum that votes and the one that may choose share a node
      rcases hopen.2 with ⟨Q, hQ, hheld⟩
      rcases hQ.common hQ' with ⟨v, hv, hv'⟩
      have hreached : t.term c ≤ t.term v := by
        rcases hvotes v hv' with rfl | hvote
        · exact le_rfl
        · exact (hchoices.ballot_le v c _ hvote).1
      rcases hheld v hv with hholds | hle
      · exact hchoices.carried v c _ _ (hvotes v hv') hbid T N hlt hopen hholds
      · omega
  · rcases hopen'.2 with ⟨Q, hQ, hheld⟩
    rcases hstep.elected h T' c hled' with ⟨Q', hQ', hreached⟩
    rcases hQ.common hQ' with ⟨v, hv, hv'⟩
    have hT' := hreached v hv'
    rcases hheld v hv with hholds | hle
    · have hT := (hfresh v hholds).1
      omega
    · omega

theorem ChoiceInv.step (h : Inv members t) (hlogs' : LogInv t') (hstep : Step members t t') :
    ChoiceInv members t' where
  ballot_le := hstep.ballot_le h
  acked_le := hstep.acked_le h
  elected := hstep.elected h
  kept := hstep.kept h
  carried := hstep.carried h hlogs'
  complete := hstep.complete h

theorem CommitInv.step (h : Inv members t) (hstep : Step members t t') : CommitInv members t' := by
  have hgrows : Grows t t' := hstep.grows h.logs
  have hsent : ∀ r, t.sent r → Genuine members t' r := fun r hr =>
    hgrows.genuine (h.commits.sent r hr)
  have hlearned : ∀ n k, t.learned n k → t'.Covered members n k := by
    intro n k hk
    rcases h.commits.learned n k hk with rfl | ⟨T, N, hchosen, hle, hT, hsame⟩
    · exact .inl rfl
    · refine .inr ⟨T, N, hgrows.chosen hchosen, hle, hT.trans (hgrows.term n), ?_⟩
      rw [hgrows.take (hle.trans hchosen.1.le_length)]
      exact hstep.keeps h hchosen.choosable hle hT hsame
  have happlied : ∀ n i c, t.applied n i c → ∃ T N, t'.Chosen members T N ∧ 0 < i ∧ i ≤ N ∧
      ((t'.leaderLog T)[i - 1]?).map Entry.command = some c := by
    intro n i c hdone
    rcases h.commits.applied n i c hdone with ⟨T, N, hchosen, hpos, hi, hget⟩
    have hlength := hchosen.1.le_length
    exact ⟨T, N, hgrows.chosen hchosen, hpos, hi, by rw [hgrows.getElem? (by omega), hget]⟩
  cases hstep with
  | send n prev commit hleads hprev hown hcommit =>
      refine ⟨fun r hr => ?_, hlearned, happlied⟩
      rcases hr with hold | rfl
      · exact hsent r hold
      · rcases h.logs.leads n hleads with ⟨hleader, hlog⟩
        refine hgrows.genuine (t := t) ?_
        have hcovered : commit ≤ (t.log n).length ∧
            (commit = 0 ∨ ∃ T N, t.Chosen members T N ∧ commit ≤ N ∧ T ≤ t.term n) := by
          rcases hcommit with hzero | ⟨k, hle, hk⟩
          · exact ⟨hzero ▸ Nat.zero_le _, .inl hzero⟩
          · have hk := h.commits.learned n k hk
            refine ⟨hle.trans hk.le_length, ?_⟩
            rcases hk with rfl | ⟨T, N, hchosen, hkN, hT, _⟩
            · exact .inl (Nat.le_zero.1 hle)
            · exact .inr ⟨T, N, hchosen, hle.trans hkN, hT⟩
        exact
          { led := by simp [hleader]
            segment :=
              { bound := by
                  simp only [hlog, List.length_map, List.length_drop]
                  omega
                same := by
                  rw [map_command hown, hlog]
                  simp }
            prevTerm := by rw [hlog]
            commit_le := by
              have hle := hcovered.1
              simp only [List.length_map, List.length_drop]
              omega
            commit := hcovered.2 }
  | accept v r hidle hr hterm hle hprev =>
      refine ⟨hsent, fun n k hk => ?_, happlied⟩
      rcases hk with hold | ⟨rfl, rfl⟩
      · exact hlearned n k hold
      · have hgenuine := h.commits.sent r hr
        have htake := splice_take ((h.logs.log n).follows r.term) hgenuine.segment
          (hgenuine.take_prev h.logs hle hprev)
        rcases hgenuine.commit with hzero | ⟨T, N, hchosen, hcommit, hT⟩
        · exact .inl hzero
        · -- the leader of the request has what is chosen, and the node now has it from there
          refine .inr ⟨T, N, hgrows.chosen hchosen, hcommit, hterm ▸ hT, ?_⟩
          have href := h.choices.leader_take hgenuine.led hT hchosen.choosable
          calc (update t.log n (splice r.term (t.log n) r.prev r.entries) n).take r.commit
              = (splice r.term (t.log n) r.prev r.entries).take r.commit := by simp
            _ = (t.leaderLog r.term).take r.commit := take_eq_of_le htake hgenuine.commit_le
            _ = (t.leaderLog T).take r.commit := take_eq_of_le href hcommit
  | settle n N e Q hleads hget hown hQ hholds =>
      refine ⟨hsent, fun m k hk => ?_, happlied⟩
      rcases hk with hold | ⟨rfl, rfl⟩
      · exact hlearned m k hold
      · rcases h.logs.leads m hleads with ⟨hleader, hlog⟩
        have hN : N < (t.log m).length := lt_length_of_getElem? hget
        have hchosen : t.Chosen members (t.term m) (N + 1) := by
          refine ⟨⟨Nat.succ_pos N, e, by rw [hlog]; exact hget, hown⟩, Q, hQ, fun v hv => ?_⟩
          rcases hholds v hv with rfl | ⟨N', hN', hack⟩
          · exact .inr ⟨hleader, by rw [hlog]; exact hN⟩
          · exact .inl ⟨N', hN', hack⟩
        exact .inr ⟨t.term m, N + 1, hgrows.chosen hchosen, le_rfl, le_rfl, by rw [hlog]⟩
  | perform n k i e hk hi hget =>
      refine ⟨hsent, hlearned, fun m j c hdone => ?_⟩
      rcases hdone with hold | ⟨rfl, rfl, rfl⟩
      · exact happlied m j c hold
      · rcases h.commits.learned m k hk with rfl | ⟨T, N, hchosen, hle, _, hsame⟩
        · omega
        · refine ⟨T, N, hgrows.chosen hchosen, Nat.succ_pos i, by omega, ?_⟩
          have hgetL : (t.leaderLog T)[i]? = some e := by
            rw [← getElem?_of_take_eq hsame hi, hget]
          simp [hgetL]
  | _ => exact ⟨hsent, hlearned, happlied⟩

theorem Inv.step (h : Inv members t) (hstep : Step members t t') : Inv members t' :=
  have hlogs : LogInv t' := h.logs.step h.commits.sent hstep
  ⟨hlogs, ChoiceInv.step h hlogs hstep, CommitInv.step h hstep⟩

/-! ## All runs -/

/-- States the protocol reaches. -/
def Reached (members : Finset ν) : State ν κ → Prop :=
  Relation.ReflTransGen (Step members) (State.start ν κ)

theorem Reached.inv (h : Reached members t) : Inv members t := by
  induction h with
  | refl => exact inv_start members
  | tail _ hstep ih => exact ih.step hstep

/-- Nodes apply the same command at one index. -/
theorem Reached.applied_agree (h : Reached members t) {n m : ν} {i : Nat} {c c' : κ}
    (hn : t.applied n i c) (hm : t.applied m i c') : c = c' := by
  rcases h.inv.commits.applied n i c hn with ⟨T, N, hchosen, hpos, hi, hget⟩
  rcases h.inv.commits.applied m i c' hm with ⟨T', N', hchosen', _, hi', hget'⟩
  rw [h.inv.chosen_agree hchosen hchosen' (by omega) (by omega), hget'] at hget
  exact (Option.some.inj hget).symm

end Steps

/-! ## Two moments of a run -/

section Later

variable [DecidableEq ν] {members : Finset ν} {t t' : State ν κ} {n v : ν} {k : Nat}

theorem Reached.grows (h : Reached members t) (hmore : Relation.ReflTransGen (Step members) t t') :
    Grows t t' := by
  induction hmore with
  | refl => exact .refl t
  | tail hbefore hstep ih =>
      have hreached : Reached members _ := Relation.ReflTransGen.trans h hbefore
      exact ih.trans (hstep.grows hreached.inv.logs)

/-- What a node takes for committed is chosen. -/
theorem Reached.covered (h : Reached members t) (hk : t.Knows n k) : t.Covered members n k := by
  rcases hk with rfl | ⟨k', hle, hlearned⟩
  · exact .inl rfl
  · rcases h.inv.commits.learned n k' hlearned with rfl | ⟨T, N, hchosen, hN, hT, hsame⟩
    · exact .inl (Nat.le_zero.1 hle)
    · exact .inr ⟨T, N, hchosen, hle.trans hN, hT, take_eq_of_le hsame hle⟩

/-- A step leaves in the log of a node what is chosen there. -/
theorem Reached.covered_step (h : Reached members t) (hstep : Step members t t')
    (hcovered : t.Covered members n k) :
    (t'.log n).take k = (t.log n).take k ∧ t'.Covered members n k := by
  rcases hcovered with rfl | ⟨T, N, hchosen, hN, hT, hsame⟩
  · exact ⟨by rw [List.take_zero, List.take_zero], .inl rfl⟩
  · have hgrows : Grows t t' := hstep.grows h.inv.logs
    have hlog : (t'.log n).take k = (t.leaderLog T).take k :=
      hstep.keeps h.inv hchosen.choosable hN hT hsame
    have hlonger : (t'.leaderLog T).take k = (t.leaderLog T).take k :=
      hgrows.take (hN.trans hchosen.1.le_length)
    exact ⟨hlog.trans hsame.symm, .inr ⟨T, N, hgrows.chosen hchosen, hN, hT.trans (hgrows.term n),
      hlog.trans hlonger.symm⟩⟩

/-- The log of a node never loses what is chosen there. -/
theorem Reached.covered_later (h : Reached members t)
    (hmore : Relation.ReflTransGen (Step members) t t') (hcovered : t.Covered members n k) :
    (t'.log n).take k = (t.log n).take k ∧ t'.Covered members n k := by
  induction hmore with
  | refl => exact ⟨rfl, hcovered⟩
  | tail hbefore hstep ih =>
      have hreached : Reached members _ := Relation.ReflTransGen.trans h hbefore
      rcases hreached.covered_step hstep ih.2 with ⟨hsame, hnext⟩
      exact ⟨hsame.trans ih.1, hnext⟩

/-- A later leader has what a node took for committed in a term that is not above the leader's. -/
theorem Reached.leader_has (h : Reached members t)
    (hmore : Relation.ReflTransGen (Step members) t t') (hk : t.Knows n k) (hleads : t'.leading v)
    (hterm : t.term n ≤ t'.term v) :
    (t'.log v).take k = (t.log n).take k ∧ k ≤ (t'.log v).length := by
  have h' : Reached members t' := Relation.ReflTransGen.trans h hmore
  have hgrows : Grows t t' := h.grows hmore
  rcases h.covered hk with rfl | ⟨T, N, hchosen, hN, hT, hsame⟩
  · exact ⟨by rw [List.take_zero, List.take_zero], Nat.zero_le _⟩
  · rcases h'.inv.logs.leads v hleads with ⟨hled, hlog⟩
    have hle : N ≤ (t.leaderLog T).length := hchosen.1.le_length
    have htake : (t'.log v).take N = (t.leaderLog T).take N := by
      calc (t'.log v).take N
          = (t'.leaderLog (t'.term v)).take N := by rw [hlog]
        _ = (t'.leaderLog T).take N :=
            h'.inv.choices.leader_take (by simp [hled]) (hT.trans hterm)
              (hgrows.chosen hchosen).choosable
        _ = (t.leaderLog T).take N := hgrows.take hle
    refine ⟨(take_eq_of_le htake hN).trans hsame.symm, ?_⟩
    exact hN.trans (le_length_of_take_eq htake hle)

end Later

end Replication
end Library
end ControlDB
