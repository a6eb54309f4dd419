import ControlDB.Collector.Sound

/-!
# All or nothing

A call of `append_events` that raises leaves the database alone.  One that returns answers every
event with the id of a row, but the recovery from a failed flush rolls back the rows stored for
earlier events of the batch, and their ids stay in the answer.  So the answer is sound exactly as
long as no event that collides with a stored id comes after a new one.
-/

namespace ControlDB
namespace Collector

open Library Python

/-! ## The law -/

/-- The row `e` stands for event number `i`: it has its id or its key. -/
def AnswersEvent (m : Moment) (i : Nat) (event : EventInput) (e : AuditEvent) : Prop :=
  e.eventId = resolvedEventId m i event ∨ SameKey event.idempotencyKey e.idempotencyKey

/-- One id for each event, in their order, each of a row that is stored and answers the event. -/
def Answered (m : Moment) (db : Database) (events : List EventInput) (ids : List String) : Prop :=
  ids.length = events.length ∧
    ∀ i event, events[i]? = some event →
      ∃ e ∈ db.auditEvents, ids[i]? = some e.eventId ∧ AnswersEvent m i event e

def AllOrNothing (env : Env) (db : Database) (m : Moment) (principal : Principal) (runId : String)
    (events : List EventInput) : Prop :=
  match appendEvents env m db principal runId events with
  | .error _ => (Request.mk m principal (.appendEvents runId events)).run env db = db
  | .ok (db', ids) => Answered m db' events ids

/-! ## Collisions -/

/-- Neither the key nor the id of event number `i` is stored. -/
def IsNew (m : Moment) (rows : List AuditEvent) (i : Nat) (event : EventInput) : Prop :=
  (findByKey rows event.idempotencyKey).isNone = true ∧
    (findById rows (resolvedEventId m i event)).isNone = true

/-- The id of event number `i` is stored, but its key is not, and no event of `fresh` has it. -/
def Collides (m : Moment) (rows : List AuditEvent) (fresh : List EventInput) (i : Nat)
    (event : EventInput) : Prop :=
  (findByKey rows event.idempotencyKey).isNone = true ∧
    (findById rows (resolvedEventId m i event)).isSome = true ∧
    ∀ ev ∈ fresh, ¬ SameKey event.idempotencyKey ev.idempotencyKey

instance (m : Moment) (rows : List AuditEvent) (i : Nat) (event : EventInput) :
    Decidable (IsNew m rows i event) :=
  inferInstanceAs (Decidable (_ ∧ _))

instance (m : Moment) (rows : List AuditEvent) (fresh : List EventInput) (i : Nat)
    (event : EventInput) : Decidable (Collides m rows fresh i event) :=
  inferInstanceAs (Decidable (_ ∧ _ ∧ _))

/-- The new events since the last collision. -/
def nextFresh (m : Moment) (rows : List AuditEvent) (fresh : List EventInput) (i : Nat)
    (event : EventInput) : List EventInput :=
  if Collides m rows fresh i event then []
  else if IsNew m rows i event then fresh ++ [event]
  else fresh

/-- No event collides after a new one; `fresh` are the new events numbered below `i`. -/
def UncollidedFrom (m : Moment) (rows : List AuditEvent) :
    List EventInput → Nat → List EventInput → Prop
  | _, _, [] => True
  | fresh, i, event :: rest =>
      (fresh = [] ∨ ¬ Collides m rows fresh i event) ∧
        UncollidedFrom m rows (if IsNew m rows i event then fresh ++ [event] else fresh) (i + 1) rest

instance decidableUncollidedFrom (m : Moment) (rows : List AuditEvent) :
    (fresh : List EventInput) → (i : Nat) → (events : List EventInput) →
      Decidable (UncollidedFrom m rows fresh i events)
  | _, _, [] => .isTrue trivial
  | fresh, i, event :: rest =>
      have := decidableUncollidedFrom m rows
        (if IsNew m rows i event then fresh ++ [event] else fresh) (i + 1) rest
      inferInstanceAs (Decidable (_ ∧ _))

def Uncollided (m : Moment) (rows : List AuditEvent) (events : List EventInput) : Prop :=
  UncollidedFrom m rows [] 0 events

instance (m : Moment) (rows : List AuditEvent) (events : List EventInput) :
    Decidable (Uncollided m rows events) :=
  inferInstanceAs (Decidable (UncollidedFrom m rows [] 0 events))

/-- The ids of the events numbered from `i` on. -/
def batchIds (m : Moment) : Nat → List EventInput → List String
  | _, [] => []
  | i, event :: rest => resolvedEventId m i event :: batchIds m (i + 1) rest

/-! ## Sessions and new events -/

/-- The flushed rows have the keys of the new events since the last collision. -/
structure Tracks (fresh : List EventInput) (flushed : List AuditEvent) : Prop where
  empty : fresh = [] ↔ flushed = []
  keyOf : ∀ e ∈ flushed, ∃ ev ∈ fresh, ev.idempotencyKey = e.idempotencyKey
  rowOf : ∀ ev ∈ fresh, (truthy ev.idempotencyKey).isSome = true →
    ∃ e ∈ flushed, e.idempotencyKey = ev.idempotencyKey

theorem tracks_nil : Tracks [] [] where
  empty := by simp
  keyOf := by simp
  rowOf := by simp

section Batch

variable {env : Env} {m : Moment} {committed : Database} {principal : Principal} {i : Nat}
  {sequence : Nat} {event : EventInput} {events : List EventInput} {s s' : AppendSession}
  {previousHash lastHash : Option String} {answer : AuditEvent} {answers : List AuditEvent}
  {fresh : List EventInput}

theorem findByKey_visible_eq_none {key : Option String}
    (h : findByKey (s.visible committed) key = none) :
    findByKey committed.auditEvents key = none ∧ findByKey s.flushed key = none := by
  rw [AppendSession.visible, findByKey_append] at h
  exact Option.or_eq_none_iff.1 h

/-- A recovered event collides. -/
theorem Tracks.collides (htracks : Tracks fresh s.flushed)
    (hnone : findByKey (s.visible committed) event.idempotencyKey = none)
    (hid : (findById committed.auditEvents (resolvedEventId m i event)).isSome = true) :
    Collides m committed.auditEvents fresh i event := by
  rcases findByKey_visible_eq_none hnone with ⟨hcommitted, hflushed⟩
  refine ⟨by rw [hcommitted]; rfl, hid, ?_⟩
  rintro ev hev ⟨htruthy, hkey⟩
  rcases htracks.rowOf ev hev (hkey ▸ htruthy) with ⟨e, he, heq⟩
  exact findByKey_eq_none hflushed he ⟨htruthy, hkey.trans heq.symm⟩

theorem Tracks.not_collides_of_found (htracks : Tracks fresh s.flushed) {existing : AuditEvent}
    (hfind : findByKey (s.visible committed) event.idempotencyKey = some existing) :
    ¬ Collides m committed.auditEvents fresh i event := by
  rintro ⟨hkey, _, hfresh⟩
  -- the key would be that of a flushed row, hence of a new event
  rw [AppendSession.visible, findByKey_append, Option.isNone_iff_eq_none.1 hkey,
    Option.none_or] at hfind
  rcases findByKey_eq_some hfind with ⟨hmem, htruthy, heq⟩
  rcases htracks.keyOf existing hmem with ⟨ev, hev, hev'⟩
  exact hfresh ev hev ⟨htruthy, heq.trans hev'.symm⟩

theorem not_collides_of_stored {run : AgentRun}
    (hrow : newRow env m i sequence principal run event previousHash = .ok answer)
    (hfree : ¬ Clashes (s.visible committed) answer) :
    ¬ Collides m committed.auditEvents fresh i event := by
  rintro ⟨_, hid, _⟩
  rcases Option.isSome_iff_exists.1 hid with ⟨e, he⟩
  rcases findById_eq_some he with ⟨hmem, heq⟩
  refine hfree ⟨e, List.mem_append_left _ hmem, .inl ?_⟩
  exact heq.trans (newRow_spec hrow).eventId.symm

/-- An event that collides is recovered, and nothing stays flushed. -/
theorem Persisted.flushed_of_collides (htracks : Tracks fresh s.flushed)
    (h : Persisted env m i committed sequence principal s event previousHash s' answer)
    (hcollides : Collides m committed.auditEvents fresh i event) : s'.flushed = [] := by
  cases h with
  | replayed hfind => exact (htracks.not_collides_of_found hfind hcollides).elim
  | recovered => rfl
  | stored hnone hrow hfree => exact (not_collides_of_stored hrow hfree hcollides).elim

/-- A stored event is new. -/
theorem isNew_of_stored {run : AgentRun}
    (hnone : findByKey (s.visible committed) event.idempotencyKey = none)
    (hrow : newRow env m i sequence principal run event previousHash = .ok answer)
    (hfree : ¬ Clashes (s.visible committed) answer) : IsNew m committed.auditEvents i event := by
  refine ⟨by rw [(findByKey_visible_eq_none hnone).1]; rfl, ?_⟩
  cases hfind : findById committed.auditEvents (resolvedEventId m i event) with
  | none => rfl
  | some e =>
      rcases findById_eq_some hfind with ⟨hmem, hid⟩
      refine (hfree ⟨e, List.mem_append_left _ hmem, .inl ?_⟩).elim
      exact hid.trans (newRow_spec hrow).eventId.symm

/-- A recovered event collides: its id is committed, and nothing visible has its key. -/
theorem Tracks.collides_of_recovered (htracks : Tracks fresh s.flushed) {run : AgentRun}
    {row existing : AuditEvent}
    (hnone : findByKey (s.visible committed) event.idempotencyKey = none)
    (hrow : newRow env m i sequence principal run event previousHash = .ok row)
    (hfind : findById committed.auditEvents row.eventId = some existing) :
    Collides m committed.auditEvents fresh i event := by
  apply htracks.collides hnone
  rw [← (newRow_spec hrow).eventId, hfind]
  rfl

/-- Step lemma: the flushed rows go on having the keys of the new events. -/
theorem Persisted.tracks (htracks : Tracks fresh s.flushed)
    (h : Persisted env m i committed sequence principal s event previousHash s' answer) :
    Tracks (nextFresh m committed.auditEvents fresh i event) s'.flushed := by
  unfold nextFresh
  cases h with
  | replayed hfind =>
      rw [if_neg (htracks.not_collides_of_found hfind)]
      split_ifs with hnew
      · -- the answer is not committed, so it was flushed for an event with this key
        rw [AppendSession.visible, findByKey_append, Option.isNone_iff_eq_none.1 hnew.1,
          Option.none_or] at hfind
        rcases findByKey_eq_some hfind with ⟨hflushed, hkey⟩
        refine ⟨?_, ?_, ?_⟩
        · constructor
          · intro hnil
            simp at hnil
          · intro hnil
            rw [hnil] at hflushed
            cases hflushed
        · intro e he
          rcases htracks.keyOf e he with ⟨ev, hev, heq⟩
          exact ⟨ev, List.mem_append_left _ hev, heq⟩
        · intro ev hev htruthy
          rcases List.mem_append.1 hev with hold | hlast
          · exact htracks.rowOf ev hold htruthy
          · rw [List.mem_singleton.1 hlast]
            exact ⟨answer, hflushed, hkey.2.symm⟩
      · exact htracks
  | recovered hnone hrow hclash hfind hrun =>
      rw [if_pos (htracks.collides_of_recovered hnone hrow hfind)]
      -- the rollback has emptied the session
      exact tracks_nil
  | stored hnone hrow hfree =>
      rw [if_neg (not_collides_of_stored hrow hfree), if_pos (isNew_of_stored hnone hrow hfree)]
      -- the flushed rows are those of the new events, and this is one
      have hkey := (newRow_spec hrow).idempotencyKey
      refine ⟨?_, ?_, ?_⟩
      · simp
      · intro e he
        rcases List.mem_append.1 he with hold | hlast
        · rcases htracks.keyOf e hold with ⟨ev, hev, heq⟩
          exact ⟨ev, List.mem_append_left _ hev, heq⟩
        · rw [List.mem_singleton.1 hlast]
          exact ⟨event, by simp, hkey.symm⟩
      · intro ev hev htruthy
        rcases List.mem_append.1 hev with hold | hlast
        · rcases htracks.rowOf ev hold htruthy with ⟨e, he, heq⟩
          exact ⟨e, List.mem_append_left _ he, heq⟩
        · rw [List.mem_singleton.1 hlast]
          exact ⟨answer, by simp, hkey⟩

/-- If an event does not collide after a new one, no row is lost and its answer is stored or
flushed. -/
theorem Persisted.keeps (htracks : Tracks fresh s.flushed)
    (h : Persisted env m i committed sequence principal s event previousHash s' answer)
    (hfirst : fresh = [] ∨ ¬ Collides m committed.auditEvents fresh i event) :
    s.flushed <+: s'.flushed ∧ answer ∈ s'.visible committed := by
  cases h with
  | replayed hfind => exact ⟨List.prefix_refl _, (findByKey_eq_some hfind).1⟩
  | recovered hnone hrow hclash hfind hrun =>
      have hnil : fresh = [] :=
        hfirst.resolve_right (not_not.2 (htracks.collides_of_recovered hnone hrow hfind))
      rw [htracks.empty.1 hnil]
      exact ⟨List.prefix_refl _, List.mem_append_left _ (findById_eq_some hfind).1⟩
  | stored hnone hrow hfree => exact ⟨List.prefix_append _ _, by simp [AppendSession.visible]⟩

/-- Without a loss, the new events are never reset. -/
theorem nextFresh_of_first {rows : List AuditEvent}
    (hfirst : fresh = [] ∨ ¬ Collides m rows fresh i event) :
    nextFresh m rows fresh i event = if IsNew m rows i event then fresh ++ [event] else fresh := by
  unfold nextFresh
  split_ifs with hcollides hnew
  · have hid := hcollides.2.1
    rw [Option.isNone_iff_eq_none.1 hnew.2] at hid
    cases hid
  · exact (hfirst.resolve_right (not_not.2 hcollides)).symm
  · rfl
  · rfl

/-- Run lemma: without such a collision every answer is stored at the end. -/
theorem AppendRun.answers_visible
    (h : AppendRun env m committed principal i events s previousHash s' lastHash answers)
    (fresh : List EventInput) (htracks : Tracks fresh s.flushed)
    (huncollided : UncollidedFrom m committed.auditEvents fresh i events) :
    s.flushed <+: s'.flushed ∧ ∀ a ∈ answers, a ∈ s'.visible committed := by
  induction h generalizing fresh with
  | nil => simp
  | @cons i event rest s s₁ s' previousHash lastHash answer answers hfirst hrest ih =>
      rcases huncollided with ⟨hevent, hrestUncollided⟩
      rcases hfirst.keeps htracks hevent with ⟨hkept, hanswer⟩
      have htracks₁ := hfirst.tracks htracks
      rw [nextFresh_of_first hevent] at htracks₁
      rcases ih _ htracks₁ hrestUncollided with ⟨hkept', hanswers⟩
      refine ⟨hkept.trans hkept', ?_⟩
      intro a ha
      rcases List.mem_cons.1 ha with rfl | htail
      -- what the first event flushed is still there at the end
      · rcases List.mem_append.1 hanswer with hold | hflushed
        · exact List.mem_append_left _ hold
        · exact List.mem_append_right _ (hkept'.subset hflushed)
      · exact hanswers a htail

/-- Whatever happens, an answer has the id or the key of its event. -/
theorem Persisted.answersEvent
    (h : Persisted env m i committed sequence principal s event previousHash s' answer) :
    AnswersEvent m i event answer := by
  cases h with
  | replayed hfind => exact .inr (findByKey_eq_some hfind).2
  | recovered hnone hrow hclash hfind hrun =>
      exact .inl ((findById_eq_some hfind).2.trans (newRow_spec hrow).eventId)
  | stored hnone hrow hfree => exact .inl (newRow_spec hrow).eventId

theorem AppendRun.answersEvent
    (h : AppendRun env m committed principal i events s previousHash s' lastHash answers)
    (j : Nat) (event : EventInput) (hevent : events[j]? = some event) :
    ∃ a, answers[j]? = some a ∧ AnswersEvent m (i + j) event a := by
  induction h generalizing j with
  | nil => simp at hevent
  | cons hfirst hrest ih =>
      cases j with
      | zero =>
          simp only [List.getElem?_cons_zero, Option.some.injEq] at hevent ⊢
          subst hevent
          exact ⟨_, rfl, hfirst.answersEvent⟩
      | succ j =>
          simp only [List.getElem?_cons_succ] at hevent ⊢
          rcases ih j hevent with ⟨a, ha, hanswers⟩
          refine ⟨a, ha, ?_⟩
          rwa [Nat.add_right_comm] at hanswers

/-! ## Rows that are lost -/

/-- A flushed row is an old one, or the new row of this event. -/
theorem Persisted.mem_flushed
    (h : Persisted env m i committed sequence principal s event previousHash s' answer)
    {e : AuditEvent} (he : e ∈ s'.flushed) :
    e ∈ s.flushed ∨ e = answer ∧ e.eventId = resolvedEventId m i event ∧
      ∀ d ∈ committed.auditEvents, d.eventId ≠ e.eventId := by
  cases h with
  | replayed hfind => exact .inl he
  | recovered => cases he
  | stored hnone hrow hfree =>
      rcases List.mem_append.1 he with hold | hlast
      · exact .inl hold
      · rw [List.mem_singleton.1 hlast]
        refine .inr ⟨rfl, (newRow_spec hrow).eventId, ?_⟩
        intro d hd heq
        exact hfree ⟨d, List.mem_append_left _ hd, .inl heq⟩

theorem AppendRun.mem_flushed
    (h : AppendRun env m committed principal i events s previousHash s' lastHash answers)
    {e : AuditEvent} (he : e ∈ s'.flushed) : e ∈ s.flushed ∨ e.eventId ∈ batchIds m i events := by
  induction h with
  | nil => exact .inl he
  | cons hfirst hrest ih =>
      rcases ih he with hmiddle | hlater
      · rcases hfirst.mem_flushed hmiddle with hold | ⟨_, hid, _⟩
        · exact .inl hold
        · exact .inr (hid ▸ List.mem_cons_self)
      · exact .inr (List.mem_cons_of_mem _ hlater)

/-- If an event collides after a new one and no id is submitted twice, the row of the new one is
answered and is not stored. -/
theorem AppendRun.exists_lost
    (h : AppendRun env m committed principal i events s previousHash s' lastHash answers)
    (fresh : List EventInput) (htracks : Tracks fresh s.flushed)
    (hids : ∀ e ∈ s.flushed, e.eventId ∉ batchIds m i events)
    (hapart : ∀ e ∈ s.flushed, ∀ d ∈ committed.auditEvents, d.eventId ≠ e.eventId)
    (hnodup : (batchIds m i events).Nodup)
    (hcollided : ¬ UncollidedFrom m committed.auditEvents fresh i events) :
    ∃ e, (e ∈ s.flushed ∨ e ∈ answers) ∧ ∀ d ∈ s'.visible committed, d.eventId ≠ e.eventId := by
  induction h generalizing fresh with
  | nil => exact (hcollided trivial).elim
  | @cons i event rest s s₁ s' previousHash lastHash answer answers hfirst hrest ih =>
      rcases List.nodup_cons.1 hnodup with ⟨hidFirst, hnodupRest⟩
      by_cases hevent : fresh = [] ∨ ¬ Collides m committed.auditEvents fresh i event
      · -- the rest loses a row
        have hrestCollided := fun hrest => hcollided ⟨hevent, hrest⟩
        have htracks₁ := hfirst.tracks htracks
        rw [nextFresh_of_first hevent] at htracks₁
        -- the ids of the batch differ, so the rest does not use the new one again
        have hids₁ : ∀ e ∈ s₁.flushed, e.eventId ∉ batchIds m (i + 1) rest := by
          intro e he hmem
          rcases hfirst.mem_flushed he with hold | ⟨_, hid, _⟩
          · exact hids e hold (List.mem_cons_of_mem _ hmem)
          · exact hidFirst (hid ▸ hmem)
        have hapart₁ : ∀ e ∈ s₁.flushed, ∀ d ∈ committed.auditEvents, d.eventId ≠ e.eventId := by
          intro e he
          rcases hfirst.mem_flushed he with hold | ⟨_, _, hnew⟩
          · exact hapart e hold
          · exact hnew
        rcases ih _ htracks₁ hids₁ hapart₁ hnodupRest hrestCollided with ⟨e, he, hlost⟩
        refine ⟨e, ?_, hlost⟩
        rcases he with hflushed | hlater
        · rcases hfirst.mem_flushed hflushed with hold | ⟨rfl, _⟩
          · exact .inl hold
          · exact .inr List.mem_cons_self
        · exact .inr (List.mem_cons_of_mem _ hlater)
      · -- this event rolls back what was flushed
        rcases not_or.1 hevent with ⟨hfresh, hcollides⟩
        have hnil := hfirst.flushed_of_collides htracks (not_not.1 hcollides)
        have hne : s.flushed ≠ [] := fun hempty => hfresh (htracks.empty.2 hempty)
        rcases List.exists_mem_of_ne_nil _ hne with ⟨e, he⟩
        refine ⟨e, .inl he, ?_⟩
        intro d hd
        rcases List.mem_append.1 hd with hold | hflushed
        · exact hapart e he d hold
        · intro heq
          -- a row flushed later has the id of a later event
          rcases hrest.mem_flushed hflushed with hmiddle | hlater
          · rw [hnil] at hmiddle
            cases hmiddle
          · exact hids e he (List.mem_cons_of_mem _ (heq ▸ hlater))

end Batch

/-! ## Calls -/

section Calls

variable {env : Env} {m : Moment} {db db' : Database} {principal : Principal} {runId : String}
  {events : List EventInput} {ids : List String}

/-- A call whose events do not collide after new ones answers every event with a stored row. -/
theorem answered_of_uncollided
    (hout : appendEvents env m db principal runId events = .ok (db', ids))
    (huncollided : Uncollided m db.auditEvents events) : Answered m db' events ids := by
  cases appended_of_ok hout with
  | empty => exact ⟨rfl, by simp⟩
  | @batch _ run s lastHash answers hrun horg hproject hne hanswers =>
      have hstored := (hanswers.answers_visible [] tracks_nil huncollided).2
      refine ⟨by rw [List.length_map, hanswers.length], ?_⟩
      intro i event hevent
      rcases hanswers.answersEvent i event hevent with ⟨a, ha, hanswersEvent⟩
      refine ⟨a, hstored a (List.mem_of_getElem? ha), ?_, by simpa using hanswersEvent⟩
      rw [List.getElem?_map, ha]
      rfl

/-- A call that returns although an event collided after a new one names a row that is not stored,
unless an id was submitted twice. -/
theorem not_answered_of_collided
    (hout : appendEvents env m db principal runId events = .ok (db', ids))
    (hcollided : ¬ Uncollided m db.auditEvents events) (hnodup : (batchIds m 0 events).Nodup) :
    ¬ Answered m db' events ids := by
  cases appended_of_ok hout with
  | empty => exact (hcollided trivial).elim
  | @batch _ run s lastHash answers hrun horg hproject hne hanswers =>
      rcases hanswers.exists_lost [] tracks_nil (by simp) (by simp) hnodup hcollided with
        ⟨e, he, hlost⟩
      have hanswer : e ∈ answers := he.resolve_left (by simp)
      rcases List.mem_iff_getElem?.1 hanswer with ⟨i, hi⟩
      rintro ⟨hlength, hstored⟩
      have hbound : i < events.length := by
        rw [← hanswers.length]
        exact (List.getElem?_eq_some_iff.1 hi).1
      -- the lost row was the answer to some event, whose id no row has
      rcases hstored i events[i] (List.getElem?_eq_getElem hbound) with ⟨d, hd, hid, _⟩
      rw [List.getElem?_map, hi] at hid
      exact hlost d hd (Option.some.inj hid).symm

/-- For every database that requests lead to: a call whose events do not collide after new ones is
all or nothing; one that returns although they do is not, unless an id was submitted twice. -/
theorem allOrNothing_of_uncollided (env : Env) (requests : List Request) (m : Moment)
    (principal : Principal) (runId : String) (events : List EventInput) :
    (Uncollided m (runRequests env {} requests).auditEvents events →
        AllOrNothing env (runRequests env {} requests) m principal runId events) ∧
      ∀ out, appendEvents env m (runRequests env {} requests) principal runId events = .ok out →
        ¬ Uncollided m (runRequests env {} requests).auditEvents events →
        (batchIds m 0 events).Nodup →
        ¬ AllOrNothing env (runRequests env {} requests) m principal runId events := by
  generalize runRequests env {} requests = db
  constructor
  · intro huncollided
    unfold AllOrNothing
    cases hout : appendEvents env m db principal runId events with
    | error e => simp [Request.run, Request.perform, hout, Except.map]
    | ok out => exact answered_of_uncollided hout huncollided
  · intro out hout hcollided hnodup
    unfold AllOrNothing
    rw [hout]
    exact not_answered_of_collided hout hcollided hnodup

end Calls

open CollectorExample in
/-- A new event, and one that is stored already under its key. -/
theorem allOrNothing_of_uncollided_pair :
    AllOrNothing env (runRequests env {} [start, append [event "evt_a" (some "idem_a")]]) moment owner
      "run_1" [event "evt_b" (some "idem_b"), event "evt_a" (some "idem_a")] :=
  (allOrNothing_of_uncollided env [start, append [event "evt_a" (some "idem_a")]] moment owner
    "run_1" _).1 (by decide +kernel)

open CollectorExample in
/-- A new event, and one that reuses a stored id without its key: both ids are returned, and the
new event is not stored. -/
theorem allOrNothing_fails_on_collision :
    ¬ AllOrNothing env (runRequests env {} [start, append [event "evt_a" (some "idem_a")]]) moment
      owner "run_1" [event "evt_c" none, event "evt_a" none] := by
  have hout : (appendEvents env moment
      (runRequests env {} [start, append [event "evt_a" (some "idem_a")]]) owner "run_1"
      [event "evt_c" none, event "evt_a" none]).toOption.map
        (fun out => (out.1.auditEvents.map AuditEvent.eventId, out.2)) =
      some (["evt_a"], ["evt_c", "evt_a"]) := by decide +kernel
  unfold AllOrNothing
  cases hcall : appendEvents env moment
      (runRequests env {} [start, append [event "evt_a" (some "idem_a")]]) owner "run_1"
      [event "evt_c" none, event "evt_a" none] with
  | error e => simp [hcall, Except.toOption] at hout
  | ok out =>
      rcases out with ⟨db', ids⟩
      simp only [hcall, Except.toOption, Option.map_some, Option.some.injEq, Prod.mk.injEq] at hout
      rcases hout with ⟨hstored, hids⟩
      rintro ⟨_, hanswered⟩
      rcases hanswered 0 (event "evt_c" none) rfl with ⟨e, he, hid, _⟩
      -- the first id is that of the lost event
      have hmem : e.eventId ∈ db'.auditEvents.map AuditEvent.eventId := List.mem_map_of_mem he
      rw [hstored, List.mem_singleton] at hmem
      rw [hids, List.getElem?_cons_zero, hmem] at hid
      exact absurd hid (by decide)

end Collector
end ControlDB
