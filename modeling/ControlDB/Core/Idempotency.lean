import ControlDB.Core.Consistent

/-!
# Idempotency keys

What the replies of `append_events` say about duplicates, and when they are right.  The check of
the loop reads the committed idempotency column, which holds an event id under each key and an
event hash under each key followed by `:hash`; it can be trusted as long as the keys of the stored
events and of the batch do not get in each other's way.
-/

namespace ControlDB

open Library

/-! ## The law -/

/-- An earlier event with the (non-empty) key of `ev` is stored. -/
def Known (db : Rocks) (ev : AuditEvent) : Prop :=
  ev.idempotencyKey ≠ [] ∧ ∃ e ∈ storedEvents db, e.idempotencyKey = ev.idempotencyKey

instance (db : Rocks) (ev : AuditEvent) : Decidable (Known db ev) :=
  inferInstanceAs (Decidable (_ ∧ _))

/-- An event with the key `key` was accepted earlier in the same batch. -/
def AcceptedBefore (events : List AuditEvent) (results : List InsertEventResult) (i : Nat)
    (key : Bytes) : Prop :=
  ∃ j < i, ∃ ev r, events[j]? = some ev ∧ results[j]? = some r ∧ ev.idempotencyKey = key ∧
    r.wasDuplicate = false

/-- What a completed call owes for one event with a non-empty key; `db` and `db'` are the database
before and after the call. -/
structure ReplyLawful (db db' : Rocks) (events : List AuditEvent)
    (results : List InsertEventResult) (i : Nat) (ev : AuditEvent) (r : InsertEventResult) :
    Prop where
  duplicate : r.wasDuplicate = true ↔
    Known db ev ∨ AcceptedBefore events results i ev.idempotencyKey
  accepted : r.wasDuplicate = true → ∃ e ∈ storedEvents db',
    e.idempotencyKey = ev.idempotencyKey ∧ r.eventId = e.eventId ∧ r.eventHash = e.eventHash

/-- One reply for each event, and each reply to a keyed event is lawful. -/
def RepliesLawful (db db' : Rocks) (events : List AuditEvent) (results : List InsertEventResult) :
    Prop :=
  results.length = events.length ∧
    ∀ i ev r, events[i]? = some ev → results[i]? = some r → ev.idempotencyKey ≠ [] →
      ReplyLawful db db' events results i ev r

/-- At most one stored event carries any given non-empty key. -/
def OneEventPerKey (db : Rocks) : Prop :=
  (storedEvents db).Pairwise fun a b => a.idempotencyKey = [] ∨ a.idempotencyKey ≠ b.idempotencyKey

/-! ## Keys that keep out of each other's way -/

def keyAndId (e : AuditEvent) : Bytes × Bytes :=
  (e.idempotencyKey, e.eventId)

/-- Pairs of an idempotency key and an event id: no two share a non-empty key, each with a key has
an id, and no key is another one followed by `:hash`. -/
structure WellKeyed (l : List (Bytes × Bytes)) : Prop where
  distinct : l.Pairwise fun p q => p.1 = [] ∨ p.1 ≠ q.1
  named : ∀ p ∈ l, p.1 ≠ [] → p.2 ≠ []
  apart : ∀ p ∈ l, ∀ q ∈ l, p.1 ≠ [] → q.1 ≠ [] → hashKey p.1 ≠ q.1

/-- The events of a batch that are not stored yet under their key. -/
def freshEvents (db : Rocks) (events : List AuditEvent) : List AuditEvent :=
  events.filter fun ev => decide (¬ Known db ev)

/-- The batch of an `append_events` call on a run of the caller, put next to the stored events. -/
def Call.WellKeyed (db : Rocks) : Call → Prop
  | appendEvents runId orgId projectId events =>
      ∀ run, fetchRun db runId orgId projectId = .ok run →
        ControlDB.WellKeyed ((storedEvents db ++ freshEvents db events).map keyAndId)
  | _ => True

theorem WellKeyed.left {l l' : List (Bytes × Bytes)} (h : WellKeyed (l ++ l')) : WellKeyed l where
  distinct := (List.pairwise_append.1 h.distinct).1
  named p hp := h.named p (List.mem_append_left _ hp)
  apart p hp q hq := h.apart p (List.mem_append_left _ hp) q (List.mem_append_left _ hq)

theorem hashKey_injective : Function.Injective hashKey := fun _ _ h => List.append_cancel_right h

theorem hashKey_ne_self (key : Bytes) : hashKey key ≠ key := by
  intro h
  have hlen := congrArg List.length h
  simp [hashKey, bytes] at hlen

/-! ## Reading the idempotency column -/

/-- The idempotency column that a list of events leaves. -/
def replay (es : List AuditEvent) : SortedMap Bytes Bytes :=
  es.foldl putIdempotency .empty

/-- If no event's records collide with those of `key`, the two records of `key` are those of one
event with this key, the last one; or there is neither. -/
theorem replay_get {es : List AuditEvent} {key : Bytes} (hkey : key ≠ [])
    (hapart : ∀ e ∈ es, e.idempotencyKey ≠ [] →
      hashKey e.idempotencyKey ≠ key ∧ e.idempotencyKey ≠ hashKey key) :
    (∃ e ∈ es, e.idempotencyKey = key ∧ (replay es).get key = some e.eventId ∧
        (replay es).get (hashKey key) = some e.eventHash) ∨
      ((∀ e ∈ es, e.idempotencyKey ≠ key) ∧ (replay es).get key = none ∧
        (replay es).get (hashKey key) = none) := by
  induction es using List.reverseRecOn with
  | nil => exact .inr ⟨by simp, rfl, rfl⟩
  | append_singleton es e ih =>
      have hrest := ih fun e' he' => hapart e' (List.mem_append_left _ he')
      have hlast : e ∈ es ++ [e] := List.mem_append_right _ (List.mem_singleton_self e)
      have hreplay : replay (es ++ [e]) = putIdempotency (replay es) e := by simp [replay]
      by_cases hsame : e.idempotencyKey = key
      · refine .inl ⟨e, hlast, hsame, ?_, ?_⟩
        · simp [hreplay, putIdempotency, hsame, hkey, SortedMap.get_put, Ne.symm (hashKey_ne_self key)]
        · simp [hreplay, putIdempotency, hsame, hkey]
      · -- the last event touches neither record
        have hget : (replay (es ++ [e])).get key = (replay es).get key ∧
            (replay (es ++ [e])).get (hashKey key) = (replay es).get (hashKey key) := by
          by_cases hempty : e.idempotencyKey = []
          · simp [hreplay, putIdempotency, hempty]
          · have hclash := hapart e hlast hempty
            have hinj : hashKey key ≠ hashKey e.idempotencyKey := fun h =>
              hsame (hashKey_injective h).symm
            simp [hreplay, putIdempotency, hempty, SortedMap.get_put, Ne.symm hsame,
              Ne.symm hclash.1, Ne.symm hclash.2, hinj]
        rcases hrest with ⟨e', he', hk, hid, hhash⟩ | ⟨hnone, hid, hhash⟩
        · exact .inl ⟨e', List.mem_append_left _ he', hk, hget.1.trans hid, hget.2.trans hhash⟩
        · refine .inr ⟨?_, hget.1.trans hid, hget.2.trans hhash⟩
          intro e' he'
          rcases List.mem_append.1 he' with hold | hnew
          · exact hnone e' hold
          · exact List.mem_singleton.1 hnew ▸ hsame

theorem mem_keys {es : List AuditEvent} {e : AuditEvent} (he : e ∈ es) :
    keyAndId e ∈ es.map keyAndId := List.mem_map_of_mem he

section Batch

variable {db : Rocks} {events : List AuditEvent}

/-- A key that is carried by a stored or fresh event does not collide with the stored records. -/
theorem WellKeyed.no_collision
    (h : WellKeyed ((storedEvents db ++ freshEvents db events).map keyAndId)) {ev : AuditEvent}
    (hev : ev ∈ storedEvents db ++ freshEvents db events) (hkey : ev.idempotencyKey ≠ []) :
    ∀ e ∈ storedEvents db, e.idempotencyKey ≠ [] →
      hashKey e.idempotencyKey ≠ ev.idempotencyKey ∧
        e.idempotencyKey ≠ hashKey ev.idempotencyKey := by
  intro e he hne
  have he' : e ∈ storedEvents db ++ freshEvents db events := List.mem_append_left _ he
  exact ⟨h.apart _ (mem_keys he') _ (mem_keys hev) hne hkey,
    (h.apart _ (mem_keys hev) _ (mem_keys he') hkey hne).symm⟩

/-- The loop's check finds exactly the known keys, and the reply is that of a stored event. -/
theorem isDuplicate_iff_known (hdb : Represents db)
    (h : WellKeyed ((storedEvents db ++ freshEvents db events).map keyAndId)) {ev : AuditEvent}
    (hev : ev ∈ events) :
    (isDuplicate db ev ↔ Known db ev) ∧
      (Known db ev → ∃ e ∈ storedEvents db, e.idempotencyKey = ev.idempotencyKey ∧
        duplicateResult db ev = { eventId := e.eventId, eventHash := e.eventHash, wasDuplicate := true }) := by
  have hreplay : db.idempotency = replay (storedEvents db) := hdb.idempotency
  by_cases hkey : ev.idempotencyKey = []
  · have hunknown : ¬ Known db ev := fun hknown => hknown.1 hkey
    exact ⟨by simp [isDuplicate, hkey, hunknown], fun hknown => (hunknown hknown).elim⟩
  by_cases hknown : Known db ev
  · -- the key is that of a stored event, whose two records are still there
    rcases hknown.2 with ⟨old, hold, holdkey⟩
    have hapart := h.no_collision (List.mem_append_left _ hold) (holdkey ▸ hkey)
    rw [holdkey] at hapart
    rcases replay_get hkey hapart with ⟨e, he, hk, hid, hhash⟩ | ⟨hnone, _, _⟩
    -- the stored event has an id, so the lookup does not take the empty text for an answer
    · have hnamed : e.eventId ≠ [] :=
        h.named _ (mem_keys (List.mem_append_left _ he)) (by simpa [keyAndId, hk] using hkey)
      refine ⟨?_, fun _ => ⟨e, he, hk, ?_⟩⟩
      · simp [isDuplicate, Rocks.getIdempotency, hreplay, hid, hkey, hnamed, hknown]
      · simp [duplicateResult, Rocks.getIdempotency, hreplay, hid, hhash]
    · exact (hnone old hold holdkey).elim
  · -- the event is fresh, and nobody wrote a record under its key
    have hfresh : ev ∈ freshEvents db events := List.mem_filter.2 ⟨hev, by simpa using hknown⟩
    have hapart := h.no_collision (List.mem_append_right _ hfresh) hkey
    rcases replay_get hkey hapart with ⟨e, he, hk, _, _⟩ | ⟨_, hid, _⟩
    · exact (hknown ⟨hkey, e, he, hk⟩).elim
    · refine ⟨?_, fun h => (hknown h).elim⟩
      simp [isDuplicate, Rocks.getIdempotency, hreplay, hid, hknown]

end Batch

/-! ## The replies -/

section Replies

variable {env : Env} {now : Nat → Int} {db : Rocks} {run : AgentRun}
  {runId orgId projectId : Bytes}

/-- What the reply to an event is, by what the check found. -/
def ReplyOf (db : Rocks) (ev : AuditEvent) (r : InsertEventResult) : Prop :=
  if isDuplicate db ev then r = duplicateResult db ev else r.wasDuplicate = false

theorem replies_replyOf (i : Nat) (events : List AuditEvent) (seq : Nat) (prevHash : HashStr) :
    List.Forall₂ (ReplyOf db) events
      (replies db events
        (acceptedEvents env now db run runId orgId projectId i events seq prevHash)) := by
  induction events generalizing i seq prevHash with
  | nil => exact .nil
  | cons ev rest ih =>
      by_cases hdup : isDuplicate db ev
      · simp only [acceptedEvents, replies, hdup, if_true]
        exact .cons (by simp [ReplyOf, hdup]) (ih _ _ _)
      · simp only [acceptedEvents, replies, hdup, if_false]
        exact .cons (by simp [ReplyOf, hdup]) (ih _ _ _)

/-- The keys and ids of the accepted events are those submitted. -/
theorem acceptedEvents_keys (i : Nat) (events : List AuditEvent) (seq : Nat) (prevHash : HashStr) :
    (acceptedEvents env now db run runId orgId projectId i events seq prevHash).map keyAndId =
      (events.filter fun ev => decide (¬ isDuplicate db ev)).map keyAndId := by
  induction events generalizing i seq prevHash with
  | nil => rfl
  | cons ev rest ih =>
      by_cases hdup : isDuplicate db ev
      · simpa [acceptedEvents, hdup] using ih (i + 1) seq prevHash
      · simpa [acceptedEvents, hdup, keyAndId, stampEvent] using ih (i + 1) (seq + 1) _

/-- As many events are accepted as are not found under their key. -/
theorem length_accepted_eq_countP {s : Store} (events : List AuditEvent) :
    (s.accepted env now run runId orgId projectId events).length =
      events.countP fun ev => decide (¬ isDuplicate s.rocks ev) := by
  have hkeys := congrArg List.length
    (@acceptedEvents_keys env now s.rocks run runId orgId projectId 0 events s.globalSeq
      run.lastEventHash)
  rwa [List.length_map, List.length_map, ← List.countP_eq_length_filter] at hkeys

end Replies

theorem forall₂_getElem {α β : Type*} {R : α → β → Prop} {l : List α} {l' : List β}
    (h : List.Forall₂ R l l') {i : Nat} {a : α} {b : β} (ha : l[i]? = some a)
    (hb : l'[i]? = some b) : R a b := by
  induction h generalizing i with
  | nil => simp at ha
  | cons hab _ ih =>
      cases i with
      | zero =>
          cases ha
          cases hb
          exact hab
      | succ i => exact ih (by simpa using ha) (by simpa using hb)

/-- The submitted events that pass the check are the fresh ones. -/
theorem filter_not_duplicate {db : Rocks} {events : List AuditEvent} (hdb : Represents db)
    (h : WellKeyed ((storedEvents db ++ freshEvents db events).map keyAndId)) :
    (events.filter fun ev => decide (¬ isDuplicate db ev)) = freshEvents db events := by
  refine List.filter_congr fun ev hev => ?_
  simp [(isDuplicate_iff_known hdb h hev).1]

/-- Two fresh events of a batch do not share a non-empty key. -/
theorem fresh_keys_distinct {db : Rocks} {events : List AuditEvent}
    (h : WellKeyed ((storedEvents db ++ freshEvents db events).map keyAndId)) {i j : Nat}
    (hij : j < i) {ev ev' : AuditEvent} (hev : events[i]? = some ev) (hev' : events[j]? = some ev')
    (hunknown : ¬ Known db ev) (hunknown' : ¬ Known db ev') (hkey : ev.idempotencyKey ≠ []) :
    ev'.idempotencyKey ≠ ev.idempotencyKey := by
  rcases List.getElem?_eq_some_iff.1 hev with ⟨hi, hget⟩
  rcases List.getElem?_eq_some_iff.1 hev' with ⟨hj, hget'⟩
  -- cut the batch at `ev`; the earlier event is in the front part
  have hcut : events = events.take i ++ ev :: events.drop (i + 1) := by
    rw [← hget, ← List.drop_eq_getElem_cons hi, List.take_append_drop]
  have hfront : ev' ∈ events.take i := by
    rw [← hget']
    exact List.mem_take_iff_getElem.2 ⟨j, by omega, rfl⟩
  have hfresh : freshEvents db events = freshEvents db (events.take i) ++
      ev :: freshEvents db (events.drop (i + 1)) := by
    conv_lhs => rw [hcut]
    simp [freshEvents, hunknown]
  have hfront' : ev' ∈ freshEvents db (events.take i) :=
    List.mem_filter.2 ⟨hfront, by simpa using hunknown'⟩
  have hdistinct := (List.pairwise_append.1 (List.map_append ▸ h.distinct)).2.1
  rw [List.pairwise_map, hfresh] at hdistinct
  have hpair := (List.pairwise_append.1 hdistinct).2.2 ev' hfront' ev List.mem_cons_self
  intro hsame
  rcases hpair with hempty | hne
  · exact hkey (hsame ▸ hempty)
  · exact hne hsame

section Law

variable {env : Env} {now : Nat → Int} {s : Store} {runId orgId projectId : Bytes}
  {events : List AuditEvent} {results : List InsertEventResult}

/-- A call whose batch is well-keyed replies lawfully. -/
theorem repliesLawful_of_ok (hs : Consistent s)
    (hwell : (Call.appendEvents runId orgId projectId events).WellKeyed s.rocks)
    (hok : (appendEvents env now s runId orgId projectId events).result = .ok results) :
    RepliesLawful s.rocks
      (s.applyAll (appendEvents env now s runId orgId projectId events).effects).rocks events
      results := by
  rcases appendReturned_of_ok hok with ⟨run, r, hreturned, rfl⟩
  have hkeys := hwell run hreturned.fetch
  have hforall : List.Forall₂ (ReplyOf s.rocks) events
      (replies s.rocks events (s.accepted env now run runId orgId projectId events)) :=
    replies_replyOf 0 events s.globalSeq run.lastEventHash
  refine ⟨hforall.length_eq.symm, ?_⟩
  intro i ev reply hev hreply hkey
  have hreplyOf : ReplyOf s.rocks ev reply := forall₂_getElem hforall hev hreply
  have hiff := isDuplicate_iff_known hs.represents hkeys (List.mem_of_getElem? hev)
  -- what was stored before the call is stored after it
  have hstored : ∀ e ∈ storedEvents s.rocks, e ∈ storedEvents
      (s.applyAll (appendEvents env now s runId orgId projectId events).effects).rocks := by
    intro e he
    rw [hreturned.rocks, hs.storedEvents_append env now events hreturned.fetch hreturned.same]
    exact List.mem_append_left _ he
  by_cases hknown : Known s.rocks ev
  · rcases hiff.2 hknown with ⟨e, he, hk, hresult⟩
    have hr : reply = { eventId := e.eventId, eventHash := e.eventHash, wasDuplicate := true } := by
      simpa [ReplyOf, hiff.1.2 hknown, hresult] using hreplyOf
    refine ⟨by simp [hr, hknown], fun _ => ⟨e, hstored e he, hk, by simp [hr]⟩⟩
  · have hnew : reply.wasDuplicate = false := by
      simpa [ReplyOf, mt hiff.1.1 hknown] using hreplyOf
    refine ⟨⟨by simp [hnew], ?_⟩, by simp [hnew]⟩
    rintro (hk | ⟨j, hj, ev', r', hev', hr', hsame, hr'new⟩)
    · exact (hknown hk).elim
    -- a reply that is not a duplicate is one of a fresh event
    · have hunknown' : ¬ Known s.rocks ev' := by
        intro hknown'
        have hdup := (isDuplicate_iff_known hs.represents hkeys (List.mem_of_getElem? hev')).1.2 hknown'
        have hreply' : r' = duplicateResult s.rocks ev' := by
          simpa [ReplyOf, hdup] using forall₂_getElem hforall hev' hr'
        simp [hreply', duplicateResult] at hr'new
      exact (fresh_keys_distinct hkeys hj hev hev' hknown hunknown' hkey hsame).elim

/-- The batch of a well-keyed call keeps the stored events well-keyed. -/
theorem Commit.wellKeyed {c : Call} {batch : List Put} {n : Nat} (hs : Consistent s)
    (hinv : WellKeyed ((storedEvents s.rocks).map keyAndId)) (hcall : c.WellKeyed s.rocks)
    (hcommit : Commit env now s c batch n) :
    WellKeyed ((storedEvents (s.rocks.write batch)).map keyAndId) := by
  cases hcommit with
  | @appendEvents runId orgId projectId events es run r hfetch hsame hes hhash hcount =>
      have hkeys := hcall run hfetch
      have haccepted : es.map keyAndId = (freshEvents s.rocks events).map keyAndId := by
        rw [hes, Store.accepted, acceptedEvents_keys, filter_not_duplicate hs.represents hkeys]
      have hstored := hs.storedEvents_append env now events hfetch hsame
      rw [← hes] at hstored
      rw [hstored, List.map_append, haccepted, ← List.map_append]
      exact hkeys
  | _ => exact hinv

end Law

/-! ## Runs -/

/-- Every `append_events` call of the run, interrupted or not, is well-keyed where it is made. -/
def WellKeyedRun (env : Env) : Store → List Action → Prop
  | _, [] => True
  | s, a :: rest =>
      (∀ c, a.call? = some c → c.WellKeyed s.rocks) ∧ WellKeyedRun env (a.run env s) rest

/-- In a run the replies of every completed `append_events` call are lawful, and no two events
are stored under one key. -/
def IdempotencyLaw (env : Env) (actions : List Action) : Prop :=
  OneEventPerKey (runActions env {} actions).rocks ∧
    ∀ before now runId orgId projectId events after results,
      actions = before ++ .call now (.appendEvents runId orgId projectId events) :: after →
      (appendEvents env now (runActions env {} before) runId orgId projectId events).result =
        .ok results →
      RepliesLawful (runActions env {} before).rocks
        (runActions env {} (before ++ [.call now (.appendEvents runId orgId projectId events)])).rocks
        events results

theorem wellKeyedRun_append {env : Env} {s : Store} {actions actions' : List Action} :
    WellKeyedRun env s (actions ++ actions') ↔
      WellKeyedRun env s actions ∧ WellKeyedRun env (runActions env s actions) actions' := by
  induction actions generalizing s with
  | nil => simp [WellKeyedRun]
  | cons a rest ih => simp [WellKeyedRun, ih, runActions, and_assoc]

/-- Step lemma: an action whose call is well-keyed keeps the stored events well-keyed. -/
theorem Action.wellKeyed {env : Env} {s : Store} {a : Action} (hs : Consistent s)
    (hinv : WellKeyed ((storedEvents s.rocks).map keyAndId))
    (hcall : ∀ c, a.call? = some c → c.WellKeyed s.rocks) :
    WellKeyed ((storedEvents (a.run env s).rocks).map keyAndId) := by
  generalize hc : a.call? = c
  have hdurable := hc ▸ a.durable env s
  cases hdurable with
  | quiet hrocks hseq => rwa [hrocks]
  | committed hcommit hrocks hseq =>
      rw [hrocks]
      exact hcommit.wellKeyed hs hinv (hcall _ hc)

/-- Run lemma. -/
theorem wellKeyed_runActions {env : Env} {actions : List Action}
    (h : WellKeyedRun env {} actions) :
    WellKeyed ((storedEvents (runActions env {} actions).rocks).map keyAndId) := by
  induction actions using List.reverseRecOn with
  | nil =>
      refine ⟨?_, ?_, ?_⟩ <;> simp [storedEvents]
  | append_singleton actions a ih =>
      rcases wellKeyedRun_append.1 h with ⟨hbefore, hlast, _⟩
      rw [runActions_concat]
      exact Action.wellKeyed (consistent_runActions env actions) (ih hbefore) hlast

theorem WellKeyed.oneEventPerKey {db : Rocks} (h : WellKeyed ((storedEvents db).map keyAndId)) :
    OneEventPerKey db :=
  List.pairwise_map.1 h.distinct

/-- In every run of well-keyed calls the idempotency law holds. -/
theorem idempotencyLaw_of_wellKeyed {env : Env} {actions : List Action}
    (h : WellKeyedRun env {} actions) : IdempotencyLaw env actions := by
  refine ⟨(wellKeyed_runActions h).oneEventPerKey, ?_⟩
  intro before now runId orgId projectId events after results hsplit hok
  subst hsplit
  rcases wellKeyedRun_append.1 h with ⟨_, hcall, _⟩
  rw [runActions_concat]
  exact repliesLawful_of_ok (consistent_runActions env before) (hcall _ rfl) hok

/-! ### Two runs -/

namespace IdempotencyExample

def run : AgentRun :=
  { runId := bytes "run_001", orgId := bytes "org_test", projectId := bytes "proj_test",
    environment := bytes "test", agentId := bytes "test-agent", status := bytes "running",
    startedAtMs := 1714521600000 }

/-- The event of the unit test, sent with a key. -/
def event : AuditEvent :=
  { eventId := bytes "evt_001", eventType := bytes "tool_call.completed",
    idempotencyKey := bytes "idem_001" }

def stamped (seq : Nat) (prevHash : HashStr) : AuditEvent :=
  { event with
    sequence := seq, orgId := run.orgId, projectId := run.projectId, runId := run.runId,
    environment := run.environment, schemaVersion := bytes "2026-05-01",
    payloadMode := bytes "metadata_only", occurredAtMs := 1714521600000,
    ingestedAtMs := 1714521600000, previousEventHash := prevHash }

def env : Env :=
  tableEnv [
    (canonicalJsonEvent (stamped 1 []), exampleDigest),
    (canonicalJsonEvent (stamped 2
        (bytes "sha256:3347619a89f360a3569da8373d828882415bc5e0c45e16f034f0e75ca3279451")),
      #v[68, 60, 36, 147, 180, 170, 22, 153, 206, 74, 38, 83, 74, 190, 92, 116,
        18, 162, 136, 243, 135, 169, 120, 220, 128, 220, 40, 225, 162, 77, 239, 155])]

def clock : Nat → Int := fun _ => 1714521600000

/-- The batches of a run, one call each. -/
def actions (batches : List (List AuditEvent)) : List Action :=
  .call clock (.startRun run) ::
    batches.map fun events => .call clock (.appendEvents run.runId run.orgId run.projectId events)

end IdempotencyExample

open IdempotencyExample in
/-- The unit test: the event is sent again in a second call. -/
theorem idempotencyLaw_resend : IdempotencyLaw env (actions [[event], [event]]) := by
  have hwell : WellKeyedRun env {} (actions [[event], [event]]) := by
    refine ⟨?_, ?_, ?_, trivial⟩ <;> rintro c hc <;> cases hc
    · trivial
    · intro run' _
      refine ⟨?_, ?_, ?_⟩ <;> decide +kernel
    · intro run' _
      refine ⟨?_, ?_, ?_⟩ <;> decide +kernel
  exact idempotencyLaw_of_wellKeyed hwell

open IdempotencyExample in
/-- The event is sent twice in one batch: both copies are stored. -/
theorem idempotencyLaw_fails_in_batch : ¬ IdempotencyLaw env (actions [[event, event]]) := by
  intro hlaw
  have hone := hlaw.1
  have htwo : ¬ OneEventPerKey (runActions env {} (actions [[event, event]])).rocks := by
    unfold OneEventPerKey
    decide +kernel
  exact htwo hone

end ControlDB
