import ControlDB.Collector.Provenance
import ControlDB.Collector.Resent
import ControlDB.Sdk.Delivery
import ControlDB.Sdk.EventKeys
import ControlDB.Sdk.Transport

/-!
# From a run to the collector

A run of the Python SDK, the collector, and what is between them.  Each attempt of `Transport.request`
puts the body of `post_events` on the wire, where it may be lost, arrive late, or arrive again; the
answer may be lost as well, and then the SDK keeps the events and sends them once more.  Other clients
use the collector at any time.

The client has no spool and does not fail open.
-/

namespace ControlDB
namespace Sdk

open Library Python Http

/-! ## The body -/

/-- The body of `post_events`. -/
def eventsBody (events : List EventEnvelope) : PyJson :=
  .obj [("events", .arr (events.map fun event => .obj event.toDict))]

/-- What `post_events` hands to the transport. -/
def postRequest (runId : String) (events : List EventEnvelope) : HttpRequest :=
  Py.httpRequest "POST" s!"/v1/runs/{runId}/events" (some (eventsBody events))
    (PyJson.str (batchKey runId events))

/-- The event as the collector reads it. -/
def EventEnvelope.input (event : EventEnvelope) : Collector.EventInput :=
  { eventId := some event.eventId
    eventType := event.eventType
    schemaVersion := some event.schemaVersion
    payloadMode := event.payloadMode
    payload := event.payload
    payloadHash := event.payloadHash
    stepId := event.stepId
    stepIndex := event.stepIndex
    actor := some [("type", PyJson.str event.actor.type), ("id", PyJson.str event.actor.id)]
    occurredAt := some event.occurredAt
    traceId := event.traceId
    spanId := event.spanId
    parentSpanId := event.parentSpanId
    idempotencyKey := event.idempotencyKey }

/-- A payload is `null` or an object. -/
def IsDict (payload : PyJson) : Prop :=
  payload = PyJson.none ∨ ∃ members, payload = .obj members

theorem isDict_captured (payload redacted : PyValue) (mode : PayloadMode) :
    IsDict (captured payload redacted mode).1 := by
  have hdict : ∀ v, IsDict (asPayload v) := fun v => by
    cases v with
    | dict members => exact .inr ⟨_, PyValue.toJson_dict members⟩
    | _ => exact .inr ⟨_, rfl⟩
  cases mode with
  | metadataOnly => exact .inl rfl
  | hashOnly => exact .inl rfl
  | redactedPayload => exact hdict redacted
  | fullPayload => exact hdict payload
  | selfHostedPayload => exact .inr ⟨_, rfl⟩

theorem isDict_of_prepare {env : Env} {client : Client} {e : Emission} {prepared : Prepared}
    (h : prepare env client e = .ok prepared) : IsDict prepared.payload := by
  rcases captured_of_prepare h with hnone | ⟨redacted, mode, hash, hpayload, _⟩
  · exact .inl hnone
  · rw [hpayload]
    exact isDict_captured e.payload redacted mode

theorem optionalStrField_optStr {members : Members} {name : String} {value : Option String}
    (h : members.lookup name = some (PyJson.optStr value)) :
    Collector.optionalStrField members name = some value := by
  rw [Collector.optionalStrField, h]
  cases value <;> rfl

/-- The collector reads every member of `EventEnvelope.to_dict` as it was written. -/
theorem validate_toDict (lax : PyJson → Option Int) {event : EventEnvelope}
    (hpayload : IsDict event.payload) :
    Collector.EventInput.validate lax (.obj event.toDict) = some event.input := by
  have hstr : ∀ {name value}, event.toDict.lookup name = some (PyJson.optStr value) →
      Collector.optionalStrField event.toDict name = some value :=
    fun h => optionalStrField_optStr h
  have hpayload' : Collector.optionalDictField event.toDict "payload" = some event.payload := by
    have hlookup : event.toDict.lookup "payload" = some event.payload := rfl
    rw [Collector.optionalDictField, hlookup]
    rcases hpayload with hnone | ⟨members, hobj⟩
    · rw [hnone]
      rfl
    · rw [hobj]
  have hindex : Collector.optionalIntField lax event.toDict "step_index" = some event.stepIndex := by
    have hlookup : event.toDict.lookup "step_index" = some (PyJson.optInt event.stepIndex) := rfl
    rw [Collector.optionalIntField, hlookup]
    cases event.stepIndex <;> rfl
  have htype : Collector.strField event.toDict "event_type" = some event.eventType := rfl
  have hmode : Collector.strFieldOr "metadata_only" event.toDict "payload_mode" =
      some event.payloadMode := rfl
  have hactor : Collector.optionalDictField event.toDict "actor" = some event.actor.toDict := rfl
  have hid : Collector.optionalStrField event.toDict "event_id" = some (some event.eventId) := rfl
  have hversion : Collector.optionalStrField event.toDict "schema_version" =
      some (some event.schemaVersion) := rfl
  have hhash : Collector.optionalStrField event.toDict "event_hash" =
      some (some event.eventHash) := rfl
  have hoccurred : Collector.optionalStrField event.toDict "occurred_at" =
      some (some event.occurredAt) := rfl
  have hingested : Collector.optionalStrField event.toDict "ingested_at" =
      some (some event.ingestedAt) := rfl
  simp only [Collector.EventInput.validate, hid, htype, hversion, hmode, hpayload',
    @hstr "payload_hash" event.payloadHash rfl, @hstr "previous_event_hash" event.previousEventHash rfl,
    hhash, @hstr "step_id" event.stepId rfl, hindex, hactor, hoccurred, hingested,
    @hstr "trace_id" event.traceId rfl, @hstr "span_id" event.spanId rfl,
    @hstr "parent_span_id" event.parentSpanId rfl,
    @hstr "idempotency_key" event.idempotencyKey rfl, Option.bind_eq_bind, Option.bind_some,
    Option.pure_def]
  rfl

theorem eventsRequest_eventsBody (lax : PyJson → Option Int) {events : List EventEnvelope}
    (hpayload : ∀ event ∈ events, IsDict event.payload) :
    Collector.eventsRequest lax (eventsBody events) = some (events.map EventEnvelope.input) := by
  have hitems : (events.map fun event => JsonTree.obj event.toDict).mapM
      (Collector.EventInput.validate lax) = some (events.map EventEnvelope.input) := by
    induction events with
    | nil => rfl
    | cons event rest ih =>
        have hrest := ih fun e he => hpayload e (List.mem_cons_of_mem event he)
        rw [List.map_cons, List.mapM_cons,
          validate_toDict lax (hpayload event List.mem_cons_self), hrest]
        rfl
  exact hitems

/-! ## Moves of a run -/

/-- An effect that posts nothing. -/
def Work (env : Env) (client : Client) (s s' : RunState) : Prop :=
  Effect env client s s' ∧ s'.world.posts = s.world.posts

/-- Every call of a run is made of such effects and of `_flush`. -/
theorem calls_moves (env : Env) (client : Client) (s : RunState) (calls : List Call) :
    Relation.ReflTransGen
      (fun s s' => Work env client s s' ∨ s' = (flush env client).final s) s
      (calls.foldl (step env client) s) := by
  have hsteady : Steady env client fun s' => Relation.ReflTransGen
      (fun s s' => Work env client s s' ∨ s' = (flush env client).final s) s s' := by
    refine ⟨fun hs heffect hposts => hs.tail (.inl ⟨heffect, hposts⟩), fun s' hs => ?_⟩
    exact Relation.ReflTransGen.tail hs (.inr rfl)
  exact List.foldlRecOn calls _ .refl fun s' hs c _ => keeps_call hsteady c s' hs

/-- An event that `_emit` has built for the run. -/
def Made (env : Env) (client : Client) (runId : String) (event : EventEnvelope) : Prop :=
  ∃ s e prepared hash, prepare env client e = .ok prepared ∧ s.run.runId = runId ∧
    event = eventOf env client s e prepared hash

/-- A row with an id and a key that the run never gives. -/
def Foreign (env : Env) (runId : String) (row : Collector.AuditEvent) : Prop :=
  (∀ n, row.eventId ≠ (env.stamp n).eventId) ∧
    ∀ n eventType, row.idempotencyKey ≠ some (eventKey runId (some n) eventType)

section Events

variable {env : Env} {client : Client} {runId : String} {event : EventEnvelope}

theorem Made.isDict (h : Made env client runId event) : IsDict event.payload := by
  rcases h with ⟨s, e, prepared, hash, hprepare, _, rfl⟩
  exact isDict_of_prepare hprepare

theorem Made.eventId (h : Made env client runId event) :
    ∃ n, event.eventId = (env.stamp n).eventId := by
  rcases h with ⟨s, e, prepared, hash, _, _, rfl⟩
  exact ⟨s.world.stamps, rfl⟩

theorem Made.idempotencyKey (h : Made env client runId event) :
    ∃ n eventType, event.idempotencyKey = some (eventKey runId (some n) eventType) := by
  rcases h with ⟨s, e, prepared, hash, _, rfl, rfl⟩
  exact ⟨e.index s.run, e.eventType, rfl⟩

theorem truthy_of_ne {s : String} (h : s ≠ "") : Collector.truthy (some s) = some s := by
  simp [Collector.truthy, h]

theorem eventKey_ne_empty (runId : String) (n : Int) (eventType : String) :
    eventKey runId (some n) eventType ≠ "" := by
  intro hempty
  have hlist := congrArg String.toList hempty
  rw [toList_eventKey] at hlist
  simp at hlist

theorem Made.named (h : Made env client runId event) (hstamps : ∀ n, (env.stamp n).eventId ≠ "") :
    event.input.Named := by
  refine ⟨⟨?_, rfl⟩, ?_⟩
  · rcases h.eventId with ⟨n, hid⟩
    exact truthy_of_ne (hid ▸ hstamps n)
  · rcases h.idempotencyKey with ⟨n, eventType, hkey⟩
    have hinput : event.input.idempotencyKey = some (eventKey runId (some n) eventType) := hkey
    rw [hinput, truthy_of_ne (eventKey_ne_empty runId n eventType), Option.isSome_some]

theorem Foreign.eventId_ne {row : Collector.AuditEvent} (h : Foreign env runId row)
    (hmade : Made env client runId event) : row.eventId ≠ event.eventId := by
  rcases hmade.eventId with ⟨n, hid⟩
  exact hid ▸ h.1 n

theorem Foreign.idempotencyKey_ne {row : Collector.AuditEvent} (h : Foreign env runId row)
    (hmade : Made env client runId event) : row.idempotencyKey ≠ event.idempotencyKey := by
  rcases hmade.idempotencyKey with ⟨n, eventType, hkey⟩
  exact hkey ▸ h.2 n eventType

end Events

/-! ## The transport -/

theorem answered_of_returned {text : PyJson → String} {last : Bool} {exchanged : Exchange}
    (h : (Py.judge text last exchanged).isReturned = true) :
    ∃ resp, exchanged = .answered resp ∧ resp.status < 400 := by
  cases exchanged with
  | httpError reason => cases h
  | raised reason => cases h
  | answered resp =>
      refine ⟨resp, rfl, ?_⟩
      by_contra hge
      cases hjudge : Py.judge text last (.answered resp) with
      | returned doc => exact Py.judge_refusal text last (Nat.le_of_not_lt hge) doc hjudge
      | retry e =>
          rw [hjudge] at h
          cases h
      | raised e =>
          rw [hjudge] at h
          cases h

/-- A request that returns was answered with a status below 400. -/
theorem answered_of_request {text : PyJson → String} {maxRetries : Int}
    {exchange : Nat → HttpRequest → Exchange} {req : HttpRequest} {retry : Bool} {doc : PyJson}
    (h : Py.request text maxRetries exchange req retry = .ok doc) :
    ∃ attempt resp, exchange attempt req = .answered resp ∧ resp.status < 400 := by
  rcases (attemptLoop_ok_iff _ _ _).1 ⟨doc, h⟩ with ⟨k, _, hreturned, _⟩
  rcases answered_of_returned hreturned with ⟨resp, hanswered, hstatus⟩
  exact ⟨0 + k, resp, hanswered, hstatus⟩

/-! ## The wire -/

/-- The run, the collector, the batches that were put on the wire, and what the collector has answered
to each. -/
structure Wire where
  sdk : RunState
  server : Collector.Server
  sent : List (List EventEnvelope) := []
  replies : List (List EventEnvelope × Collector.Reply) := []

section System

variable (env : Env) (client : Client) (text : PyJson → String) (maxRetries : Int)
  (collector : Collector.Env) (opens : String → Bool) (lax : PyJson → Option Int)

/-- What the transport makes of the request of `_flush` comes from attempts, and a status below 400 is
that of an answer which the collector has given to this batch. -/
def Wire.Truthful (w : Wire) : Prop :=
  let req := postRequest w.sdk.run.runId w.sdk.run.buffer
  ∃ exchange,
    env.request w.sdk.world.posts w.sdk.run.runId w.sdk.run.buffer
        (batchKey w.sdk.run.runId w.sdk.run.buffer) =
      Py.request text maxRetries exchange req true ∧
    ∀ attempt resp, exchange attempt req = .answered resp → 400 ≤ resp.status ∨
      ∃ reply, (w.sdk.run.buffer, reply) ∈ w.replies ∧ reply.status = resp.status

/-- A batch that was sent may arrive at any time, again and again, or never; the answer may get lost. -/
inductive Wire.Step : Wire → Wire → Prop
  | worked {w : Wire} {s' : RunState} (hwork : Work env client w.sdk s') :
      Step w { w with sdk := s' }
  | flushed {w : Wire} (htruthful : w.Truthful env text maxRetries) :
      Step w { w with sdk := (flush env client).final w.sdk }
  | sent {w : Wire} (hbuffer : w.sdk.run.buffer ≠ []) :
      Step w { w with sent := w.sdk.run.buffer :: w.sent }
  | arrived {w : Wire} {batch : List EventEnvelope} {events : List Collector.EventInput}
      {req : Collector.Incoming} (hsent : batch ∈ w.sent)
      (hbody : Collector.eventsRequest lax (eventsBody batch) = some events)
      (hreq : req.endpoint = .runsEvents w.sdk.run.runId events) :
      Step w
        { w with
          server := (Collector.serve collector opens w.server req).1
          replies := (batch, (Collector.serve collector opens w.server req).2) :: w.replies }
  | elsewhere {w : Wire} (step : Collector.ServerStep)
      (hforeign : ∀ row ∈ (step.run collector opens w.server).store.db.auditEvents.drop
        w.server.store.db.auditEvents.length, Foreign env w.sdk.run.runId row) :
      Step w { w with server := step.run collector opens w.server }

end System

/-- The wire as the channel of the abstract model. -/
structure Carries (env : Env) (client : Client) (collector : Collector.Env) (runId : String)
    (w : Wire) (c : Channel Collector.EventInput) : Prop where
  run : w.sdk.run.runId = runId
  accounted : Accounted w.sdk
  made : ∀ event ∈ w.sdk.world.emitted, Made env client runId event
  emitted : c.emitted = w.sdk.world.emitted.map EventEnvelope.input
  acked : c.acked = w.sdk.world.delivered.flatten.length
  sent : ∀ batch ∈ w.sent, batch ⊆ w.sdk.world.emitted ∧ batch.map EventEnvelope.input ∈ c.sent
  answered : ∀ batch reply, (batch, reply) ∈ w.replies → reply.status < 400 →
    batch.map EventEnvelope.input ∈ c.answered
  sound : Collector.Sound w.server.store.db
  stored : Collector.Holds collector runId c.emitted c.stored w.server.store.db.auditEvents
  others : ∀ row ∈ w.server.store.db.auditEvents,
    some row.eventId ∈ c.emitted.map Collector.EventInput.eventId ∨ Foreign env runId row

section Simulation

variable {env : Env} {client : Client} {text : PyJson → String} {maxRetries : Int}
  {collector : Collector.Env} {opens : String → Bool} {lax : PyJson → Option Int} {runId : String}
  {w w' : Wire} {c : Channel Collector.EventInput}

/-- What the SDK keeps is what the sender keeps. -/
theorem Carries.waiting (h : Carries env client collector runId w c) :
    c.waiting = w.sdk.run.buffer.map EventEnvelope.input := by
  rw [Channel.waiting, h.emitted, h.acked, ← h.accounted, ← List.map_drop, List.drop_left]

/-- The request of a client without a spool returns only for an answer below 400. -/
theorem exists_reply_of_posted (hspool : client.hasSpool = false) (hclosed : client.failOpen = false)
    (htruthful : w.Truthful env text maxRetries) {doc : PyJson}
    (h : postOutcome env client w.sdk = .ok doc) :
    ∃ reply, (w.sdk.run.buffer, reply) ∈ w.replies ∧ reply.status < 400 := by
  rcases htruthful with ⟨exchange, hrequest, hanswers⟩
  unfold postOutcome posted at h
  rw [hrequest] at h
  cases hresult : Py.request text maxRetries exchange
      (postRequest w.sdk.run.runId w.sdk.run.buffer) true with
  | error e => simp [hresult, hspool, hclosed] at h
  | ok answer =>
      rcases answered_of_request hresult with ⟨attempt, resp, hexchange, hstatus⟩
      rcases hanswers attempt resp hexchange with hge | ⟨reply, hreply, hsame⟩
      · exact absurd hstatus (Nat.not_lt.2 hge)
      · exact ⟨reply, hreply, hsame ▸ hstatus⟩

/-- Step lemma for the SDK's own work: an event is emitted, or nothing of the channel changes. -/
theorem Carries.worked (h : Carries env client collector runId w c) {s' : RunState}
    (hwork : Work env client w.sdk s')
    (hids : (s'.world.emitted.map EventEnvelope.eventId).Nodup)
    (hkeys : (s'.world.emitted.map EventEnvelope.idempotencyKey).Nodup) :
    ∃ c', Relation.ReflTransGen (Channel.Step Collector.EventInput.idempotencyKey) c c' ∧
      Carries env client collector runId { w with sdk := s' } c' := by
  rcases hwork with ⟨heffect, hposts⟩
  have haccounted := accounted_effect h.accounted heffect
  cases heffect with
  | @appended e prepared hash hprepared hhash =>
      have hmade : Made env client runId (eventOf env client w.sdk e prepared hash) :=
        ⟨w.sdk, e, prepared, hash, hprepared, h.run, rfl⟩
      generalize hevent : eventOf env client w.sdk e prepared hash = event at hmade
      have hemitted : (w.sdk.appended env client e prepared hash).world.emitted =
          w.sdk.world.emitted ++ [event] := by rw [← hevent, RunState.appended]
      rw [hemitted, List.map_append, List.map_singleton, List.nodup_append] at hids hkeys
      have hnew : event.input.idempotencyKey ∉
          c.emitted.map Collector.EventInput.idempotencyKey := by
        rw [h.emitted, List.map_map]
        exact fun hmem => hkeys.2.2 _ hmem _ (List.mem_singleton_self _) rfl
      refine ⟨_, .single (.emit hnew), ?_⟩
      -- no row has the new id: the rows of the run have earlier ones, the others are of other runs
      have hrow : ∀ row ∈ w.server.store.db.auditEvents, some row.eventId ≠ event.input.eventId := by
        intro row hrow hsame
        rcases h.others row hrow with hown | hforeign
        · rw [h.emitted, List.map_map] at hown
          rcases List.mem_map.1 hown with ⟨earlier, hearlier, hid⟩
          exact hids.2.2 _ (List.mem_map_of_mem hearlier) _ (List.mem_singleton_self _)
            (Option.some.inj (hid.trans hsame))
        · exact hforeign.eventId_ne hmade (Option.some.inj hsame)
      exact {
        run := h.run
        accounted := haccounted
        made := fun x hx => by
          rw [hemitted] at hx
          rcases List.mem_append.1 hx with hold | hlast
          · exact h.made x hold
          · exact List.mem_singleton.1 hlast ▸ hmade
        emitted := by rw [hemitted, List.map_append, h.emitted, List.map_singleton]
        acked := h.acked
        sent := fun batch hbatch => by
          rw [hemitted]
          exact ⟨List.subset_append_of_subset_left _ (h.sent batch hbatch).1,
            (h.sent batch hbatch).2⟩
        answered := h.answered
        sound := h.sound
        stored := h.stored.add_event hrow fun row hmem => (h.others row hmem).imp_right fun hforeign =>
          hforeign.idempotencyKey_ne hmade
        others := fun row hmem => (h.others row hmem).imp_left fun hown => by
          rw [List.map_append]
          exact List.mem_append_left _ hown }
  | delivered hbuffer => exact absurd hposts (Nat.succ_ne_self _)
  | retained hbuffer => exact absurd hposts (Nat.succ_ne_self _)
  | asked => exact ⟨c, .refl, { h with }⟩
  | marked status committed closed => exact ⟨c, .refl, { h with }⟩

/-- Step lemma for `_flush`: what is answered is acknowledged, and what is not is kept. -/
theorem Carries.flushed (h : Carries env client collector runId w c)
    (hspool : client.hasSpool = false) (hclosed : client.failOpen = false)
    (htruthful : w.Truthful env text maxRetries) :
    ∃ c', Relation.ReflTransGen (Channel.Step Collector.EventInput.idempotencyKey) c c' ∧
      Carries env client collector runId { w with sdk := (flush env client).final w.sdk } c' := by
  by_cases hbuffer : w.sdk.run.buffer = []
  · rw [Prog.final, exec_flush_nil hbuffer]
    exact ⟨c, .refl, h⟩
  · rw [Prog.final, exec_flush hbuffer]
    cases hpost : postOutcome env client w.sdk with
    | error e => exact ⟨c, .refl, { h with }⟩
    | ok doc =>
        rcases exists_reply_of_posted hspool hclosed htruthful hpost with ⟨reply, hreply, hstatus⟩
        have hanswered := h.answered _ reply hreply hstatus
        rw [← h.waiting] at hanswered
        have hdelivered : Accounted w.sdk.delivered :=
          @accounted_effect env client _ _ h.accounted (.delivered hbuffer)
        refine ⟨_, .single (.acknowledge hanswered), { h with accounted := hdelivered, acked := ?_ }⟩
        have hlength := congrArg List.length hdelivered
        rw [List.length_append] at hlength
        rw [h.emitted, List.length_map]
        exact hlength.symm

theorem Carries.read (h : Carries env client collector runId w c) {batch : List EventEnvelope}
    {events : List Collector.EventInput} (hsent : batch ∈ w.sent)
    (hbody : Collector.eventsRequest lax (eventsBody batch) = some events) :
    events = batch.map EventEnvelope.input ∧ events ⊆ c.emitted ∧ events ∈ c.sent := by
  rcases h.sent batch hsent with ⟨hbatch, hcarried⟩
  have hsame := eventsRequest_eventsBody lax fun event hevent => (h.made event (hbatch hevent)).isDict
  obtain rfl := Option.some.inj (hbody.symm.trans hsame)
  refine ⟨rfl, ?_, hcarried⟩
  rw [h.emitted]
  exact List.map_subset _ hbatch

theorem Carries.distinct (h : Carries env client collector runId w c)
    (hstamps : ∀ n, (env.stamp n).eventId ≠ "")
    (hids : (w.sdk.world.emitted.map EventEnvelope.eventId).Nodup)
    (hkeys : (w.sdk.world.emitted.map EventEnvelope.idempotencyKey).Nodup) :
    Collector.Distinct c.emitted := by
  rw [h.emitted]
  refine ⟨fun x hx => ?_, ?_, ?_⟩
  · rcases List.mem_map.1 hx with ⟨event, hevent, rfl⟩
    exact (h.made event hevent).named hstamps
  · have hsome := hids.map (Option.some_injective String)
    rw [List.map_map] at hsome ⊢
    exact hsome
  · rw [List.map_map]
    exact hkeys

/-- A row that a batch adds is that of an event. -/
theorem Carries.row_cases (h : Carries env client collector runId w c)
    (hdistinct : Collector.Distinct c.emitted) {m : Collector.Moment}
    {principal : Collector.Principal} {events : List Collector.EventInput} {ids : List String}
    {db' : Collector.Database} (hsubset : events ⊆ c.emitted)
    (happended : Collector.Appended collector m w.server.store.db principal runId events db' ids) :
    ∀ row ∈ db'.auditEvents, row ∈ w.server.store.db.auditEvents ∨
      some row.eventId ∈ c.emitted.map Collector.EventInput.eventId := by
  intro row hrow
  have hstored := happended.holds h.sound hdistinct hsubset h.stored
  rcases happended.appends h.sound with rfl | happends
  · exact .inl hrow
  · cases happends with
    | mk _ _ _ _ hrows =>
        rcases List.mem_append.1 hrow with hold | hnew
        · exact .inl hold
        · -- it has the key of an event of the batch
          rcases hrows row hnew with ⟨_, _, x, hx, _, hkey⟩
          refine .inr ((hstored.others row hrow).resolve_right fun hother => hother ?_)
          rw [hkey]
          exact List.mem_map_of_mem (hsubset hx)

/-- Step lemma for an arrival: a batch that is answered is stored. -/
theorem Carries.arrived (h : Carries env client collector runId w c)
    (hdistinct : Collector.Distinct c.emitted) {batch : List EventEnvelope}
    {events : List Collector.EventInput} {req : Collector.Incoming} (hsent : batch ∈ w.sent)
    (hbody : Collector.eventsRequest lax (eventsBody batch) = some events)
    (hreq : req.endpoint = .runsEvents w.sdk.run.runId events) :
    ∃ c', Relation.ReflTransGen (Channel.Step Collector.EventInput.idempotencyKey) c c' ∧
      Carries env client collector runId
        { w with
          server := (Collector.serve collector opens w.server req).1
          replies := (batch, (Collector.serve collector opens w.server req).2) :: w.replies } c' := by
  rcases h.read hsent hbody with ⟨rfl, hsubset, hcarried⟩
  rw [h.run] at hreq
  rcases Collector.serve_runsEvents collector opens w.server hreq with
    ⟨hserver, hrefused⟩ | ⟨principal, db', ids, happend, hserver⟩
  · -- a request that is refused leaves the database alone, and its reply acknowledges nothing
    rw [hserver]
    refine ⟨c, .refl, { h with answered := fun b reply hreply hstatus => ?_ }⟩
    rcases List.mem_cons.1 hreply with hnew | hold
    · cases hnew
      exact absurd hstatus (Nat.not_lt.2 hrefused)
    · exact h.answered b reply hold hstatus
  · have happended := Collector.appended_of_ok happend
    rw [hserver]
    refine ⟨_, .single (.receive hcarried), { h with
      answered := fun b reply hreply hstatus => ?_
      sound := ?_
      stored := happended.holds h.sound hdistinct hsubset h.stored
      others := fun row hrow => ?_ }⟩
    · rcases List.mem_cons.1 hreply with hnew | hold
      · cases hnew
        exact List.mem_cons_self
      · exact List.mem_cons_of_mem _ (h.answered b reply hold hstatus)
    · exact Collector.sound_of_changes h.sound
        (Collector.changes_of_change (happended.change h.sound))
    · rcases h.row_cases hdistinct hsubset happended row hrow with hold | hown
      · exact h.others row hold
      · exact .inl hown

/-- Step lemma for the others: their rows are none of the run's. -/
theorem Carries.elsewhere (h : Carries env client collector runId w c) {step : Collector.ServerStep}
    (hforeign : ∀ row ∈ (step.run collector opens w.server).store.db.auditEvents.drop
      w.server.store.db.auditEvents.length, Foreign env w.sdk.run.runId row) :
    Carries env client collector runId { w with server := step.run collector opens w.server } c := by
  rcases @Collector.server_rows collector opens _ h.sound step with ⟨more, hrows⟩
  rw [← hrows, List.drop_left, h.run] at hforeign
  have hmore : ∀ row ∈ more, some row.eventId ∉ c.emitted.map Collector.EventInput.eventId ∧
      row.idempotencyKey ∉ c.emitted.map Collector.EventInput.idempotencyKey := by
    intro row hrow
    rw [h.emitted, List.map_map, List.map_map]
    refine ⟨fun hmem => ?_, fun hmem => ?_⟩
    · rcases List.mem_map.1 hmem with ⟨event, hevent, hid⟩
      exact (hforeign row hrow).eventId_ne (h.made event hevent) (Option.some.inj hid).symm
    · rcases List.mem_map.1 hmem with ⟨event, hevent, hkey⟩
      exact (hforeign row hrow).idempotencyKey_ne (h.made event hevent) hkey.symm
  refine { h with
    sound := Collector.sound_server step h.sound
    stored := ?_
    others := fun row hrow => ?_ }
  · rw [← hrows]
    exact h.stored.append_others hmore
  · rw [← hrows] at hrow
    rcases List.mem_append.1 hrow with hold | hnew
    · exact h.others row hold
    · exact .inr (hforeign row hnew)

/-- No event is taken back. -/
theorem Wire.Step.emitted (hstep : Wire.Step env client text maxRetries collector opens lax w w') :
    w.sdk.world.emitted <+: w'.sdk.world.emitted := by
  cases hstep with
  | worked hwork =>
      rcases hwork with ⟨heffect, _⟩
      cases heffect with
      | appended => exact List.prefix_append _ _
      | _ => exact List.prefix_rfl
  | flushed =>
      rw [silent_flush.final_eq]
  | _ => exact List.prefix_rfl

/-- Step lemma: every step of the wire is made of steps of the channel. -/
theorem Carries.step (h : Carries env client collector runId w c)
    (hspool : client.hasSpool = false) (hclosed : client.failOpen = false)
    (hstamps : ∀ n, (env.stamp n).eventId ≠ "")
    (hstep : Wire.Step env client text maxRetries collector opens lax w w')
    (hids : (w'.sdk.world.emitted.map EventEnvelope.eventId).Nodup)
    (hkeys : (w'.sdk.world.emitted.map EventEnvelope.idempotencyKey).Nodup) :
    ∃ c', Relation.ReflTransGen (Channel.Step Collector.EventInput.idempotencyKey) c c' ∧
      Carries env client collector runId w' c' := by
  cases hstep with
  | worked hwork => exact h.worked hwork hids hkeys
  | flushed htruthful => exact h.flushed hspool hclosed htruthful
  | sent hbuffer =>
      refine ⟨_, .single .send, { h with sent := fun batch hbatch => ?_, answered := h.answered }⟩
      rcases List.mem_cons.1 hbatch with rfl | hold
      · refine ⟨?_, ?_⟩
        · rw [← h.accounted]
          exact List.subset_append_right _ _
        · rw [h.waiting]
          exact List.mem_cons_self
      · exact ⟨(h.sent batch hold).1, List.mem_cons_of_mem _ (h.sent batch hold).2⟩
  | arrived hsent hbody hreq =>
      exact h.arrived (h.distinct hstamps hids hkeys) hsent hbody hreq
  | elsewhere step hforeign => exact ⟨c, .refl, h.elsewhere hforeign⟩

/-- The run has just been opened, and no row has one of its names. -/
theorem carries_start {agentId : String} {agentVersion : Option String} {environment : String}
    {traceId : Option String} {server : Collector.Server}
    (hdb : Collector.Sound server.store.db)
    (hrows : ∀ row ∈ server.store.db.auditEvents, Foreign env runId row) :
    Carries env client collector runId
      { sdk := RunState.start runId agentId agentVersion environment traceId, server } {} where
  run := rfl
  accounted := rfl
  made _ h := absurd h List.not_mem_nil
  emitted := rfl
  acked := rfl
  sent _ h := absurd h List.not_mem_nil
  answered _ _ h := absurd h List.not_mem_nil
  sound := hdb
  stored := by
    refine ⟨fun _ h => h, ?_, fun row _ => .inr List.not_mem_nil⟩
    have hnone : Collector.rowsOf [] server.store.db.auditEvents = [] :=
      List.filter_eq_nil_iff.2 fun row _ hown => absurd (of_decide_eq_true hown) List.not_mem_nil
    rw [hnone]
    exact .nil
  others row h := .inr (hrows row h)

end Simulation

section Ingestion

variable {env : Env} {client : Client} {text : PyJson → String} {maxRetries : Int}
  {collector : Collector.Env} {opens : String → Bool} {lax : PyJson → Option Int}
  {runId agentId : String} {agentVersion : Option String} {environment : String}
  {traceId : Option String} {server : Collector.Server} {w : Wire}
  {c : Channel Collector.EventInput}

/-- The wire refines the channel. -/
theorem exists_channel (hspool : client.hasSpool = false) (hclosed : client.failOpen = false)
    (hstamps : ∀ n, (env.stamp n).eventId ≠ "") (hdb : Collector.Sound server.store.db)
    (hrows : ∀ row ∈ server.store.db.auditEvents, Foreign env runId row)
    (h : Relation.ReflTransGen (Wire.Step env client text maxRetries collector opens lax)
      { sdk := RunState.start runId agentId agentVersion environment traceId, server } w)
    (hids : (w.sdk.world.emitted.map EventEnvelope.eventId).Nodup)
    (hkeys : (w.sdk.world.emitted.map EventEnvelope.idempotencyKey).Nodup) :
    ∃ c, Relation.ReflTransGen (Channel.Step Collector.EventInput.idempotencyKey) {} c ∧
      Carries env client collector runId w c := by
  induction h with
  | refl => exact ⟨{}, .refl, carries_start hdb hrows⟩
  | @tail w w' _ hstep ih =>
      -- what is distinct among more events was distinct before
      have hbefore := hstep.emitted.sublist
      rcases ih (hids.sublist (hbefore.map _)) (hkeys.sublist (hbefore.map _)) with ⟨c, hc, hcarries⟩
      rcases hcarries.step hspool hclosed hstamps hstep hids hkeys with ⟨c', hc', hcarries'⟩
      exact ⟨c', hc.trans hc', hcarries'⟩

/-- What is delivered is stored, what is stored was emitted, and the rows are those of what is stored. -/
theorem Carries.exists_stored (h : Carries env client collector runId w c)
    (hc : Relation.ReflTransGen (Channel.Step Collector.EventInput.idempotencyKey) {} c) :
    ∃ stored, w.sdk.world.delivered.flatten <+: stored ∧ stored <+: w.sdk.world.emitted ∧
      List.Forall₂ (fun event row => Collector.Recorded collector runId event.input row) stored
        (Collector.rowsOf (w.sdk.world.emitted.map EventEnvelope.input)
          (Collector.runEvents w.server.store.db runId)) := by
  rcases (Channel.lawful_of_run hc).stored with ⟨n, hacked, hn, hstored⟩
  have hrecorded := h.stored.recorded
  rw [hstored, h.emitted, ← List.map_take, List.forall₂_map_left_iff] at hrecorded
  refine ⟨w.sdk.world.emitted.take n, ?_, List.take_prefix n _, ?_⟩
  · rw [h.acked] at hacked
    have hfront : w.sdk.world.delivered.flatten <+: w.sdk.world.emitted :=
      ⟨w.sdk.run.buffer, h.accounted⟩
    exact List.prefix_take_iff.2 ⟨hfront, hacked⟩
  · rw [← h.emitted, h.stored.rowsOf_runEvents h.sound, h.emitted]
    exact hrecorded

end Ingestion

section Once

variable {env : Env} {client : Client} {text : PyJson → String} {maxRetries : Int}
  {collector : Collector.Env} {opens : String → Bool} {lax : PyJson → Option Int}
  {runId agentId : String} {agentVersion : Option String} {environment : String}
  {traceId : Option String} {server : Collector.Server} {w : Wire}

end Once

/-! ## An answer that was lost -/

namespace IngestionExample

/-- SHA-256 of the texts that occur, told apart by their lengths: the key of the client, the two
events as the SDK hashes them, and the two as the collector does. -/
def sha256 (data : Bytes) : Vector UInt8 32 :=
  if data.length = 8 then Collector.AuthExample.sha256 data
  else if data.length = 548 then
    #v[0xaa, 0xa9, 0xab, 0x12, 0xa7, 0xad, 0xac, 0x96, 0xab, 0xa4, 0x29, 0xcd, 0xb6, 0x71, 0xda,
      0xfc, 0x5f, 0xae, 0xd7, 0x04, 0xfd, 0x21, 0xc1, 0x01, 0xbf, 0xef, 0xc0, 0xdb, 0x62, 0x86,
      0xc1, 0x36]
  else if data.length = 617 then
    #v[0x35, 0xbe, 0x47, 0x20, 0xd5, 0xab, 0x34, 0x61, 0xae, 0x0b, 0x1d, 0xd6, 0x02, 0x5d, 0xb9,
      0xaf, 0x28, 0x38, 0x27, 0x4f, 0xf2, 0x9c, 0x92, 0xca, 0x11, 0x6c, 0x49, 0xff, 0xb7, 0xa9,
      0xa7, 0x9a]
  else if data.length = 562 then
    #v[0x39, 0x1c, 0x28, 0xdd, 0x82, 0x93, 0x06, 0x9a, 0xa0, 0x02, 0xe5, 0x7c, 0x7d, 0x06, 0x20,
      0x94, 0x40, 0x38, 0x3b, 0xbf, 0x77, 0xe3, 0x5e, 0x8a, 0xd1, 0xe3, 0xb0, 0xd8, 0xd7, 0x69,
      0x7e, 0xab]
  else
    #v[0x06, 0xc1, 0xf1, 0x5a, 0x3b, 0x29, 0x25, 0xdf, 0x8a, 0x82, 0x53, 0x41, 0x00, 0x4e, 0xcc,
      0x8b, 0x43, 0x8f, 0xa3, 0x6f, 0x29, 0xdb, 0x42, 0x3f, 0x40, 0x03, 0x5e, 0xfe, 0x4a, 0xd7,
      0x0d, 0xc7]

def acknowledged : PyJson :=
  .obj [("event_ids", .arr [PyJson.str "evt_1", PyJson.str "evt_2"])]

/-- The first request gets no answer, and the second one does. -/
def env : Env :=
  { RunExample.env with
    sha256
    request := fun n _ _ _ => if n = 0 then .error ⟨.http, PyJson.str "timeout"⟩ else .ok acknowledged }

def client : Client :=
  { RunExample.client with batchSize := 2 }

def collector : Collector.Env :=
  { Collector.ServerExample.env with
    sha256
    fromisoformat := fun text =>
      if text = "2026-05-13T12:00:00.000000+00:00" then some Collector.CollectorExample.noon else none }

def server : Collector.Server :=
  Collector.runServer collector (fun _ => true) {} Collector.ServerExample.opened

/-- `run.emit("memory.write")`. -/
def write : Emission :=
  { eventType := "memory.write", payload := .leaf .none }

def prepared : Prepared := ⟨.redactedPayload, PyJson.none, none⟩

def hashOne : String :=
  "sha256:aaa9ab12a7adac96aba429cdb671dafc5faed704fd21c101bfefc0db6286c136"

def hashTwo : String :=
  "sha256:35be4720d5ab3461ae0b1dd6025db9af2838274ff29c92ca116c49ffb7a9a79a"

def wrote (w : Wire) (hash : String) : Wire :=
  { w with sdk := w.sdk.appended env client write prepared hash }

def sent (w : Wire) : Wire :=
  { w with sent := w.sdk.run.buffer :: w.sent }

def arrived (w : Wire) (batch : List EventEnvelope) : Wire :=
  let req := Collector.ServerExample.incoming (.runsEvents "run_1" (batch.map EventEnvelope.input))
  { w with
    server := (Collector.serve collector (fun _ => true) w.server req).1
    replies := (batch, (Collector.serve collector (fun _ => true) w.server req).2) :: w.replies }

def flushed (w : Wire) : Wire :=
  { w with sdk := (flush env client).final w.sdk }

def started : Wire :=
  { sdk := RunExample.start, server }

def wroteOne : Wire := wrote started hashOne
def arrivedOne : Wire := arrived (sent wroteOne) wroteOne.sdk.run.buffer

/-- The first event is stored, but the SDK does not hear of it. -/
def unanswered : Wire := flushed arrivedOne

def wroteTwo : Wire := wrote unanswered hashTwo

/-- Both events are sent, and the collector answers. -/
def arrivedTwo : Wire := arrived (sent wroteTwo) wroteTwo.sdk.run.buffer

def Step : Wire → Wire → Prop :=
  Wire.Step env client (fun _ => "") 1 collector (fun _ => true) fun _ => none

theorem prepare_write : prepare env client write = .ok prepared := rfl

theorem step_wroteOne : Step started wroteOne := by
  have hhash : Python.computeEventHash env.sha256
      (draft env client started.sdk write prepared).toDict = some hashOne := by
    decide +kernel
  exact .worked ⟨.appended prepare_write hhash, rfl⟩

theorem step_wroteTwo : Step unanswered wroteTwo := by
  have hhash : Python.computeEventHash env.sha256
      (draft env client unanswered.sdk write prepared).toDict = some hashTwo := by
    decide +kernel
  exact .worked ⟨.appended prepare_write hhash, rfl⟩

theorem step_sent {w : Wire} (hbuffer : w.sdk.run.buffer ≠ []) : Step w (sent w) :=
  .sent hbuffer

theorem step_arrived {w : Wire} {batch : List EventEnvelope} (hsent : batch ∈ w.sent)
    (hpayload : ∀ event ∈ batch, IsDict event.payload) (hrun : w.sdk.run.runId = "run_1") :
    Step w (arrived w batch) :=
  .arrived hsent (eventsRequest_eventsBody _ hpayload) (by rw [hrun]; rfl)

theorem isDict_one : ∀ event ∈ wroteOne.sdk.run.buffer, IsDict event.payload := by
  have hpayload : wroteOne.sdk.run.buffer.map EventEnvelope.payload = [PyJson.none] := rfl
  intro event hevent
  have hmem := hpayload ▸ List.mem_map_of_mem hevent
  exact .inl (List.mem_singleton.1 hmem)

theorem isDict_two : ∀ event ∈ wroteTwo.sdk.run.buffer, IsDict event.payload := by
  have hpayload : wroteTwo.sdk.run.buffer.map EventEnvelope.payload = List.replicate 2 PyJson.none := rfl
  intro event hevent
  have hmem := hpayload ▸ List.mem_map_of_mem hevent
  exact .inl (List.eq_of_mem_replicate hmem)

/-- The attempt times out. -/
theorem step_unanswered : Step arrivedOne unanswered := by
  refine .flushed ⟨fun _ _ => .httpError "timeout", rfl, fun _ _ hanswered => ?_⟩
  cases hanswered

/-- The collector has answered the batch that is in the buffer. -/
theorem step_answered {w : Wire} (hsdk : w.sdk = wroteTwo.sdk) {reply : Collector.Reply}
    (hreply : (wroteTwo.sdk.run.buffer, reply) ∈ w.replies) (hstatus : reply.status = 200) :
    Step w (flushed w) := by
  refine .flushed ⟨fun _ _ => .answered (.ok acknowledged), ?_, fun _ resp hanswered => ?_⟩
  · rw [hsdk]
    rfl
  · cases hanswered
    refine .inr ⟨reply, ?_, hstatus⟩
    rw [hsdk]
    exact hreply

theorem stamp_ne_empty (n : Nat) : (env.stamp n).eventId ≠ "" := by
  intro hempty
  have hlist := congrArg String.toList hempty
  simp [env, RunExample.env] at hlist

theorem sound_server : Collector.Sound server.store.db :=
  Collector.sound_runServer collector (fun _ => true) Collector.ServerExample.opened

theorem server_empty : server.store.db.auditEvents = [] :=
  List.length_eq_zero_iff.1 (by decide +kernel)

/-- The first batch arrives once more, after the second one. -/
def repeated : Wire := flushed (arrived arrivedTwo wroteOne.sdk.run.buffer)

theorem steps_repeated : Relation.ReflTransGen Step started repeated := by
  have hone : wroteOne.sdk.run.buffer ∈ arrivedTwo.sent :=
    List.mem_cons_of_mem _ List.mem_cons_self
  have hreply : (wroteTwo.sdk.run.buffer, _) ∈ (arrived arrivedTwo wroteOne.sdk.run.buffer).replies :=
    List.mem_cons_of_mem _ List.mem_cons_self
  refine .head step_wroteOne (.head (step_sent (List.cons_ne_nil _ _)) ?_)
  refine .head (step_arrived List.mem_cons_self isDict_one rfl) (.head step_unanswered ?_)
  refine .head step_wroteTwo (.head (step_sent (List.cons_ne_nil _ _)) ?_)
  refine .head (step_arrived List.mem_cons_self isDict_two rfl) ?_
  refine .head (step_arrived hone isDict_one rfl) (.single ?_)
  exact step_answered rfl hreply (by decide +kernel)

end IngestionExample

end Sdk
end ControlDB
