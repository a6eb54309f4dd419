import ControlDB.Collector.App
import ControlDB.Collector.Endpoints

/-!
# The body of an ingestion request

`EventInput` and `EventsRequest` of `app.py`, and what the endpoint `runs_events` does with a batch: it
is stored and answered, or refused and nothing is changed.

Members that `EventInput` does not name are taken and not read.  What pydantic makes of a number that is
not an `int` is the parameter `lax`.
-/

namespace ControlDB
namespace Collector

open Library Python Http

/-! ## Fields -/

/-- A field of type `Optional[int] = None`. -/
def optionalIntField (lax : PyJson → Option Int) (members : List (String × PyJson))
    (name : String) : Option (Option Int) :=
  match members.lookup name with
  | none => some none
  | some (.leaf .none) => some none
  | some (.leaf (.int n)) => some (some n)
  | some value => (lax value).map some

/-- A field of type `str` with a default. -/
def strFieldOr (default : String) (members : List (String × PyJson)) (name : String) :
    Option String :=
  match members.lookup name with
  | none => some default
  | some (.leaf (.str s)) => some s
  | _ => none

/-- The members of an `Optional[Dict[str, Any]]`. -/
def dictMembers : PyJson → Option (List (String × PyJson))
  | .obj fields => some fields
  | _ => none

/-- The members that `_persist_event` does not read are checked all the same. -/
def EventInput.validate (lax : PyJson → Option Int) (body : PyJson) : Option EventInput :=
  match body with
  | .obj members => do
      let eventId ← optionalStrField members "event_id"
      let eventType ← strField members "event_type"
      let schemaVersion ← optionalStrField members "schema_version"
      let payloadMode ← strFieldOr "metadata_only" members "payload_mode"
      let payload ← optionalDictField members "payload"
      let payloadHash ← optionalStrField members "payload_hash"
      let _ ← optionalStrField members "previous_event_hash"
      let _ ← optionalStrField members "event_hash"
      let stepId ← optionalStrField members "step_id"
      let stepIndex ← optionalIntField lax members "step_index"
      let actor ← optionalDictField members "actor"
      let occurredAt ← optionalStrField members "occurred_at"
      let _ ← optionalStrField members "ingested_at"
      let traceId ← optionalStrField members "trace_id"
      let spanId ← optionalStrField members "span_id"
      let parentSpanId ← optionalStrField members "parent_span_id"
      let idempotencyKey ← optionalStrField members "idempotency_key"
      return {
        eventId, eventType, schemaVersion, payloadMode, payload, payloadHash, stepId, stepIndex
        actor := dictMembers actor
        occurredAt, traceId, spanId, parentSpanId, idempotencyKey }
  | _ => none

/-- `EventsRequest`. -/
def eventsRequest (lax : PyJson → Option Int) (body : PyJson) : Option (List EventInput) :=
  match body with
  | .obj members =>
      match members.lookup "events" with
      | some (.arr items) => items.mapM (EventInput.validate lax)
      | _ => none
  | _ => none

/-! ## What the endpoint answers -/

/-- The status of the response that an answer becomes. -/
def Reply.status : Reply → Nat
  | .response resp => resp.status
  | .invalid => 422
  | _ => 200

theorem status_httpException (status : Nat) (detail : String) :
    (httpException status detail).status = status := rfl

section Refusals

variable {env : Env} {m : Moment} {db : Database} {principal : Principal}

/-- The errors that `append_events` raises itself, and those that nothing catches. -/
def PyError.Refuses : PyError → Prop
  | .ingest _ status => 400 ≤ status
  | _ => True

theorem Endpoint.refuses_except {ep : Endpoint} {e : PyError} (h : e.Refuses) :
    400 ≤ (ep.except e).status := by
  cases e with
  | ingest message status => exact h
  | lookup message => cases ep <;> exact Nat.le_of_ble_eq_true rfl
  | permission message => cases ep <;> exact Nat.le_of_ble_eq_true rfl
  | _ => exact Nat.le_of_ble_eq_true rfl

theorem refuses_newRow {i sequence : Nat} {run : AgentRun} {event : EventInput}
    {previousHash : Option String} {e : PyError}
    (h : newRow env m i sequence principal run event previousHash = .error e) : e.Refuses := by
  unfold newRow at h
  cases hhash : payloadHashOf env event with
  | error e' =>
      rw [hhash] at h
      unfold payloadHashOf at hhash
      split at hhash
      · cases hhash
      · split at hhash
        · cases hhash
        · split at hhash
          · cases hhash
          · cases hhash
            cases h
            trivial
  | ok payloadHash =>
      simp only [hhash] at h
      split at h
      · cases h
      · cases h
        trivial

theorem refuses_persistEvent {i sequence : Nat} {s : AppendSession} {event : EventInput}
    {previousHash : Option String} {e : PyError}
    (h : persistEvent env m i db sequence principal s event previousHash = .error e) :
    e.Refuses := by
  unfold persistEvent at h
  split_ifs at h with htype
  · split at h
    · cases h
    · cases hrow : newRow env m i sequence principal s.run event previousHash with
      | error e' =>
          simp only [hrow, Bind.bind, Except.bind, Except.error.injEq] at h
          exact h ▸ refuses_newRow hrow
      | ok row =>
          simp only [hrow, Bind.bind, Except.bind] at h
          split_ifs at h with hclash
          · split at h
            · cases h
            · cases h
              trivial
          · cases h
  · cases h
    exact Nat.le_of_ble_eq_true rfl

theorem refuses_appendLoop {i : Nat} {events : List EventInput} {s : AppendSession}
    {previousHash : Option String} {e : PyError}
    (h : appendLoop env m db principal i events s previousHash = .error e) : e.Refuses := by
  induction events generalizing i s previousHash with
  | nil => cases h
  | cons event rest ih =>
      unfold appendLoop at h
      cases hfirst : persistEvent env m i db (nextSequence (m.skipped i) (s.visible db)) principal s
          event previousHash with
      | error e' =>
          simp only [hfirst, Bind.bind, Except.bind, Except.error.injEq] at h
          exact h ▸ refuses_persistEvent hfirst
      | ok out =>
          rcases out with ⟨s', storedId, hash⟩
          simp only [hfirst, Bind.bind, Except.bind] at h
          cases hrest : appendLoop env m db principal (i + 1) rest s' (some hash) with
          | error e' =>
              simp only [hrest, Except.error.injEq] at h
              subst h
              exact ih hrest
          | ok out =>
              simp only [hrest] at h
              cases h

/-- What `append_events` raises becomes a status from 400 on. -/
theorem refuses_appendEvents {runId : String} {events : List EventInput} {e : PyError}
    (h : appendEvents env m db principal runId events = .error e) : e.Refuses := by
  unfold appendEvents at h
  split_ifs at h with hempty
  cases hauth : authorizeRun db principal runId with
  | error e' =>
      simp only [hauth, Bind.bind, Except.bind, Except.error.injEq] at h
      subst h
      unfold authorizeRun at hauth
      split at hauth
      · cases hauth
        exact Nat.le_of_ble_eq_true rfl
      · split_ifs at hauth
        cases hauth
        exact Nat.le_of_ble_eq_true rfl
  | ok run =>
      simp only [hauth, Bind.bind, Except.bind] at h
      cases hloop : appendLoop env m db principal 0 events { loaded := run, run := run }
          run.lastEventHash with
      | error e' =>
          simp only [hloop, Except.error.injEq] at h
          exact h ▸ refuses_appendLoop hloop
      | ok out =>
          simp only [hloop] at h
          cases h

end Refusals

theorem handle_runsEvents (env : Env) (opens : String → Bool) (m : Moment) (principal : Principal)
    (st : EvidenceStore) (runId : String) (events : List EventInput) :
    (Endpoint.runsEvents runId events).handle env opens m principal st =
      match appendEvents env m st.db principal runId events with
      | .ok out => ({ st with db := out.1 }, .answer (.eventIds out.2))
      | .error e => (st, (Endpoint.runsEvents runId events).except e) := by
  unfold Endpoint.handle
  dsimp only [Endpoint.call]
  cases happend : appendEvents env m st.db principal runId events with
  | error e =>
      simp [Request.archive, Request.run, Request.perform, Request.blocked, Endpoint.reply, happend,
        Except.map]
  | ok out =>
      simp [Request.archive, Request.run, Request.perform, Request.blocked, Endpoint.reply, happend,
        Except.map]

/-- A batch is refused and changes nothing, or it is stored for a tenant and answered. -/
theorem serve_runsEvents (env : Env) (opens : String → Bool) (sv : Server) {req : Incoming}
    {runId : String} {events : List EventInput} (hreq : req.endpoint = .runsEvents runId events) :
    ((serve env opens sv req).1 = sv ∧ 400 ≤ (serve env opens sv req).2.status) ∨
      ∃ principal db' ids,
        appendEvents env req.moment sv.store.db principal runId events = .ok (db', ids) ∧
        (serve env opens sv req).1 = { sv with store := { sv.store with db := db' } } := by
  unfold serve
  cases hkey : currentPrincipal env.sha256 sv.accounts.apiKeys req.authorization with
  | error detail => exact .inl ⟨rfl, Nat.le_of_ble_eq_true rfl⟩
  | ok key =>
      dsimp only
      cases hscope : requireScope key.scopes req.endpoint.scope.1 req.endpoint.scope.2 with
      | some forbidden =>
          refine .inl ⟨rfl, ?_⟩
          unfold requireScope at hscope
          split at hscope
          · cases hscope
            exact Nat.le_of_ble_eq_true rfl
          · split_ifs at hscope
            cases hscope
            exact Nat.le_of_ble_eq_true rfl
      | none =>
          dsimp only
          split_ifs with hparsed
          · rw [hreq, handle_runsEvents]
            cases happend : appendEvents env req.moment sv.store.db key.toPrincipal runId events with
            | error e =>
                refine .inl ⟨rfl, ?_⟩
                exact @Endpoint.refuses_except (.runsEvents runId events) e (refuses_appendEvents happend)
            | ok out => exact .inr ⟨key.toPrincipal, out.1, out.2, happend, rfl⟩
          · exact .inl ⟨rfl, Nat.le_of_ble_eq_true rfl⟩

end Collector
end ControlDB
