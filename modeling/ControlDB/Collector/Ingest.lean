import ControlDB.Collector.Models

/-!
# `IngestService`

Event ingestion and the run lifecycle, as in `ingest.py`.  A service method runs in one database
session: if it raises, the session is rolled back and the database is as before; otherwise what it
wrote is committed.

`append_events` writes through a unit of work, `AppendSession`: the run row as an object with
pending assignments, and the event rows flushed in the open transaction.  Every statement of the
transaction sees the committed database together with these rows.
-/

namespace ControlDB
namespace Collector

open Library Python

def eventTypes : List String :=
  ["agent_run.started", "agent_run.committed", "agent_run.rolled_back", "agent_run.failed",
    "agent_run.requires_approval", "model_call.started", "model_call.completed",
    "model_call.failed", "tool_call.started", "tool_call.completed", "tool_call.failed",
    "memory.read", "memory.write", "memory.delete_requested", "memory.redacted",
    "state.snapshot.created", "state.change.proposed", "state.change.applied",
    "state.change.reverted", "policy.check.started", "policy.check.passed",
    "policy.check.failed", "policy.enforcement.blocked", "policy.enforcement.allowed",
    "approval.requested", "approval.approved", "approval.rejected", "approval.expired",
    "approval.overridden", "evidence.artifact.created", "evidence.export.started",
    "evidence.export.completed", "evidence.export.failed", "auth.api_key.created",
    "auth.api_key.revoked", "user.login", "user.permission.changed", "audit_log.exported"]

/-! ## Timestamps -/

/-- `_utc_iso`. -/
def utcIso (value : DateTime) : String :=
  value.attachUtc.isoformat

/-- `_parse_iso`; `now` is the reading of the clock it falls back to. -/
def parseIso (env : Env) (now : DateTime) (value : Option String) : DateTime :=
  match truthy value with
  | none => now
  | some text =>
      let cleaned := String.ofList (text.toList.flatMap fun c =>
        if c = 'Z' then ['+', '0', '0', ':', '0', '0'] else [c])
      match env.fromisoformat cleaned with
      | none => now
      | some dt => dt.attachUtc

/-! ## Runs -/

structure StartedRun where
  runId : String
  status : String
  alreadyStarted : Bool := false
  deriving DecidableEq

def startRun (env : Env) (m : Moment) (db : Database) (principal : Principal)
    (runId : Option String) (agentId : String) (agentVersion : Option String)
    (environment : String) (metadata : List (String × PyJson)) :
    Except PyError (Database × StartedRun) :=
  if agentId = "" then .error (.ingest "agent_id is required" 422)
  else
    let resolvedRunId := (truthy runId).getD ("run_" ++ m.ulid 0)
    match db.agentRuns.get resolvedRunId with
    | some existing =>
        .ok (db, { runId := existing.runId, status := existing.status, alreadyStarted := true })
    | none =>
        let row : AgentRun :=
          { runId := resolvedRunId
            orgId := principal.orgId
            projectId := principal.projectId
            environment := environment
            agentId := agentId
            agentVersion := agentVersion
            status := "running"
            metadataJson := metadata
            startedAt := env.storeDatetime (m.now 0) }
        .ok ({ db with agentRuns := db.agentRuns.put resolvedRunId row },
          { runId := resolvedRunId, status := "running" })

/-- `_authorize_run`. -/
def authorizeRun (db : Database) (principal : Principal) (runId : String) :
    Except PyError AgentRun :=
  match db.agentRuns.get runId with
  | none => .error (.ingest "run not found" 404)
  | some run =>
      if run.orgId ≠ principal.orgId ∨ run.projectId ≠ principal.projectId then
        .error (.ingest "forbidden" 403)
      else .ok run

def commitRun (env : Env) (m : Moment) (db : Database) (principal : Principal) (runId : String) :
    Except PyError (Database × StartedRun) := do
  let run ← authorizeRun db principal runId
  let run' := { run with status := "committed", endedAt := some (env.storeDatetime (m.now 0)) }
  return ({ db with agentRuns := db.agentRuns.put runId run' },
    { runId := runId, status := "committed" })

/-- `{**metadata, key: value}`. -/
def withMember (members : List (String × PyJson)) (key : String) (value : PyJson) :
    List (String × PyJson) :=
  if members.any fun member => decide (member.1 = key) then
    members.map fun member => if member.1 = key then (key, value) else member
  else members ++ [(key, value)]

def rollbackRun (env : Env) (m : Moment) (db : Database) (principal : Principal) (runId : String)
    (reason : Option String) : Except PyError (Database × StartedRun) := do
  let run ← authorizeRun db principal runId
  let run' := { run with
    status := "rolled_back"
    endedAt := some (env.storeDatetime (m.now 0))
    metadataJson :=
      match truthy reason with
      | some text => withMember run.metadataJson "rollback_reason" (.str text)
      | none => run.metadataJson }
  return ({ db with agentRuns := db.agentRuns.put runId run' },
    { runId := runId, status := "rolled_back" })

/-! ## Events -/

/-- The fields of `EventInput` that `_persist_event` reads. -/
structure EventInput where
  eventId : Option String := none
  eventType : String
  schemaVersion : Option String := none
  payloadMode : String := "metadata_only"
  payload : PyJson := .none
  payloadHash : Option String := none
  stepId : Option String := none
  stepIndex : Option Int := none
  actor : Option (List (String × PyJson)) := none
  occurredAt : Option String := none
  traceId : Option String := none
  spanId : Option String := none
  parentSpanId : Option String := none
  idempotencyKey : Option String := none

/-- The dict that `_persist_event` hashes and `verify` rebuilds. -/
structure Envelope where
  eventId : String
  schemaVersion : String
  eventType : String
  orgId : String
  projectId : String
  environment : String
  agentId : String
  agentVersion : Option String
  runId : String
  stepId : Option String
  stepIndex : Option Int
  traceId : Option String
  spanId : Option String
  parentSpanId : Option String
  actor : List (String × PyJson)
  payloadMode : String
  payload : PyJson
  payloadHash : Option String
  previousEventHash : Option String
  occurredAt : String
  ingestedAt : String
  idempotencyKey : Option String

def Envelope.members (e : Envelope) : List (String × PyJson) :=
  [("event_id", .str e.eventId),
    ("schema_version", .str e.schemaVersion),
    ("event_type", .str e.eventType),
    ("org_id", .str e.orgId),
    ("project_id", .str e.projectId),
    ("environment", .str e.environment),
    ("agent_id", .str e.agentId),
    ("agent_version", .optStr e.agentVersion),
    ("run_id", .str e.runId),
    ("step_id", .optStr e.stepId),
    ("step_index", .optInt e.stepIndex),
    ("trace_id", .optStr e.traceId),
    ("span_id", .optStr e.spanId),
    ("parent_span_id", .optStr e.parentSpanId),
    ("actor", .obj e.actor),
    ("payload_mode", .str e.payloadMode),
    ("payload", e.payload),
    ("payload_hash", .optStr e.payloadHash),
    ("previous_event_hash", .optStr e.previousEventHash),
    ("occurred_at", .str e.occurredAt),
    ("ingested_at", .str e.ingestedAt),
    ("idempotency_key", .optStr e.idempotencyKey)]

/-- The id a row gets: the submitted one, or a generated one. -/
def resolvedEventId (m : Moment) (i : Nat) (event : EventInput) : String :=
  (truthy event.eventId).getD ("evt_" ++ m.ulid i)

def redactedPayload (env : Env) (event : EventInput) : PyJson :=
  if event.payload.isNone then event.payload else env.redact event.payload

/-- The submitted payload hash, or that of the payload. -/
def payloadHashOf (env : Env) (event : EventInput) : Except PyError (Option String) :=
  match truthy event.payloadHash with
  | some hash => .ok (some hash)
  | none =>
      if (redactedPayload env event).isNone then .ok none
      else
        match Python.computePayloadHash env.sha256 (redactedPayload env event) with
        | some hash => .ok (some hash)
        | none => .error .other

/-- An absent or empty actor is the agent of the run. -/
def actorOf (run : AgentRun) (event : EventInput) : List (String × PyJson) :=
  match event.actor with
  | some (member :: members) => member :: members
  | _ => [("type", .str "agent"), ("id", .str run.agentId)]

def occurredAt (env : Env) (m : Moment) (i : Nat) (event : EventInput) : DateTime :=
  parseIso env (m.now (2 * i)) event.occurredAt

def ingestedAt (m : Moment) (i : Nat) : DateTime :=
  m.now (2 * i + 1)

def newEnvelope (env : Env) (m : Moment) (i : Nat) (principal : Principal) (run : AgentRun)
    (event : EventInput) (previousHash payloadHash : Option String) : Envelope :=
  { eventId := resolvedEventId m i event
    schemaVersion := (truthy event.schemaVersion).getD schemaVersion
    eventType := event.eventType
    orgId := principal.orgId
    projectId := principal.projectId
    environment := run.environment
    agentId := run.agentId
    agentVersion := run.agentVersion
    runId := run.runId
    stepId := event.stepId
    stepIndex := event.stepIndex
    traceId := event.traceId
    spanId := event.spanId
    parentSpanId := event.parentSpanId
    actor := actorOf run event
    payloadMode := event.payloadMode
    payload := redactedPayload env event
    payloadHash := payloadHash
    previousEventHash := previousHash
    occurredAt := (occurredAt env m i event).isoformat
    ingestedAt := (ingestedAt m i).isoformat
    idempotencyKey := event.idempotencyKey }

/-- The row of event number `i` of a batch, or what building it raises.  The texts of the actor are
bound when the row is flushed. -/
def newRow (env : Env) (m : Moment) (i : Nat) (sequence : Nat) (principal : Principal)
    (run : AgentRun) (event : EventInput) (previousHash : Option String) :
    Except PyError AuditEvent :=
  match payloadHashOf env event with
  | .error e => .error e
  | .ok payloadHash =>
      let envelope := newEnvelope env m i principal run event previousHash payloadHash
      match Python.computeEventHash env.sha256 envelope.members,
          env.bindString (PyJson.get envelope.actor "type"),
          env.bindString (PyJson.get envelope.actor "id") with
      | some eventHash, some actorType, some actorId =>
          .ok {
            sequence := sequence
            eventId := envelope.eventId
            orgId := principal.orgId
            projectId := principal.projectId
            environment := run.environment
            runId := run.runId
            stepId := envelope.stepId
            stepIndex := envelope.stepIndex
            eventType := event.eventType
            schemaVersion := envelope.schemaVersion
            actorType := actorType
            actorId := actorId
            traceId := envelope.traceId
            spanId := envelope.spanId
            parentSpanId := envelope.parentSpanId
            payloadMode := envelope.payloadMode
            payload := envelope.payload
            payloadHash := payloadHash
            previousEventHash := previousHash
            eventHash := eventHash
            occurredAt := env.storeDatetime (occurredAt env m i event)
            ingestedAt := env.storeDatetime (ingestedAt m i)
            idempotencyKey := event.idempotencyKey }
      | _, _, _ => .error .other

/-- The unit of work of `append_events`: the run as it was loaded, the same object with the
assignments made since, and the rows flushed in the open transaction. -/
structure AppendSession where
  loaded : AgentRun
  run : AgentRun
  flushed : List AuditEvent := []

/-- What the statements of the session see. -/
def AppendSession.visible (s : AppendSession) (committed : Database) : List AuditEvent :=
  committed.auditEvents ++ s.flushed

/-- The row of an idempotency key; an empty key is not looked up. -/
def findByKey (rows : List AuditEvent) (key : Option String) : Option AuditEvent :=
  match truthy key with
  | some k => rows.find? fun e => decide (e.idempotencyKey = some k)
  | none => none

def findById (rows : List AuditEvent) (eventId : String) : Option AuditEvent :=
  rows.find? fun e => decide (e.eventId = eventId)

/-- The two `unique=True` columns; a `NULL` key clashes with nothing. -/
def Clashes (rows : List AuditEvent) (row : AuditEvent) : Prop :=
  ∃ e ∈ rows, e.eventId = row.eventId ∨
    e.idempotencyKey = row.idempotencyKey ∧ row.idempotencyKey.isSome = true

instance (rows : List AuditEvent) (row : AuditEvent) : Decidable (Clashes rows row) :=
  inferInstanceAs (Decidable (∃ e ∈ rows, _))

/-- The assignments to the run that depend on the type of a stored event. -/
def updateStatus (run : AgentRun) (row : AuditEvent) : AgentRun :=
  if row.eventType = "agent_run.started" then { run with status := "running" }
  else if row.eventType = "agent_run.requires_approval" then
    { run with status := "requires_approval" }
  else if row.eventType = "agent_run.committed" then
    { run with status := "committed", endedAt := some row.ingestedAt }
  else if row.eventType = "agent_run.rolled_back" then
    { run with status := "rolled_back", endedAt := some row.ingestedAt }
  else if row.eventType = "agent_run.failed" then
    { run with status := "failed", endedAt := some row.ingestedAt }
  else run

/-- `_persist_event`: the session afterwards, and the id and hash of the row that answers the
event.  After a failed flush `session.rollback()` drops every row flushed so far, and the run is
loaded again. -/
def persistEvent (env : Env) (m : Moment) (i : Nat) (committed : Database) (sequence : Nat)
    (principal : Principal) (s : AppendSession) (event : EventInput)
    (previousHash : Option String) : Except PyError (AppendSession × String × String) :=
  if event.eventType ∉ eventTypes then
    .error (.ingest ("unknown event_type: " ++ event.eventType) 422)
  else
    match findByKey (s.visible committed) event.idempotencyKey with
    | some existing => .ok (s, existing.eventId, existing.eventHash)
    | none => do
        let row ← newRow env m i sequence principal s.run event previousHash
        if Clashes (s.visible committed) row then
          match findById committed.auditEvents row.eventId, committed.agentRuns.get s.run.runId with
          | some existing, some run =>
              return ({ loaded := run, run := run }, existing.eventId, existing.eventHash)
          | _, _ => .error PyError.integrity
        else
          return ({ s with run := updateStatus s.run row, flushed := s.flushed ++ [row] },
            row.eventId, row.eventHash)

/-- The next value of the `sequence` column. -/
def nextSequence (skipped : Nat) (rows : List AuditEvent) : Nat :=
  rows.foldl (fun n e => max n e.sequence) 0 + 1 + skipped

/-- The loop of `append_events`: the session, the last hash, and the accepted ids. -/
def appendLoop (env : Env) (m : Moment) (committed : Database) (principal : Principal) :
    Nat → List EventInput → AppendSession → Option String →
      Except PyError (AppendSession × Option String × List String)
  | _, [], s, previousHash => .ok (s, previousHash, [])
  | i, event :: rest, s, previousHash => do
      let (s', storedId, hash) ← persistEvent env m i committed
        (nextSequence (m.skipped i) (s.visible committed)) principal s event previousHash
      let (s'', lastHash, acceptedIds) ← appendLoop env m committed principal (i + 1) rest s'
        (some hash)
      return (s'', lastHash, storedId :: acceptedIds)

/-- The `UPDATE` of a run: only columns whose value was changed are set. -/
def writeBack (loaded run row : AgentRun) : AgentRun :=
  { row with
    status := if run.status = loaded.status then row.status else run.status
    endedAt := if run.endedAt = loaded.endedAt then row.endedAt else run.endedAt
    lastEventHash :=
      if run.lastEventHash = loaded.lastEventHash then row.lastEventHash else run.lastEventHash
    eventCount := if run.eventCount = loaded.eventCount then row.eventCount else run.eventCount }

/-- The assignments that end `append_events`. -/
def AppendSession.finish (s : AppendSession) (lastHash : Option String) (accepted : Nat) :
    AppendSession :=
  { s with
    run := { s.run with
      lastEventHash := lastHash
      eventCount := s.run.eventCount + accepted } }

/-- `session.commit()`. -/
def AppendSession.commit (s : AppendSession) (committed : Database) : Database :=
  { committed with
    agentRuns :=
      match committed.agentRuns.get s.run.runId with
      | some row => committed.agentRuns.put s.run.runId (writeBack s.loaded s.run row)
      | none => committed.agentRuns
    auditEvents := committed.auditEvents ++ s.flushed }

def appendEvents (env : Env) (m : Moment) (db : Database) (principal : Principal) (runId : String)
    (events : List EventInput) : Except PyError (Database × List String) :=
  if events.isEmpty then .ok (db, [])
  else do
    let run ← authorizeRun db principal runId
    let (s, lastHash, acceptedIds) ← appendLoop env m db principal 0 events
      { loaded := run, run := run } run.lastEventHash
    return ((s.finish lastHash acceptedIds.length).commit db, acceptedIds)

/-! ## Queries -/

def runToDict (run : AgentRun) : RunDict :=
  { runId := run.runId
    orgId := run.orgId
    projectId := run.projectId
    environment := run.environment
    agentId := run.agentId
    agentVersion := run.agentVersion
    status := run.status
    startedAt := utcIso run.startedAt
    endedAt := run.endedAt.map utcIso
    eventCount := run.eventCount
    lastEventHash := run.lastEventHash
    metadata := run.metadataJson }

def eventToDict (row : AuditEvent) : EventDict :=
  { eventId := row.eventId
    sequence := row.sequence
    runId := row.runId
    stepId := row.stepId
    stepIndex := row.stepIndex
    eventType := row.eventType
    schemaVersion := row.schemaVersion
    actorType := row.actorType
    actorId := row.actorId
    traceId := row.traceId
    spanId := row.spanId
    parentSpanId := row.parentSpanId
    payloadMode := row.payloadMode
    payload := row.payload
    payloadHash := row.payloadHash
    previousEventHash := row.previousEventHash
    eventHash := row.eventHash
    occurredAt := utcIso row.occurredAt
    ingestedAt := utcIso row.ingestedAt
    idempotencyKey := row.idempotencyKey }

structure Timeline where
  run : RunDict
  events : List EventDict
  nextCursor : Option Nat

/-- `where(sequence > cursor)`, unless there is no cursor or it is zero. -/
def afterCursor (cursor : Option Int) (rows : List AuditEvent) : List AuditEvent :=
  match cursor with
  | some c => if c = 0 then rows else rows.filter fun e => decide (c < (e.sequence : Int))
  | none => rows

/-- `LIMIT n`; SQLite reads a negative limit as none. -/
def limitTo (n : Int) (rows : List AuditEvent) : List AuditEvent :=
  if n < 0 then rows else rows.take n.toNat

/-- `rows[-1].sequence if rows and len(rows) == limit else None`. -/
def nextCursor (limit : Int) (rows : List AuditEvent) : Option Nat :=
  if (rows.length : Int) = limit then rows.getLast?.map AuditEvent.sequence else none

def timeline (db : Database) (principal : Principal) (runId : String) (limit : Int)
    (cursor : Option Int) : Except PyError Timeline := do
  let run ← authorizeRun db principal runId
  let rows := limitTo (min limit 5000) (afterCursor cursor (runEvents db runId))
  return {
    run := runToDict run
    events := rows.map eventToDict
    nextCursor := nextCursor limit rows }

/-- The envelope that `verify` rebuilds from a row. -/
def rowEnvelope (run : AgentRun) (row : AuditEvent) : Envelope :=
  { eventId := row.eventId
    schemaVersion := row.schemaVersion
    eventType := row.eventType
    orgId := row.orgId
    projectId := row.projectId
    environment := row.environment
    agentId := run.agentId
    agentVersion := run.agentVersion
    runId := row.runId
    stepId := row.stepId
    stepIndex := row.stepIndex
    traceId := row.traceId
    spanId := row.spanId
    parentSpanId := row.parentSpanId
    actor := [("type", .optStr row.actorType), ("id", .optStr row.actorId)]
    payloadMode := row.payloadMode
    payload := row.payload
    payloadHash := row.payloadHash
    previousEventHash := row.previousEventHash
    occurredAt := utcIso row.occurredAt
    ingestedAt := utcIso row.ingestedAt
    idempotencyKey := row.idempotencyKey }

/-- The loop of `verify`: the id of the first row that breaks the chain, if any. -/
def verifyLoop (env : Env) (run : AgentRun) :
    Option String → List AuditEvent → Except PyError (Option String)
  | _, [] => .ok none
  | previous, row :: rest =>
      if row.previousEventHash ≠ previous then .ok (some row.eventId)
      else
        match Python.computeEventHash env.sha256 (rowEnvelope run row).members with
        | none => .error .other
        | some expected =>
            if expected ≠ row.eventHash then .ok (some row.eventId)
            else verifyLoop env run (some row.eventHash) rest

def verify (env : Env) (db : Database) (principal : Principal) (runId : String) :
    Except PyError Verification := do
  let run ← authorizeRun db principal runId
  let rows := runEvents db runId
  let brokenAt ← verifyLoop env run none rows
  return {
    runId := runId
    valid := brokenAt.isNone
    eventCount := rows.length
    brokenAtEventId := brokenAt }

end Collector
end ControlDB
