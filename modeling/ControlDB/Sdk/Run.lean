import ControlDB.Library.Effects
import ControlDB.Sdk.Enforce
import ControlDB.Sdk.Redaction

/-!
# Runs of the Python SDK

`Run` and `ToolCallContext` of `run.py`, with `EventEnvelope` of `events.py`.  The identifiers, the
clock and what the transport makes of a call are the parameters `Env`, in the order in which they are
asked for.  What a run has emitted, and the batches that `post_events` returned for, are kept next to
the run.  The metadata of a run is not read after its start and is left out.
-/

namespace ControlDB
namespace Sdk

open Library Python

/-! ## Values -/

namespace PyValue

def none : PyValue := .leaf .none
def bool (b : Bool) : PyValue := .leaf (.bool b)
def str (s : String) : PyValue := .leaf (.str s)

def optStr : Option String → PyValue
  | some s => str s
  | .none => none

mutual

/-- What `json.loads` makes of a document. -/
def ofJson : PyJson → PyValue
  | .leaf l => leaf l
  | .arr items => list (itemsOfJson items)
  | .obj members => dict (membersOfJson members)

def itemsOfJson : List PyJson → List PyValue
  | [] => []
  | t :: rest => ofJson t :: itemsOfJson rest

def membersOfJson : List (String × PyJson) → List (String × PyValue)
  | [] => []
  | (k, t) :: rest => (k, ofJson t) :: membersOfJson rest

end

/-- `mapping.get(key, default)`. -/
def getOr (members : List (String × PyValue)) (key : String) (default : PyValue) : PyValue :=
  (members.lookup key).getD default

/-- `bool(value)`; a tuple counts as a list does. -/
def truthy (v : PyValue) : Bool :=
  v.toJson.truthy

/-- The text of an `Optional[str]`, or what stands for it. -/
def orElse (v w : PyValue) : PyValue :=
  if v.truthy then v else w

end PyValue

/-! ## `events.py` -/

def schemaVersion : String :=
  "2026-05-01"

inductive PayloadMode
  | metadataOnly
  | hashOnly
  | redactedPayload
  | fullPayload
  | selfHostedPayload
  deriving DecidableEq

namespace PayloadMode

def value : PayloadMode → String
  | metadataOnly => "metadata_only"
  | hashOnly => "hash_only"
  | redactedPayload => "redacted_payload"
  | fullPayload => "full_payload"
  | selfHostedPayload => "self_hosted_payload"

/-- `PayloadMode(value)`. -/
def ofValue (text : String) : Except SdkError PayloadMode :=
  match [metadataOnly, hashOnly, redactedPayload, fullPayload, selfHostedPayload].find?
      fun mode => decide (mode.value = text) with
  | some mode => .ok mode
  | none => .error ⟨.other, PyJson.str s!"'{text}' is not a valid PayloadMode"⟩

end PayloadMode

def eventTypes : List String :=
  ["agent_run.started", "agent_run.committed", "agent_run.rolled_back", "agent_run.failed",
    "agent_run.requires_approval", "model_call.started", "model_call.completed",
    "model_call.failed", "tool_call.started", "tool_call.completed", "tool_call.failed",
    "memory.read", "memory.write", "memory.delete_requested", "memory.redacted",
    "state.snapshot.created", "state.change.proposed", "state.change.applied",
    "state.change.reverted", "policy.check.started", "policy.check.passed",
    "policy.check.failed", "policy.enforcement.blocked", "policy.enforcement.allowed",
    "approval.requested", "approval.approved", "approval.rejected", "approval.expired",
    "approval.overridden", "evidence.artifact.created", "evidence.export.started",
    "evidence.export.completed", "evidence.export.failed", "auth.api_key.created",
    "auth.api_key.revoked", "user.login", "user.permission.changed", "audit_log.exported"]

structure Actor where
  type : String
  id : String

def Actor.toDict (actor : Actor) : PyJson :=
  .obj [("type", PyJson.str actor.type), ("id", PyJson.str actor.id)]

structure EventEnvelope where
  eventId : String
  schemaVersion : String
  eventType : String
  orgId : String
  projectId : String
  environment : String
  agentId : String
  runId : String
  actor : Actor
  payloadMode : String
  eventHash : String
  occurredAt : String
  ingestedAt : String
  agentVersion : Option String
  stepId : Option String
  stepIndex : Option Int
  traceId : Option String
  spanId : Option String
  parentSpanId : Option String
  payload : PyJson
  payloadHash : Option String
  previousEventHash : Option String
  idempotencyKey : Option String

/-- `EventEnvelope.to_dict`. -/
def EventEnvelope.toDict (e : EventEnvelope) : Members :=
  [("event_id", PyJson.str e.eventId),
    ("schema_version", PyJson.str e.schemaVersion),
    ("event_type", PyJson.str e.eventType),
    ("org_id", PyJson.str e.orgId),
    ("project_id", PyJson.str e.projectId),
    ("environment", PyJson.str e.environment),
    ("agent_id", PyJson.str e.agentId),
    ("run_id", PyJson.str e.runId),
    ("actor", e.actor.toDict),
    ("payload_mode", PyJson.str e.payloadMode),
    ("event_hash", PyJson.str e.eventHash),
    ("occurred_at", PyJson.str e.occurredAt),
    ("ingested_at", PyJson.str e.ingestedAt),
    ("agent_version", PyJson.optStr e.agentVersion),
    ("step_id", PyJson.optStr e.stepId),
    ("step_index", PyJson.optInt e.stepIndex),
    ("trace_id", PyJson.optStr e.traceId),
    ("span_id", PyJson.optStr e.spanId),
    ("parent_span_id", PyJson.optStr e.parentSpanId),
    ("payload", e.payload),
    ("payload_hash", PyJson.optStr e.payloadHash),
    ("previous_event_hash", PyJson.optStr e.previousEventHash),
    ("idempotency_key", PyJson.optStr e.idempotencyKey)]

/-! ## The client and its surroundings -/

/-- What a `ControlDB` client has been given. -/
structure Client where
  orgId : String
  project : String
  environment : String
  defaultPayloadMode : PayloadMode
  redactionRules : List RedactionRule
  redactionCallbacks : List (PyValue → Except SdkError PyValue)
  batchSize : Int
  failOpen : Bool
  hasSpool : Bool

/-- What is new in an envelope: `generate_event_id()`, and `utc_now_iso()` twice. -/
structure Stamp where
  eventId : String
  occurredAt : String
  ingestedAt : String

/-- The calls of the transport other than `post_events`. -/
inductive ApiCall
  | commitRun (runId : String)
  | rollbackRun (runId : String) (reason : Option String)
  | policyCheck (body : PyValue)
  | requestApproval (body : PyValue)

/-- The digest and `repr` of the library, the stamps of the envelopes, `generate_approval_id()`, and
what becomes of the calls, each by its number: of the request behind a `post_events`, of a write to
the spool, and of another request. -/
structure Env where
  sha256 : Sha256
  repr : PyValue → String
  stamp : Nat → Stamp
  approvalId : Nat → String
  request : Nat → (runId : String) → List EventEnvelope → (idempotencyKey : String) →
    Except SdkError PyJson
  spoolWrite : Nat → Except SdkError PUnit
  api : Nat → ApiCall → Except SdkError PyJson

structure Run where
  runId : String
  agentId : String
  agentVersion : Option String
  environment : String
  traceId : Option String
  buffer : List EventEnvelope
  stepCounter : Nat
  previousEventHash : Option String
  status : String
  committed : Bool
  closed : Bool

/-- `Run.__init__`. -/
def Run.init (runId agentId : String) (agentVersion : Option String) (environment : String)
    (traceId : Option String) : Run :=
  { runId, agentId, agentVersion, environment, traceId
    buffer := [], stepCounter := 0, previousEventHash := none
    status := "running", committed := false, closed := false }

/-- How often the surroundings were asked, all events that were appended to a buffer, and the batches
that `post_events` returned for. -/
structure World where
  stamps : Nat
  posts : Nat
  apis : Nat
  emitted : List EventEnvelope
  delivered : List (List EventEnvelope)

def World.init : World :=
  { stamps := 0, posts := 0, apis := 0, emitted := [], delivered := [] }

structure RunState where
  world : World
  run : Run

/-- A method of `Run`. -/
abbrev RunM (α : Type) : Type :=
  Prog EnforceError RunState α

def raise {α : Type} (kind : ErrorKind) (message : String) : RunM α :=
  throw (.raised ⟨kind, PyJson.str message⟩)

/-- A result that may be an exception of the transport or of a function without effects. -/
def lift {α : Type} (x : Except SdkError α) : RunM α :=
  Prog.lift (match x with
    | .ok a => .ok a
    | .error e => .error (.raised e))

def modifyRun (f : Run → Run) : RunM PUnit :=
  modify fun s => { s with run := f s.run }

def modifyWorld (f : World → World) : RunM PUnit :=
  modify fun s => { s with world := f s.world }

/-! ## `_build_envelope`, `_emit` and `_flush` -/

/-- The arguments of `_emit`. -/
structure Emission where
  eventType : String
  payload : PyValue
  stepId : Option String := none
  stepIndex : Option Int := none
  actor : Option Actor := none
  payloadMode : Option String := none
  redact : Bool := true

/-- The mode, `prepared_payload` and `payload_hash` of an envelope. -/
structure Prepared where
  mode : PayloadMode
  payload : PyJson
  payloadHash : Option String

section Methods

variable (env : Env) (client : Client)

/-- `compute_payload_hash`, which raises where there is no JSON. -/
def payloadHash (payload : PyValue) : Except SdkError String :=
  match Python.computePayloadHash env.sha256 payload.toJson with
  | some hash => .ok hash
  | none => .error ⟨.other, PyJson.str "not JSON serializable"⟩

/-- `value if isinstance(value, dict) else {"value": value}`. -/
def asPayload : PyValue → PyJson
  | .dict members => (PyValue.dict members).toJson
  | value => .obj [("value", value.toJson)]

def artifactUri : PyValue → PyJson
  | .dict members => (PyValue.getOr members "artifact_uri" PyValue.none).toJson
  | _ => PyJson.none

def redactedPayload (payload : PyValue) (redact : Bool) : Except SdkError PyValue :=
  if redact then
    applyRedaction env.sha256 env.repr client.redactionRules payload client.redactionCallbacks
  else .ok payload

/-- `prepared_payload`, and the value that `payload_hash` is taken of. -/
def captured (payload redacted : PyValue) : PayloadMode → PyJson × PyValue
  | .metadataOnly => (PyJson.none, redacted)
  | .hashOnly => (PyJson.none, redacted)
  | .redactedPayload => (asPayload redacted, redacted)
  | .fullPayload => (asPayload payload, payload)
  | .selfHostedPayload => (.obj [("artifact_uri", artifactUri payload)], payload)

/-- The capture of a payload that is not `None`. -/
def capturePayload (payload : PyValue) (redact : Bool) (mode : PayloadMode) :
    Except SdkError Prepared := do
  let redacted ← redactedPayload env client payload redact
  let hash ← payloadHash env (captured payload redacted mode).2
  return ⟨mode, (captured payload redacted mode).1, some hash⟩

/-- `PayloadMode(payload_mode or default_payload_mode)`. -/
def captureMode (payloadMode : Option String) : Except SdkError PayloadMode :=
  PayloadMode.ofValue
    (if given payloadMode then payloadMode.getD "" else client.defaultPayloadMode.value)

/-- The checks of `_build_envelope`, up to the payload. -/
def prepare (e : Emission) : Except SdkError Prepared :=
  if e.eventType ∈ eventTypes then do
    let mode ← captureMode client e.payloadMode
    match e.payload with
    | .leaf .none => return ⟨mode, PyJson.none, none⟩
    | payload => capturePayload env client payload e.redact mode
  else .error ⟨.validation, PyJson.str s!"unknown event_type: {e.eventType}"⟩

/-- The envelope before its hash is filled in. -/
def envelopeOf (run : Run) (stamp : Stamp) (e : Emission) (prepared : Prepared)
    (stepIndex : Int) : EventEnvelope :=
  { eventId := stamp.eventId
    schemaVersion := schemaVersion
    eventType := e.eventType
    orgId := client.orgId
    projectId := client.project
    environment := run.environment
    agentId := run.agentId
    agentVersion := run.agentVersion
    runId := run.runId
    stepId := e.stepId
    stepIndex := some stepIndex
    traceId := run.traceId
    spanId := none
    parentSpanId := none
    actor := e.actor.getD { type := "agent", id := run.agentId }
    payloadMode := prepared.mode.value
    payload := prepared.payload
    payloadHash := prepared.payloadHash
    previousEventHash := run.previousEventHash
    eventHash := ""
    occurredAt := stamp.occurredAt
    ingestedAt := stamp.ingestedAt
    idempotencyKey := none }

/-- `_next_step_index`. -/
def nextStepIndex : RunM Int := do
  let s ← get
  modifyRun fun run => { run with stepCounter := run.stepCounter + 1 }
  return s.run.stepCounter

/-- `event.pop("event_hash", None)`. -/
def popEventHash (event : Members) : Members :=
  event.filter fun m => decide (m.1 ≠ "event_hash")

/-- `_build_envelope`. -/
def buildEnvelope (e : Emission) : RunM EventEnvelope := do
  let prepared ← lift (prepare env client e)
  let s ← get
  modifyWorld fun world => { world with stamps := world.stamps + 1 }
  let stepIndex ←
    match e.stepIndex with
    | some stepIndex => pure stepIndex
    | none => nextStepIndex
  let envelope := envelopeOf client s.run (env.stamp s.world.stamps) e prepared stepIndex
  -- the `idempotency_key` is still `None`
  match Python.computeEventHash env.sha256 (popEventHash envelope.toDict) with
  | none => raise .other "not JSON serializable"
  | some hash =>
      modifyRun fun run => { run with previousEventHash := some hash }
      return { envelope with eventHash := hash }

/-- The key of a batch in `_flush`. -/
def batchKey (runId : String) (events : List EventEnvelope) : String :=
  let first := (events.head?.map (·.eventId)).getD ""
  let last := (events.getLast?.map (·.eventId)).getD ""
  s!"{runId}:batch:{first}:{last}"

/-- `Transport.post_events`, on what became of its request and of a write to the spool. -/
def posted (requested : Except SdkError PyJson) (written : Except SdkError PUnit) :
    Except SdkError PyJson :=
  match requested with
  | .ok answer => .ok answer
  | .error e =>
      if e.kind = .collectorUnavailable ∨ e.kind = .http then
        if client.hasSpool then
          written.map fun _ => .obj [("spooled", PyJson.bool true), ("reason", e.message)]
        else if client.failOpen then
          .ok (.obj
            [("spooled", PyJson.bool false), ("fail_open", PyJson.bool true), ("reason", e.message)])
        else .error e
      else .error e

/-- The call of `post_events` in `_flush`. -/
def postEvents (runId : String) (events : List EventEnvelope) (key : String) : RunM PyJson := do
  let s ← get
  let n := s.world.posts
  modifyWorld fun world => { world with posts := world.posts + 1 }
  let answer ← lift (posted client (env.request n runId events key) (env.spoolWrite n))
  modifyWorld fun world => { world with delivered := world.delivered ++ [events] }
  return answer

/-- `_flush`: what could not be posted goes back to the head of the buffer. -/
def flush : RunM PUnit := do
  let s ← get
  if s.run.buffer.isEmpty then return
  let events := s.run.buffer
  modifyRun fun run => { run with buffer := [] }
  tryCatch
    (do
      let _ ← postEvents env client s.run.runId events (batchKey s.run.runId events)
      return)
    fun e => do
      modifyRun fun run => { run with buffer := events ++ run.buffer }
      throw e

/-- The `idempotency_key` of an event. -/
def eventKey (runId : String) (stepIndex : Option Int) (eventType : String) : String :=
  let index := match stepIndex with
    | some n => String.ofList (intText n)
    | none => "None"
  s!"{runId}:{index}:{eventType}"

/-- The event joins the buffer, which is flushed when it is full. -/
def bufferEvent (event : EventEnvelope) : RunM PUnit := do
  modifyWorld fun world => { world with emitted := world.emitted ++ [event] }
  modifyRun fun run => { run with buffer := run.buffer ++ [event] }
  let s ← get
  if client.batchSize ≤ s.run.buffer.length then flush env client

/-- `_emit`. -/
def emit (e : Emission) : RunM EventEnvelope := do
  let envelope ← buildEnvelope env client e
  let s ← get
  let key := eventKey s.run.runId envelope.stepIndex envelope.eventType
  let event := { envelope with idempotencyKey := some key }
  bufferEvent env client event
  return event

end Methods

/-! ## The event helpers -/

/-- An exception: its type, `str` and the formatted traceback. -/
structure PyExc where
  typeName : String
  message : String
  traceback : String

/-- `ToolCallContext`, with what `input` and `output` have set. -/
structure ToolCallContext where
  name : String
  redact : Bool
  stepId : String
  input : PyValue
  output : PyValue

namespace ToolCallContext

variable (tool : ToolCallContext)

/-- The event of `__enter__`. -/
def started : Emission :=
  { eventType := "tool_call.started"
    payload := .dict [("name", PyValue.str tool.name), ("input", tool.input)]
    stepId := some tool.stepId
    redact := tool.redact }

/-- The event of `__exit__`. -/
def ended : Option PyExc → Emission
  | some exc =>
      { eventType := "tool_call.failed"
        payload :=
          .dict
            [("name", PyValue.str tool.name),
              ("input", tool.input),
              ("error", .dict
                [("type", PyValue.str exc.typeName), ("message", PyValue.str exc.message)])]
        stepId := some tool.stepId
        redact := tool.redact }
  | none =>
      { eventType := "tool_call.completed"
        payload :=
          .dict [("name", PyValue.str tool.name), ("input", tool.input), ("output", tool.output)]
        stepId := some tool.stepId
        redact := tool.redact }

end ToolCallContext

namespace Emission

def input (userId inputHash : Option String) (metadata : List (String × PyValue)) : Emission :=
  { eventType := "agent_run.started"
    payload :=
      .dict
        [("user_id", PyValue.optStr userId), ("input_hash", PyValue.optStr inputHash),
          ("metadata", .dict metadata)] }

def modelCall (model : String) (provider : Option String) (prompt completion : PyValue)
    (usage : List (String × PyValue)) (redact success : Bool) : Emission :=
  { eventType := if success then "model_call.completed" else "model_call.failed"
    payload :=
      .dict
        [("model", PyValue.str model), ("provider", PyValue.optStr provider), ("prompt", prompt),
          ("completion", completion), ("usage", .dict usage)]
    redact }

def memoryRead (store key : String) (value : PyValue) (redact : Bool) : Emission :=
  { eventType := "memory.read"
    payload := .dict [("store", PyValue.str store), ("key", PyValue.str key), ("value", value)]
    redact }

def memoryWrite (store key : String) (value : PyValue) (redact : Bool) : Emission :=
  { eventType := "memory.write"
    payload := .dict [("store", PyValue.str store), ("key", PyValue.str key), ("value", value)]
    redact }

def stateChange (entityType entityId : String) (before after : PyValue) (reason : Option String)
    (applied redact : Bool) : Emission :=
  { eventType := if applied then "state.change.applied" else "state.change.proposed"
    payload :=
      .dict
        [("entity_type", PyValue.str entityType), ("entity_id", PyValue.str entityId),
          ("before", before), ("after", after), ("reason", PyValue.optStr reason)]
    redact }

/-- The event of `policy_check`, for the result of the caller or of the collector. -/
def policyChecked (policyId : String) (policyVersion policyHash input : PyValue)
    (result : List (String × PyValue)) : Emission :=
  let passed := (PyValue.getOr result "allowed" (PyValue.bool true)).truthy ||
    (PyValue.getOr result "requires_approval" PyValue.none).truthy
  { eventType := if passed then "policy.check.passed" else "policy.check.failed"
    payload :=
      .dict
        [("policy_id", PyValue.str policyId), ("policy_version", policyVersion),
          ("policy_hash", policyHash), ("input", input), ("result", .dict result)] }

def enforcement (blocked : Bool) (policyId : String) (input : PyValue)
    (result : List (String × PyValue)) : Emission :=
  { eventType := if blocked then "policy.enforcement.blocked" else "policy.enforcement.allowed"
    payload :=
      .dict [("policy_id", PyValue.str policyId), ("input", input), ("result", .dict result)] }

def approvalRequested (body : PyValue) : Emission :=
  { eventType := "approval.requested", payload := body }

def humanApproval (approvalId reviewerId decision : String) (reason : Option String) : Emission :=
  { eventType := s!"approval.{decision}"
    payload :=
      .dict
        [("approval_id", PyValue.str approvalId), ("reviewer_id", PyValue.str reviewerId),
          ("decision", PyValue.str decision), ("reason", PyValue.optStr reason)]
    actor := some { type := "human", id := reviewerId } }

def evidenceArtifact (uri sha256 kind : String) (description : Option String) : Emission :=
  { eventType := "evidence.artifact.created"
    payload :=
      .dict
        [("uri", PyValue.str uri), ("sha256", PyValue.str sha256), ("kind", PyValue.str kind),
          ("description", PyValue.optStr description)] }

/-- The event of `commit`. -/
def committed : Emission :=
  { eventType := "agent_run.committed", payload := .dict [] }

/-- The event of `rollback`. -/
def rolledBack (reason : Option String) : Emission :=
  { eventType := "agent_run.rolled_back", payload := .dict [("reason", PyValue.optStr reason)] }

/-- The event of `fail`. -/
def failed (error : PyExc) : Emission :=
  { eventType := "agent_run.failed"
    payload :=
      .dict
        [("error", .dict
          [("type", PyValue.str error.typeName), ("message", PyValue.str error.message),
            ("traceback", PyValue.str error.traceback)])] }

end Emission

section Helpers

variable (env : Env) (client : Client)

/-- A call of the transport that is not `post_events`. -/
def callApi (call : ApiCall) : RunM PyJson := do
  let s ← get
  modifyWorld fun world => { world with apis := world.apis + 1 }
  lift (env.api s.world.apis call)

/-- The result that `policy_check` records, with the version and hash of the policy. -/
def checkResult (policyId : String) (input : PyValue) (result : Option (List (String × PyValue)))
    (policyVersion policyHash : Option String) :
    RunM (List (String × PyValue) × PyValue × PyValue) := do
  match result with
  | some result => return (result, PyValue.optStr policyVersion, PyValue.optStr policyHash)
  | none =>
      let s ← get
      let body := PyValue.dict
        [("policy_id", PyValue.str policyId), ("input", input),
          ("run_id", PyValue.str s.run.runId)]
      let response ← lift (asDict (← callApi env (.policyCheck body)))
      let result ← lift (asDict (getOr response "result" (.obj response)))
      let version := PyValue.ofJson (PyJson.get response "policy_version")
      let hash := PyValue.ofJson (PyJson.get response "policy_hash")
      return (PyValue.membersOfJson result, (PyValue.optStr policyVersion).orElse version,
        (PyValue.optStr policyHash).orElse hash)

/-- `policy_check`. -/
def policyCheck (policyId : String) (input : PyValue) (result : Option (List (String × PyValue)))
    (policyVersion policyHash : Option String) : RunM (List (String × PyValue)) := do
  let (result, version, hash) ← checkResult env policyId input result policyVersion policyHash
  let _ ← emit env client (.policyChecked policyId version hash input result)
  return result

/-- The body of an approval request. -/
def approvalBody (s : RunState) (policyId : Option String) (input reason : PyValue)
    (approvalId : Option String) : PyValue :=
  let approvalId :=
    if given approvalId then approvalId.getD "" else env.approvalId s.world.stamps
  .dict
    [("approval_id", PyValue.str approvalId), ("run_id", PyValue.str s.run.runId),
      ("policy_id", PyValue.optStr policyId), ("input", input), ("reason", reason)]

/-- `request_approval`. -/
def requestApproval (policyId : Option String) (input reason : PyValue)
    (approvalId : Option String) : RunM Members := do
  let s ← get
  let body := approvalBody env s policyId input reason approvalId
  let _ ← emit env client (.approvalRequested body)
  flush env client
  lift (asDict (← callApi env (.requestApproval body)))

/-- `enforce_policy`. -/
def enforcePolicy (policyId : String) (input : PyValue) : RunM (List (String × PyValue)) := do
  let result ← policyCheck env client policyId input none none none
  let allowed := PyValue.getOr result "allowed" PyValue.none
  let requiresApproval := (PyValue.getOr result "requires_approval" PyValue.none).truthy
  if isFalse allowed.toJson && !requiresApproval then
    let _ ← emit env client (.enforcement true policyId input result)
    throw (.denied (PyValue.getOr result "reason" (PyValue.str "policy denied")).toJson policyId
      (PyValue.getOr result "reason" (PyValue.str "")).toJson)
  if requiresApproval then
    let reason := PyValue.getOr result "reason" (PyValue.str "approval required")
    let approval ← requestApproval env client (some policyId) input reason none
    throw (.approvalRequired reason.toJson (getOr approval "approval_id" (PyJson.str "")) policyId)
  let _ ← emit env client (.enforcement false policyId input result)
  return result

/-- `human_approval`. -/
def humanApproval (approvalId reviewerId decision : String) (reason : Option String) :
    RunM EventEnvelope := do
  if decision ∉ ["approved", "rejected", "expired", "overridden"] then
    raise .validation s!"invalid approval decision: {decision}"
  emit env client (.humanApproval approvalId reviewerId decision reason)

/-! ## The end of a run -/

/-- `commit`. -/
def commit : RunM PyJson := do
  let s ← get
  if s.run.closed then raise .validation "run already closed"
  let _ ← emit env client .committed
  flush env client
  modifyRun fun run => { run with status := "committed", committed := true, closed := true }
  callApi env (.commitRun s.run.runId)

/-- `rollback`. -/
def rollback (reason : Option String) : RunM PyJson := do
  let s ← get
  if s.run.closed then raise .validation "run already closed"
  let _ ← emit env client (.rolledBack reason)
  flush env client
  modifyRun fun run => { run with status := "rolled_back", closed := true }
  callApi env (.rollbackRun s.run.runId reason)

/-- `fail`. -/
def fail (error : PyExc) : RunM PUnit := do
  let s ← get
  if s.run.closed then return
  let _ ← emit env client (.failed error)
  flush env client
  modifyRun fun run => { run with status := "failed", closed := true }

/-- `__exit__`; the exception of the block goes on afterwards, so the result is `False`. -/
def exit (exc : Option PyExc) : RunM Bool := do
  match exc with
  | some exc =>
      tryCatch (fail env client exc) fun _ => return
      return false
  | none =>
      let s ← get
      if !s.run.committed then
        let _ ← commit env client
      return false

/-! ## Public calls -/

/-- A call of a method of `Run`, of its tools, or of `_flush` by the client. -/
inductive Call
  | input (userId inputHash : Option String) (metadata : List (String × PyValue))
  | modelCall (model : String) (provider : Option String) (prompt completion : PyValue)
      (usage : List (String × PyValue)) (redact success : Bool)
  | enterTool (tool : ToolCallContext)
  | exitTool (tool : ToolCallContext) (exc : Option PyExc)
  | memoryRead (store key : String) (value : PyValue) (redact : Bool)
  | memoryWrite (store key : String) (value : PyValue) (redact : Bool)
  | stateChange (entityType entityId : String) (before after : PyValue) (reason : Option String)
      (applied redact : Bool)
  | policyCheck (policyId : String) (input : PyValue) (result : Option (List (String × PyValue)))
      (policyVersion policyHash : Option String)
  | enforcePolicy (policyId : String) (input : PyValue)
  | requestApproval (policyId : Option String) (input reason : PyValue) (approvalId : Option String)
  | humanApproval (approvalId reviewerId decision : String) (reason : Option String)
  | evidenceArtifact (uri sha256 kind : String) (description : Option String)
  | emit (e : Emission)
  | flush
  | commit
  | rollback (reason : Option String)
  | fail (error : PyExc)
  | exit (exc : Option PyExc)

/-- The effects of a call; what it returns is left out. -/
def call : Call → RunM PUnit
  | .input userId inputHash metadata =>
      discard (emit env client (.input userId inputHash metadata))
  | .modelCall model provider prompt completion usage redact success =>
      discard (emit env client (.modelCall model provider prompt completion usage redact success))
  | .enterTool tool => discard (emit env client tool.started)
  | .exitTool tool exc => discard (emit env client (tool.ended exc))
  | .memoryRead store key value redact =>
      discard (emit env client (.memoryRead store key value redact))
  | .memoryWrite store key value redact =>
      discard (emit env client (.memoryWrite store key value redact))
  | .stateChange entityType entityId before after reason applied redact =>
      discard (emit env client
        (.stateChange entityType entityId before after reason applied redact))
  | .policyCheck policyId input result version hash =>
      discard (policyCheck env client policyId input result version hash)
  | .enforcePolicy policyId input => discard (enforcePolicy env client policyId input)
  | .requestApproval policyId input reason approvalId =>
      discard (requestApproval env client policyId input reason approvalId)
  | .humanApproval approvalId reviewerId decision reason =>
      discard (humanApproval env client approvalId reviewerId decision reason)
  | .evidenceArtifact uri sha256 kind description =>
      discard (emit env client (.evidenceArtifact uri sha256 kind description))
  | .emit e => discard (emit env client e)
  | .flush => flush env client
  | .commit => discard (commit env client)
  | .rollback reason => discard (rollback env client reason)
  | .fail error => fail env client error
  | .exit exc => discard (exit env client exc)

/-- The state after a call; what is raised reaches the caller, who may go on. -/
def step (s : RunState) (c : Call) : RunState :=
  (call env client c).final s

end Helpers

end Sdk
end ControlDB
