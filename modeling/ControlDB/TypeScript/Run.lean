import ControlDB.TypeScript.Hashing

/-!
# Runs of the TypeScript SDK

`_emit` and `_flush` of `run.ts`, with `postEvents` of `transport.ts`.  A method runs up to its first
`await` without a break: an event that fills the buffer starts the flush, and a flush empties the
buffer and starts the request.  What a pending request comes to is a step of its own.

The identifiers, the clock, the digest of Node and `applyRedaction` under the rules of the client are
the parameters `Env`.  Objects are told apart by the number of their making.
-/

namespace ControlDB
namespace TypeScript

open Library

/-! ## `events.ts` -/

def schemaVersion : String :=
  "2026-05-01"

def eventTypes : List String :=
  ["agent_run.started", "agent_run.committed", "agent_run.rolled_back", "agent_run.failed",
    "agent_run.requires_approval", "model_call.started", "model_call.completed",
    "model_call.failed", "tool_call.started", "tool_call.completed", "tool_call.failed",
    "memory.read", "memory.write", "memory.delete_requested", "memory.redacted",
    "state.snapshot.created", "state.change.proposed", "state.change.applied",
    "state.change.reverted", "policy.check.started", "policy.check.passed",
    "policy.check.failed", "policy.enforcement.blocked", "policy.enforcement.allowed",
    "approval.requested", "approval.approved", "approval.rejected", "approval.expired",
    "approval.overridden", "evidence.artifact.created", "evidence.export.started",
    "evidence.export.completed", "evidence.export.failed", "auth.api_key.created",
    "auth.api_key.revoked", "user.login", "user.permission.changed", "audit_log.exported"]

structure Actor where
  type : JsString
  id : JsString

/-! ## Values -/

def string (s : JsString) : JsValue :=
  .leaf (.string s)

def null : JsValue :=
  .leaf .null

/-- `text ?? null`. -/
def orNull : Option JsString → JsValue
  | some s => string s
  | none => null

/-- `String(x)`; of a number that is not finite, the event has no hash. -/
def numberText : JsNumber → JsString
  | .integer n => integerText n.val
  | .finite text => text
  | .nonFinite => units "NaN"

/-- A counter after `n` increments; at `2 ^ 53` it stands still. -/
def counter (n : Nat) : JsNumber :=
  if h : n < 2 ^ 53 then .integer ⟨n, by simpa using h⟩ else .finite (units "9007199254740992")

/-! ## The client and its surroundings -/

/-- What is thrown. -/
inductive Thrown
  | validation (message : JsString)
  | typeError (e : TypeError)
  | error (message : String)

structure Client where
  orgId : JsString
  project : JsString
  environment : JsString
  defaultPayloadMode : JsString
  hasRedactionRules : Bool
  batchSize : Int
  failOpen : Bool
  hasSpool : Bool

/-- `generateEventId()` and `utcNowIso()` by the number of the call. -/
structure Env where
  sha256 : Sha256
  applyRedaction : JsValue → Except Thrown JsValue
  eventId : Nat → JsString
  utcNowIso : Nat → JsString

/-- The fields of a run that do not change. -/
structure RunOptions where
  runId : JsString
  agentId : JsString
  agentVersion : Option JsString
  environment : Option JsString
  traceId : Option JsString

structure EmitOptions where
  stepId : Option JsString := none
  stepIndex : Option JsNumber := none
  actor : Option Actor := none
  payloadMode : Option JsString := none
  redact : Bool := true

/-- The arguments of `_emit`; a payload that is `null` or `undefined` is a leaf. -/
structure Emission where
  eventType : JsString
  payload : JsValue
  options : EmitOptions := {}

/-! ## The state of a run -/

structure EventObject where
  number : Nat
  members : List (JsString × JsValue)

/-- A request of `postEvents` that is pending. -/
structure Post where
  events : List EventObject
  idempotencyKey : JsString

/-- `_prevEventHash`, `_stepCounter`, and how many envelopes were made. -/
structure Chain where
  prevEventHash : Option String := none
  stepCounter : Nat := 0
  envelopes : Nat := 0

/-- The buffer, the pending requests in the order of their start, what the collector was given, and all
events that were put into the buffer. -/
structure Queue where
  buffer : List EventObject := []
  inFlight : List Post := []
  delivered : List EventObject := []
  emitted : List EventObject := []

structure RunState where
  chain : Chain := {}
  queue : Queue := {}

/-! ## The envelope -/

section Methods

variable (env : Env) (client : Client) (run : RunOptions)

def payloadHash (payload : JsValue) : Except Thrown String :=
  match computePayloadHash env.sha256 payload with
  | .ok hash => .ok hash
  | .error e => .error (.typeError e)

/-- `typeof value === "object" && !Array.isArray(value) ? value : { value }`; `null` is an object. -/
def asPayload : JsValue → JsValue
  | .obj record => .obj record
  | .leaf .null => null
  | value => .obj [(units "value", value)]

def artifactUri : JsValue → JsValue
  | .obj record =>
      match record.lookup (units "artifact_uri") with
      | none => null
      | some (.leaf .undefined) => null
      | some uri => uri
  | _ => null

def redactedPayload (e : Emission) : Except Thrown JsValue :=
  if e.options.redact ∧ client.hasRedactionRules then env.applyRedaction e.payload
  else .ok e.payload

/-- `preparedPayload`, and the value that `payloadHash` is taken of. -/
def captured (captureMode : JsString) (payload redacted : JsValue) : JsValue × JsValue :=
  if captureMode = units "redacted_payload" then (asPayload redacted, redacted)
  else if captureMode = units "full_payload" then (asPayload payload, payload)
  else if captureMode = units "self_hosted_payload" then
    (.obj [(units "artifact_uri", artifactUri payload)], payload)
  else (null, redacted)

def capturePayload (captureMode : JsString) (e : Emission) :
    Except Thrown (JsValue × Option String) :=
  match e.payload with
  | .leaf .null => .ok (null, none)
  | .leaf .undefined => .ok (null, none)
  | payload => do
      let redacted ← redactedPayload env client e
      let hash ← payloadHash env (captured captureMode payload redacted).2
      return ((captured captureMode payload redacted).1, some hash)

def Actor.toObject (actor : Actor) : JsValue :=
  .obj [(units "type", string actor.type), (units "id", string actor.id)]

/-- `envelopeData`, before and after it has its hash. -/
def envelopeData (chain : Chain) (e : Emission) (stepIndex : JsNumber) (captureMode : JsString)
    (payload : JsValue) (payloadHash : Option String) (eventHash : String) :
    List (JsString × JsValue) :=
  [(units "event_id", string (env.eventId chain.envelopes)),
    (units "schema_version", string (units schemaVersion)),
    (units "event_type", string e.eventType),
    (units "org_id", string client.orgId),
    (units "project_id", string client.project),
    (units "environment", string (run.environment.getD client.environment)),
    (units "agent_id", string run.agentId),
    (units "agent_version", orNull run.agentVersion),
    (units "run_id", string run.runId),
    (units "step_id", orNull e.options.stepId),
    (units "step_index", .leaf (.number stepIndex)),
    (units "trace_id", orNull run.traceId),
    (units "span_id", null),
    (units "parent_span_id", null),
    (units "actor", (e.options.actor.getD ⟨units "agent", run.agentId⟩).toObject),
    (units "payload_mode", string captureMode),
    (units "payload", payload),
    (units "payload_hash", orNull (payloadHash.map units)),
    (units "previous_event_hash", orNull (chain.prevEventHash.map units)),
    (units "event_hash", string (units eventHash)),
    (units "occurred_at", string (env.utcNowIso (2 * chain.envelopes))),
    (units "ingested_at", string (env.utcNowIso (2 * chain.envelopes + 1)))]

def eventKey (stepIndex : JsNumber) (eventType : JsString) : JsString :=
  run.runId ++ units ":" ++ numberText stepIndex ++ units ":" ++ eventType

/-- `_emit` up to the buffer: the chain, and the members of the event unless something is thrown. -/
def buildEvent (chain : Chain) (e : Emission) :
    Chain × Except Thrown (List (JsString × JsValue)) :=
  if e.eventType ∉ eventTypes.map units then
    (chain, .error (.validation (units "unknown event_type: " ++ e.eventType)))
  else
    let stepIndex := e.options.stepIndex.getD (counter chain.stepCounter)
    let stepCounter :=
      if e.options.stepIndex.isSome then chain.stepCounter else chain.stepCounter + 1
    let captureMode := e.options.payloadMode.getD client.defaultPayloadMode
    match capturePayload env client captureMode e with
    | .error x => ({ chain with stepCounter }, .error x)
    | .ok (payload, payloadHash) =>
        let envelope := envelopeData env client run chain e stepIndex captureMode payload payloadHash
        match computeEventHash env.sha256 (envelope "") with
        | .error x =>
            ({ chain with stepCounter, envelopes := chain.envelopes + 1 }, .error (.typeError x))
        | .ok eventHash =>
            (⟨some eventHash, stepCounter, chain.envelopes + 1⟩,
              .ok (envelope eventHash ++
                [(units "idempotency_key", string (eventKey run stepIndex e.eventType))]))

/-! ## The buffer -/

/-- `event["event_id"]`. -/
def EventObject.eventId (event : EventObject) : JsString :=
  match event.members.lookup (units "event_id") with
  | some (.leaf (.string s)) => s
  | _ => []

/-- `this._buffer.push(envelopeData)`. -/
def Queue.push (q : Queue) (members : List (JsString × JsValue)) : Queue :=
  let event : EventObject := ⟨q.emitted.length, members⟩
  { q with buffer := q.buffer ++ [event], emitted := q.emitted ++ [event] }

def batchKey (events : List EventObject) : JsString :=
  let id := fun event : Option EventObject => (event.map EventObject.eventId).getD []
  run.runId ++ units ":batch:" ++ id events.head? ++ units ":" ++ id events.getLast?

/-- `_flush` up to its `await`. -/
def Queue.flush (q : Queue) : Queue :=
  if q.buffer.isEmpty then q
  else { q with buffer := [], inFlight := q.inFlight ++ [⟨q.buffer, batchKey run q.buffer⟩] }

/-- What the request of a batch comes to. -/
inductive Outcome
  | delivered
  | failed
  deriving DecidableEq

/-- Whether `postEvents` returns; a spool takes the batch of a request that fails. -/
def postReturns : Outcome → Bool
  | .delivered => true
  | .failed => client.hasSpool || client.failOpen

/-- The rest of `_flush`, when the request that was started as number `k` of the pending ones comes to
its end. -/
def Queue.settle (q : Queue) (k : Nat) (outcome : Outcome) : Queue :=
  match q.inFlight[k]? with
  | none => q
  | some post =>
      { q with
        inFlight := q.inFlight.eraseIdx k
        delivered := if outcome = .delivered then q.delivered ++ post.events else q.delivered
        buffer := if postReturns client outcome then q.buffer else post.events ++ q.buffer }

/-! ## Steps -/

inductive Step
  | emit (e : Emission)
  | flush
  | settle (k : Nat) (outcome : Outcome)

/-- `_emit` up to its `await`. -/
def emit (s : RunState) (e : Emission) : RunState :=
  let (chain, built) := buildEvent env client run s.chain e
  match built with
  | .error _ => { s with chain }
  | .ok members =>
      let q := s.queue.push members
      { chain, queue := if client.batchSize ≤ q.buffer.length then q.flush run else q }

def step (s : RunState) : Step → RunState
  | .emit e => emit env client run s e
  | .flush => { s with queue := s.queue.flush run }
  | .settle k outcome => { s with queue := s.queue.settle client k outcome }

end Methods

end TypeScript
end ControlDB
