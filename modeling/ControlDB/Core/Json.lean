import ControlDB.Core.Types

/-!
# JSON documents and the record codecs

The `run_to_json` … `json_to_approval` codecs of `event_store.cpp`.  A document is a
`nlohmann::json` value; the members of an object are looked up by name, so their order is the
one they are written in here.  A double is kept as its bit pattern: no codec reads one.
-/

namespace ControlDB

/-- A `nlohmann::json` value. -/
inductive Json
  | null
  | bool (b : Bool)
  | int (n : Int)
  | float (bits : UInt64)
  | str (s : Bytes)
  | arr (items : List Json)
  | obj (members : List (Bytes × Json))

/-- What an operation throws: its own `std::runtime_error`s, the exceptions of the JSON library
and the `std::length_error` of `vector::reserve`. -/
inductive StoreError
  | runtimeError (what : Bytes)
  | parseError
  | typeError
  | outOfRange
  | lengthError
  deriving DecidableEq, Repr

namespace Json

/-- The member called `key`. -/
def find (key : Bytes) : Json → Option Json
  | obj members => (members.find? fun m => decide (m.1 = key)).map Prod.snd
  | _ => none

/-- `j.at(key)`. -/
def atKey (j : Json) (key : String) : Except StoreError Json :=
  match j with
  | obj _ =>
      match j.find (bytes key) with
      | some v => .ok v
      | none => .error .outOfRange
  | _ => .error .typeError

/-- `get<std::string>()`. -/
def getString : Json → Except StoreError Bytes
  | str s => .ok s
  | _ => .error .typeError

/-- `get<int64_t>()`, on the integers the codecs write. -/
def getInt : Json → Except StoreError Int
  | int n => .ok n
  | _ => .error .typeError

/-- `get<bool>()`. -/
def getBool : Json → Except StoreError Bool
  | bool b => .ok b
  | _ => .error .typeError

/-- `j.value(key, default)` with a conversion `get`. -/
def value {α : Type} (get : Json → Except StoreError α) (j : Json) (key : String) (default : α) :
    Except StoreError α :=
  match j with
  | obj _ =>
      match j.find (bytes key) with
      | some v => get v
      | none => .ok default
  | _ => .error .typeError

/-- `j[key] = v`: an absent member is added, and `null` becomes an object first. -/
def assign (j : Json) (key : Bytes) (v : Json) : Except StoreError Json :=
  match j with
  | null => .ok (obj [(key, v)])
  | obj members =>
      if members.any fun m => decide (m.1 = key) then
        .ok (obj (members.map fun m => if m.1 = key then (key, v) else m))
      else .ok (obj (members ++ [(key, v)]))
  | _ => .error .typeError

end Json

/-! ## Codecs -/

def runToJson (r : AgentRun) : Json :=
  .obj [
    (bytes "run_id", .str r.runId),
    (bytes "org_id", .str r.orgId),
    (bytes "project_id", .str r.projectId),
    (bytes "environment", .str r.environment),
    (bytes "agent_id", .str r.agentId),
    (bytes "agent_version", .str r.agentVersion),
    (bytes "status", .str r.status),
    (bytes "metadata_json", .str r.metadataJson),
    (bytes "started_at_ms", .int r.startedAtMs),
    (bytes "ended_at_ms", .int r.endedAtMs),
    (bytes "last_event_hash", .str r.lastEventHash),
    (bytes "event_count", .int r.eventCount)]

def jsonToRun (j : Json) : Except StoreError AgentRun := do
  return {
    runId := ← (← j.atKey "run_id").getString
    orgId := ← (← j.atKey "org_id").getString
    projectId := ← (← j.atKey "project_id").getString
    environment := ← (← j.atKey "environment").getString
    agentId := ← (← j.atKey "agent_id").getString
    agentVersion := ← j.value Json.getString "agent_version" []
    status := ← (← j.atKey "status").getString
    metadataJson := ← j.value Json.getString "metadata_json" (bytes "\x7b\x7d")
    startedAtMs := ← (← j.atKey "started_at_ms").getInt
    endedAtMs := ← j.value Json.getInt "ended_at_ms" 0
    lastEventHash := ← j.value Json.getString "last_event_hash" []
    eventCount := ← j.value Json.getInt "event_count" 0 }

def eventToJson (e : AuditEvent) : Json :=
  .obj [
    (bytes "sequence", .int e.sequence),
    (bytes "event_id", .str e.eventId),
    (bytes "org_id", .str e.orgId),
    (bytes "project_id", .str e.projectId),
    (bytes "environment", .str e.environment),
    (bytes "run_id", .str e.runId),
    (bytes "step_id", .str e.stepId),
    (bytes "step_index", .int e.stepIndex),
    (bytes "event_type", .str e.eventType),
    (bytes "schema_version", .str e.schemaVersion),
    (bytes "actor_type", .str e.actorType),
    (bytes "actor_id", .str e.actorId),
    (bytes "trace_id", .str e.traceId),
    (bytes "span_id", .str e.spanId),
    (bytes "parent_span_id", .str e.parentSpanId),
    (bytes "payload_mode", .str e.payloadMode),
    (bytes "payload", .str e.payload),
    (bytes "payload_hash", .str e.payloadHash),
    (bytes "previous_event_hash", .str e.previousEventHash),
    (bytes "event_hash", .str e.eventHash),
    (bytes "occurred_at_ms", .int e.occurredAtMs),
    (bytes "ingested_at_ms", .int e.ingestedAtMs),
    (bytes "idempotency_key", .str e.idempotencyKey)]

def jsonToEvent (j : Json) : Except StoreError AuditEvent := do
  return {
    sequence := (← (← j.atKey "sequence").getInt).toNat
    eventId := ← (← j.atKey "event_id").getString
    orgId := ← j.value Json.getString "org_id" []
    projectId := ← j.value Json.getString "project_id" []
    environment := ← j.value Json.getString "environment" []
    runId := ← j.value Json.getString "run_id" []
    stepId := ← j.value Json.getString "step_id" []
    stepIndex := ← j.value Json.getInt "step_index" (-1)
    eventType := ← j.value Json.getString "event_type" []
    schemaVersion := ← j.value Json.getString "schema_version" []
    actorType := ← j.value Json.getString "actor_type" []
    actorId := ← j.value Json.getString "actor_id" []
    traceId := ← j.value Json.getString "trace_id" []
    spanId := ← j.value Json.getString "span_id" []
    parentSpanId := ← j.value Json.getString "parent_span_id" []
    payloadMode := ← j.value Json.getString "payload_mode" (bytes "metadata_only")
    payload := ← j.value Json.getString "payload" []
    payloadHash := ← j.value Json.getString "payload_hash" []
    previousEventHash := ← j.value Json.getString "previous_event_hash" []
    eventHash := ← j.value Json.getString "event_hash" []
    occurredAtMs := ← j.value Json.getInt "occurred_at_ms" 0
    ingestedAtMs := ← j.value Json.getInt "ingested_at_ms" 0
    idempotencyKey := ← j.value Json.getString "idempotency_key" [] }

def approvalToJson (a : Approval) : Json :=
  .obj [
    (bytes "approval_id", .str a.approvalId),
    (bytes "run_id", .str a.runId),
    (bytes "org_id", .str a.orgId),
    (bytes "project_id", .str a.projectId),
    (bytes "policy_id", .str a.policyId),
    (bytes "requested_by", .str a.requestedBy),
    (bytes "reviewer_id", .str a.reviewerId),
    (bytes "status", .str a.status),
    (bytes "reason", .str a.reason),
    (bytes "input_json", .str a.inputJson),
    (bytes "created_at_ms", .int a.createdAtMs),
    (bytes "decided_at_ms", .int a.decidedAtMs)]

def jsonToApproval (j : Json) : Except StoreError Approval := do
  return {
    approvalId := ← (← j.atKey "approval_id").getString
    runId := ← j.value Json.getString "run_id" []
    orgId := ← j.value Json.getString "org_id" []
    projectId := ← j.value Json.getString "project_id" []
    policyId := ← j.value Json.getString "policy_id" []
    requestedBy := ← j.value Json.getString "requested_by" []
    reviewerId := ← j.value Json.getString "reviewer_id" []
    status := ← j.value Json.getString "status" (bytes "requested")
    reason := ← j.value Json.getString "reason" []
    inputJson := ← j.value Json.getString "input_json" (bytes "\x7b\x7d")
    createdAtMs := ← j.value Json.getInt "created_at_ms" 0
    decidedAtMs := ← j.value Json.getInt "decided_at_ms" 0 }

/-- The document `put_export` writes. -/
def exportToJson (e : EvidenceExport) : Json :=
  .obj [
    (bytes "export_id", .str e.exportId),
    (bytes "run_id", .str e.runId),
    (bytes "org_id", .str e.orgId),
    (bytes "project_id", .str e.projectId),
    (bytes "bundle_uri", .str e.bundleUri),
    (bytes "bundle_hash", .str e.bundleHash),
    (bytes "event_count", .int e.eventCount),
    (bytes "hash_chain_valid", .bool e.hashChainValid),
    (bytes "generated_by", .str e.generatedBy),
    (bytes "generated_at_ms", .int e.generatedAtMs)]

/-! ### Round trips -/

@[simp] theorem jsonToRun_runToJson (r : AgentRun) : jsonToRun (runToJson r) = .ok r := rfl

@[simp] theorem jsonToEvent_eventToJson (e : AuditEvent) : jsonToEvent (eventToJson e) = .ok e :=
  rfl

@[simp] theorem jsonToApproval_approvalToJson (a : Approval) :
    jsonToApproval (approvalToJson a) = .ok a := rfl

theorem runToJson_injective : Function.Injective runToJson := fun r r' h =>
  Except.ok.inj (jsonToRun_runToJson r ▸ h ▸ jsonToRun_runToJson r' : Except.ok r = .ok r')

theorem eventToJson_injective : Function.Injective eventToJson := fun e e' h =>
  Except.ok.inj (jsonToEvent_eventToJson e ▸ h ▸ jsonToEvent_eventToJson e' : Except.ok e = .ok e')

end ControlDB
