import ControlDB.Collector.App
import ControlDB.Sdk.Transport

/-!
# Enforcing a policy

`Run.policy_check`, `enforce_policy` and `request_approval` of the Python SDK's `run.py`, against the
endpoints of the collector.
-/

namespace ControlDB
namespace Sdk

open Library Python Http Collector

/-- A run of the SDK and the collector it talks to.  `emit i` is what `_emit` makes of the `i`-th
event of the call, and `flush` what `_flush` makes of the buffer. -/
structure Session where
  app : App
  maxRetries : Int
  text : PyJson → String
  runId : String
  /-- `generate_approval_id()`. -/
  approvalId : String
  emit : Nat → String → PyJson → Except SdkError Unit
  flush : Except SdkError Unit

/-- What `enforce_policy` raises: a `PolicyDeniedError`, an `ApprovalRequiredError`, or what came out
of a call below it. -/
inductive EnforceError
  | denied (message : PyJson) (policyId : String) (reason : PyJson)
  | approvalRequired (message : PyJson) (approvalId : PyJson) (policyId : String)
  | raised (error : SdkError)

abbrev Members := List (String × PyJson)

/-- `mapping.get(key, default)`. -/
def getOr (members : Members) (key : String) (default : PyJson) : PyJson :=
  (members.lookup key).getD default

/-- A value that `get` is called on: without it there is an `AttributeError`. -/
def asDict : PyJson → Except SdkError Members
  | .obj members => .ok members
  | _ => .error ⟨.other, PyJson.str "AttributeError"⟩

/-- `value is False`. -/
def isFalse : PyJson → Bool
  | .leaf (.bool false) => true
  | _ => false

namespace Session

variable (session : Session)

/-- A `POST` of the transport. -/
def post (path : String) (body : PyJson) : Except SdkError PyJson :=
  Py.request session.text session.maxRetries (fun _ => session.app.answer)
    (Py.httpRequest "POST" path (some body) PyJson.none) true

/-! ## `policy_check` -/

def checkBody (policyId : String) (input : PyJson) : PyJson :=
  .obj [("policy_id", PyJson.str policyId), ("input", input), ("run_id", PyJson.str session.runId)]

/-- The event type for a result. -/
def checkedType (result : Members) : String :=
  if (getOr result "allowed" (PyJson.bool true)).truthy ||
      (PyJson.get result "requires_approval").truthy then "policy.check.passed"
  else "policy.check.failed"

def checkedPayload (policyId : String) (input : PyJson) (response result : Members) : PyJson :=
  .obj
    [("policy_id", PyJson.str policyId),
     ("policy_version", PyJson.get response "policy_version"),
     ("policy_hash", PyJson.get response "policy_hash"),
     ("input", input),
     ("result", .obj result)]

/-- `Run.policy_check`, as `enforce_policy` calls it. -/
def policyCheck (policyId : String) (input : PyJson) : Except SdkError Members := do
  let response ← asDict (← session.post "/v1/policy/check" (session.checkBody policyId input))
  let result ← asDict (getOr response "result" (.obj response))
  session.emit 0 (checkedType result) (checkedPayload policyId input response result)
  return result

/-! ## `request_approval` -/

def approvalBody (policyId : String) (input reason : PyJson) : PyJson :=
  .obj
    [("approval_id", PyJson.str session.approvalId),
     ("run_id", PyJson.str session.runId),
     ("policy_id", PyJson.str policyId),
     ("input", input),
     ("reason", reason)]

/-- `Run.request_approval`. -/
def requestApproval (policyId : String) (input reason : PyJson) : Except SdkError Members := do
  let body := session.approvalBody policyId input reason
  session.emit 1 "approval.requested" body
  session.flush
  asDict (← session.post "/v1/approvals/request" body)

/-! ## `enforce_policy` -/

def enforcedPayload (policyId : String) (input : PyJson) (result : Members) : PyJson :=
  .obj [("policy_id", PyJson.str policyId), ("input", input), ("result", .obj result)]

/-- What `enforce_policy` does with the result of `policy_check`. -/
def enforceResult (policyId : String) (input : PyJson) (result : Members) :
    Except EnforceError PyJson :=
  let payload := enforcedPayload policyId input result
  let requiresApproval := (PyJson.get result "requires_approval").truthy
  if isFalse (PyJson.get result "allowed") && !requiresApproval then
    match session.emit 1 "policy.enforcement.blocked" payload with
    | .error e => .error (.raised e)
    | .ok () =>
        .error (.denied (getOr result "reason" (PyJson.str "policy denied")) policyId
          (getOr result "reason" (PyJson.str "")))
  else if requiresApproval then
    let reason := getOr result "reason" (PyJson.str "approval required")
    match session.requestApproval policyId input reason with
    | .error e => .error (.raised e)
    | .ok approval =>
        .error (.approvalRequired reason (getOr approval "approval_id" (PyJson.str "")) policyId)
  else
    match session.emit 1 "policy.enforcement.allowed" payload with
    | .error e => .error (.raised e)
    | .ok () => .ok (.obj result)

/-- `Run.enforce_policy`. -/
def enforcePolicy (policyId : String) (input : PyJson) : Except EnforceError PyJson :=
  match session.policyCheck policyId input with
  | .error e => .error (.raised e)
  | .ok result => session.enforceResult policyId input result

end Session

end Sdk
end ControlDB
