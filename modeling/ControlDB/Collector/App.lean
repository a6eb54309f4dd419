import ControlDB.Collector.Policy
import ControlDB.Collector.Services
import ControlDB.Python.Http

/-!
# The policy and approval endpoints

`require_scope` of `auth.py`, and `policy_check` and `approvals_request` of `app.py` with the models
of their bodies.  The key of a request is known and not revoked.
-/

namespace ControlDB
namespace Collector

open Library Python Http

/-- The collector as one request finds it.  `validationDetail` is what pydantic says of the fields
that are wrong. -/
structure App where
  env : Env
  moment : Moment
  db : Database
  principal : Principal
  scopes : List (String × String)
  engine : PolicyEngine
  text : Yaml → String
  validationDetail : List String → PyJson

/-- `require_scope(resource, action)`; an answer is an `HTTPException`. -/
def requireScope (scopes : List (String × String)) (resource action : String) : Option Response :=
  match scopes.lookup resource with
  | none => some (.exception 403 (PyJson.str ("missing scope " ++ resource ++ ":" ++ action)))
  | some granted =>
      if granted = "write" ∨ granted = action ∨ granted = "*" then none
      else if granted = "read" ∧ action = "read" then none
      else some (.exception 403
        (PyJson.str ("scope " ++ resource ++ ":" ++ granted ++ " cannot " ++ action)))

/-! ## Fields of a body -/

/-- A field of type `str`. -/
def strField (members : List (String × PyJson)) (name : String) : Option String :=
  match members.lookup name with
  | some (.leaf (.str s)) => some s
  | _ => none

/-- A field of type `Optional[str] = None`. -/
def optionalStrField (members : List (String × PyJson)) (name : String) :
    Option (Option String) :=
  match members.lookup name with
  | none => some none
  | some (.leaf .none) => some none
  | some (.leaf (.str s)) => some (some s)
  | _ => none

/-- A field of type `Dict[str, Any]` that may be absent. -/
def dictField (members : List (String × PyJson)) (name : String) :
    Option (List (String × PyJson)) :=
  match members.lookup name with
  | none => some []
  | some (.obj fields) => some fields
  | _ => none

/-- A field of type `Optional[Dict[str, Any]] = None`. -/
def optionalDictField (members : List (String × PyJson)) (name : String) : Option PyJson :=
  match members.lookup name with
  | none => some PyJson.none
  | some (.leaf .none) => some PyJson.none
  | some (.obj fields) => some (.obj fields)
  | _ => none

/-- The names of the fields without a value. -/
def faults (fields : List (String × Bool)) : List String :=
  (fields.filter fun f => !f.2).map Prod.fst

/-! ## `/v1/policy/check` -/

structure PolicyCheckRequest where
  policyId : String
  input : List (String × PyJson)
  runId : Option String

/-- The body, or the fields that are wrong. -/
def PolicyCheckRequest.validate (body : PyJson) : Except (List String) PolicyCheckRequest :=
  match body with
  | .obj members =>
      match strField members "policy_id", dictField members "input",
          optionalStrField members "run_id" with
      | some policyId, some input, some runId =>
          .ok { policyId := policyId, input := input, runId := runId }
      | policyId, input, runId => .error (faults
          [("policy_id", policyId.isSome), ("input", input.isSome), ("run_id", runId.isSome)])
  | _ => .error ["body"]

/-- `{**base, **raw}`. -/
def mergeMembers (base raw : RuleResult) : RuleResult :=
  base.map (fun m => (m.1, (raw.lookup m.1).getD m.2)) ++
    raw.filter fun m => (base.lookup m.1).isNone

/-- The `result` of the response: the raw result overrides what was computed from it. -/
def responseResult (decision : PolicyDecision) : RuleResult :=
  mergeMembers
    [(.str "allowed", Yaml.bool decision.allowed),
     (.str "requires_approval", Yaml.bool decision.requiresApproval),
     (.str "reason", Yaml.str decision.reason)]
    decision.raw

/-- The members of the response, or `none` where they cannot be encoded. -/
def policyCheckResponse (decision : PolicyDecision) : Option (List (String × PyJson)) :=
  jsonableMembers
    [(.str "policy_id", decision.policyId),
     (.str "policy_version", decision.policyVersion),
     (.str "policy_hash", decision.policyHash),
     (.str "result", .obj (responseResult decision))]

namespace App

variable (app : App)

/-- The endpoint `policy_check`. -/
def policyCheck (body : PyJson) : Response :=
  match requireScope app.scopes "policies" "read" with
  | some forbidden => forbidden
  | none =>
      match PolicyCheckRequest.validate body with
      | .error fields => .exception 422 (app.validationDetail fields)
      | .ok request =>
          match app.engine.evaluate app.text request.policyId request.input with
          | .error _ => .serverError
          | .ok decision =>
              match policyCheckResponse decision with
              | some members => .ok (.obj members)
              | none => .serverError

end App

/-! ## `/v1/approvals/request` -/

/-- The body, or the fields that are wrong. -/
def ApprovalBody.validate (body : PyJson) : Except (List String) ApprovalBody :=
  match body with
  | .obj members =>
      match optionalStrField members "approval_id", strField members "run_id",
          optionalStrField members "policy_id", optionalStrField members "requested_by",
          optionalStrField members "reason", optionalDictField members "input" with
      | some approvalId, some runId, some policyId, some requestedBy, some reason, some input =>
          .ok
            { approvalId := approvalId
              runId := some runId
              policyId := policyId
              requestedBy := requestedBy
              reason := reason
              input := input }
      | approvalId, runId, policyId, requestedBy, reason, input => .error (faults
          [("approval_id", approvalId.isSome), ("run_id", runId.isSome),
           ("policy_id", policyId.isSome), ("requested_by", requestedBy.isSome),
           ("reason", reason.isSome), ("input", input.isSome)])
  | _ => .error ["body"]

def approvalMembers (d : ApprovalDict) : List (String × PyJson) :=
  [("approval_id", PyJson.str d.approvalId),
   ("run_id", PyJson.str d.runId),
   ("status", PyJson.str d.status),
   ("policy_id", PyJson.optStr d.policyId),
   ("requested_by", PyJson.optStr d.requestedBy),
   ("reviewer_id", PyJson.optStr d.reviewerId),
   ("reason", PyJson.optStr d.reason),
   ("input", d.input),
   ("created_at", PyJson.optStr d.createdAt),
   ("decided_at", PyJson.optStr d.decidedAt)]

namespace App

variable (app : App)

/-- The endpoint `approvals_request`. -/
def approvalsRequest (body : PyJson) : Response :=
  match requireScope app.scopes "approvals" "review" with
  | some forbidden => forbidden
  | none =>
      match ApprovalBody.validate body with
      | .error fields => .exception 422 (app.validationDetail fields)
      | .ok request =>
          match requestApproval app.env app.moment app.db app.principal request with
          | .ok (_, d) => .ok (.obj (approvalMembers d))
          | .error _ => .serverError

/-- What a request of the client comes to; a body that JSON has no text for is not sent. -/
def answer (req : HttpRequest) : Exchange :=
  let body := req.jsonBody.getD PyJson.none
  if encodable body then
    .answered
      (if req.method = "POST" ∧ req.path = "/v1/policy/check" then app.policyCheck body
      else if req.method = "POST" ∧ req.path = "/v1/approvals/request" then
        app.approvalsRequest body
      else .exception 404 (PyJson.str "Not Found"))
  else .raised "ValueError"

end App
end Collector
end ControlDB
