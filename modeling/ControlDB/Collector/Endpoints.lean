import ControlDB.Collector.Auth
import ControlDB.Collector.Evidence

/-!
# The collector's endpoints

The handlers of `app.py` that work on the database, behind `current_principal` and `require_scope`.  Path,
query and body are taken as pydantic parsed them; what cannot be parsed is answered without a call of a
service.  An answer is what the handler returns, before FastAPI makes a JSON text of it.

The files of the object store belong to the state, since exports write them and downloads read them.
-/

namespace ControlDB
namespace Collector

open Library Python Http

/-! ## Requests -/

inductive Endpoint
  | runsStart (runId : Option String) (agentId : String) (agentVersion : Option String)
      (environment : String) (metadata : List (String × PyJson))
  | runsEvents (runId : String) (events : List EventInput)
  | runsCommit (runId : String)
  | runsRollback (runId : String) (reason : Option String)
  | runsGet (runId : String)
  | runsList (limit : Int)
  | runsTimeline (runId : String) (limit : Int) (cursor : Option Int)
  | runsReplay (runId : String)
  | runsVerify (runId : String)
  | approvalsRequest (body : ApprovalBody)
  | approvalsApprove (approvalId reviewerId : String) (reason : Option String)
  | approvalsReject (approvalId reviewerId : String) (reason : Option String)
  | approvalsPending
  | auditExport (runId : String) (generatedBy : Option String)
  | exportDownload (exportId : String)
  | queryEvents (body : QueryBody)

namespace Endpoint

/-- The arguments of `require_scope`. -/
def scope : Endpoint → String × String
  | runsStart .. => ("runs", "write")
  | runsEvents .. => ("events", "write")
  | runsCommit .. => ("runs", "write")
  | runsRollback .. => ("runs", "write")
  | runsGet .. => ("runs", "read")
  | runsList .. => ("runs", "read")
  | runsTimeline .. => ("events", "read")
  | runsReplay .. => ("events", "read")
  | runsVerify .. => ("events", "read")
  | approvalsRequest .. => ("approvals", "review")
  | approvalsApprove .. => ("approvals", "review")
  | approvalsReject .. => ("approvals", "review")
  | approvalsPending => ("approvals", "review")
  | auditExport .. => ("exports", "create")
  | exportDownload .. => ("exports", "create")
  | queryEvents .. => ("events", "read")

/-- The `ge` and `le` of the query parameters. -/
def inRange : Endpoint → Bool
  | runsList limit => decide (1 ≤ limit ∧ limit ≤ 500)
  | runsTimeline _ limit cursor =>
      decide (1 ≤ limit ∧ limit ≤ 5000) && cursor.all fun c => decide (0 ≤ c)
  | _ => true

/-- The call of a service, where the handler makes one. -/
def call : Endpoint → Option Call
  | runsStart runId agentId agentVersion environment metadata =>
      some (.startRun runId agentId agentVersion environment metadata)
  | runsEvents runId events => some (.appendEvents runId events)
  | runsCommit runId => some (.commitRun runId)
  | runsRollback runId reason => some (.rollbackRun runId reason)
  | runsTimeline runId limit cursor => some (.timeline runId limit cursor)
  | runsVerify runId => some (.verify runId)
  | approvalsRequest body => some (.request body)
  | approvalsApprove approvalId reviewerId reason =>
      some (.decide approvalId "approved" reviewerId reason)
  | approvalsReject approvalId reviewerId reason =>
      some (.decide approvalId "rejected" reviewerId reason)
  | approvalsPending => some .pending
  | auditExport runId generatedBy => some (.exportRun runId generatedBy)
  | queryEvents body => some (.query body)
  | runsGet .. | runsList .. | runsReplay .. | exportDownload .. => none

end Endpoint

/-- `parsed` tells whether pydantic takes the path, the query and the body. -/
structure Incoming where
  authorization : Option String
  moment : Moment
  endpoint : Endpoint
  parsed : Bool := true

/-! ## Answers -/

/-- `invalid` is a 422 whose detail lists what pydantic found. -/
inductive Reply
  | answer (a : Answer)
  | run (d : RunDict)
  | runs (ds : List RunDict)
  | replay (tl : Timeline) (v : Verification)
  | file (data : Bytes)
  | response (resp : Response)
  | invalid

def statusText (status : Nat) : String :=
  if status = 401 then "Unauthorized" else if status = 410 then "Gone" else reasonPhrase status

/-- An `HTTPException`, or an `IngestError` that reaches the handler of the application. -/
def httpException (status : Nat) (detail : String) : Reply :=
  .response
    { status := status
      statusText := statusText status
      content := .json (.obj [("detail", PyJson.str detail)]) }

/-- What the handler makes of an exception of a service.  `approvals_reject` has no clause for a
`PermissionError`. -/
def Endpoint.except (ep : Endpoint) : PyError → Reply
  | .ingest message status => httpException status message
  | .lookup message =>
      match ep with
      | .approvalsApprove .. | .approvalsReject .. | .auditExport .. => httpException 404 message
      | _ => .response .serverError
  | .permission message =>
      match ep with
      | .approvalsApprove .. => httpException 403 message
      | _ => .response .serverError
  | _ => .response .serverError

def Endpoint.reply {α : Type} (ep : Endpoint) (make : α → Reply) : Except PyError α → Reply
  | .ok a => make a
  | .error e => ep.except e

/-! ## Handlers -/

section Handlers

variable (env : Env) (opens : String → Bool)

/-- The statement of `runs_list`. -/
def listRuns (db : Database) (principal : Principal) (limit : Int) : List RunDict :=
  let rows := (db.agentRuns.entries.map Prod.snd).filter fun r =>
    decide (r.orgId = principal.orgId ∧ r.projectId = principal.projectId)
  ((rows.insertionSort fun a b => b.startedAt.le a.startedAt = true).take limit.toNat).map runToDict

/-- `runs_replay`, which reads the timeline and verifies it in two sessions. -/
def replayRun (db : Database) (principal : Principal) (runId : String) :
    Except PyError (Timeline × Verification) := do
  let tl ← timeline db principal runId 1000 none
  let v ← verify env db principal runId
  return (tl, v)

def downloadExport (st : EvidenceStore) (principal : Principal) (exportId : String) : Reply :=
  match st.db.evidenceExports.get exportId with
  | none => httpException 404 "export not found"
  | some row =>
      if row.orgId ≠ principal.orgId ∨ row.projectId ≠ principal.projectId then
        httpException 403 "forbidden"
      else
        match st.files.get row.bundleUri with
        | none => httpException 410 "bundle missing on disk"
        | some data => .file data

/-- The archive of an export cannot be written. -/
def Request.blocked (st : EvidenceStore) (r : Request) : Bool :=
  match r.call with
  | .exportRun runId generatedBy =>
      (prepareBundle env r.moment st.db r.principal runId generatedBy).toBool &&
        !opens (bundlePath env runId)
  | _ => false

def Endpoint.handle (ep : Endpoint) (m : Moment) (principal : Principal) (st : EvidenceStore) :
    EvidenceStore × Reply :=
  match ep.call with
  | some call =>
      let r : Request := ⟨m, principal, call⟩
      (r.archive env opens st,
        if r.blocked env opens st then .response .serverError
        else ep.reply (fun out => .answer out.2) (r.perform env st.db))
  | none =>
      (st,
        match ep with
        | .runsGet runId =>
            ep.reply (fun run => .run (runToDict run)) (authorizeRun st.db principal runId)
        | .runsList limit => .runs (listRuns st.db principal limit)
        | .runsReplay runId =>
            ep.reply (fun out => .replay out.1 out.2) (replayRun env st.db principal runId)
        | .exportDownload exportId => downloadExport st principal exportId
        | _ => .response .serverError)

end Handlers

/-! ## The server -/

structure Server where
  accounts : Accounts := {}
  store : EvidenceStore := {}

/-- FastAPI resolves the dependencies of a handler before it looks at its body. -/
def serve (env : Env) (opens : String → Bool) (sv : Server) (req : Incoming) : Server × Reply :=
  match currentPrincipal env.sha256 sv.accounts.apiKeys req.authorization with
  | .error detail => (sv, httpException 401 detail)
  | .ok key =>
      match requireScope key.scopes req.endpoint.scope.1 req.endpoint.scope.2 with
      | some forbidden => (sv, .response forbidden)
      | none =>
          if req.parsed && req.endpoint.inRange then
            let out := req.endpoint.handle env opens req.moment key.toPrincipal sv.store
            ({ sv with store := out.1 }, out.2)
          else (sv, .invalid)

/-- `edit` stands for writes to the tables of keys from outside: nothing in the collector sets
`revoked_at`. -/
inductive ServerStep
  | start (s : Settings)
  | edit (accounts : Accounts)
  | serve (req : Incoming)

def ServerStep.run (env : Env) (opens : String → Bool) (sv : Server) : ServerStep → Server
  | .start s => { sv with accounts := Collector.start env.sha256 sv.accounts s }
  | .edit accounts => { sv with accounts }
  | .serve req => (Collector.serve env opens sv req).1

def runServer (env : Env) (opens : String → Bool) (sv : Server) (steps : List ServerStep) : Server :=
  steps.foldl (ServerStep.run env opens) sv

/-! ## Who is let in -/

/-- Somebody presents the key of a row that is not revoked and has the scope of the endpoint. -/
structure Authorized (env : Env) (sv : Server) (req : Incoming) (row : ApiKey) : Prop where
  stored : row ∈ sv.accounts.apiKeys
  notRevoked : row.revokedAt = none
  presented : ∃ scheme token, req.authorization = some (scheme ++ " " ++ token) ∧
    scheme.toLower = "bearer" ∧ row.apiKeyHash = hashKey env.sha256 token
  granted : ∃ granted, row.scopes.lookup req.endpoint.scope.1 = some granted ∧
    granted ∈ ["write", req.endpoint.scope.2, "*"]

def ApiKey.tenant (row : ApiKey) : Principal :=
  row.principal.toPrincipal

theorem requireScope_eq_none_iff {scopes : List (String × String)} {resource action : String} :
    requireScope scopes resource action = none ↔
      ∃ granted, scopes.lookup resource = some granted ∧ granted ∈ ["write", action, "*"] := by
  unfold requireScope
  cases scopes.lookup resource with
  | none => simp
  | some granted =>
      dsimp only
      by_cases hgranted : granted = "write" ∨ granted = action ∨ granted = "*"
      · rw [if_pos hgranted]
        simpa using hgranted
      · -- `read` grants `read` in any case
        have hread : ¬ (granted = "read" ∧ action = "read") :=
          fun h => hgranted (.inr (.inl (h.1.trans h.2.symm)))
        rw [if_neg hgranted, if_neg hread]
        simpa using hgranted

/-- Keys that the collector made itself have the scope of every endpoint. -/
theorem requireScope_bootstrapScopes (ep : Endpoint) :
    requireScope bootstrapScopes ep.scope.1 ep.scope.2 = none := by
  refine requireScope_eq_none_iff.2 ?_
  cases ep <;> exact ⟨_, rfl, by simp [Endpoint.scope]⟩

section Serve

variable {env : Env} {opens : String → Bool} {sv : Server} {req : Incoming}

theorem authorized_of_ok {key : KeyPrincipal}
    (hkey : currentPrincipal env.sha256 sv.accounts.apiKeys req.authorization = .ok key)
    (hscope : requireScope key.scopes req.endpoint.scope.1 req.endpoint.scope.2 = none) :
    ∃ row, Authorized env sv req row ∧ key = row.principal := by
  rcases currentPrincipal_eq_ok_iff.1 hkey with
    ⟨scheme, token, row, hheader, hbearer, htoken, hfind, hrevoked, rfl⟩
  refine ⟨row, ?_, rfl⟩
  exact {
    stored := List.mem_of_find?_eq_some hfind
    notRevoked := hrevoked
    presented := ⟨scheme, token, hheader, hbearer, by simpa using List.find?_some hfind⟩
    granted := requireScope_eq_none_iff.1 hscope }

/-- A request leaves the server alone, or it is authorized and its call is made for the tenant of the
key. -/
theorem serve_cases (env : Env) (opens : String → Bool) (sv : Server) (req : Incoming) :
    (serve env opens sv req).1 = sv ∨
      ∃ row call, Authorized env sv req row ∧ req.endpoint.call = some call ∧
        (serve env opens sv req).1 =
          { sv with store := (⟨req.moment, row.tenant, call⟩ : Request).archive env opens sv.store } := by
  unfold serve
  cases hkey : currentPrincipal env.sha256 sv.accounts.apiKeys req.authorization with
  | error detail => exact .inl rfl
  | ok key =>
      dsimp only
      cases hscope : requireScope key.scopes req.endpoint.scope.1 req.endpoint.scope.2 with
      | some forbidden => exact .inl rfl
      | none =>
          dsimp only
          split_ifs with hparsed
          · rcases authorized_of_ok hkey hscope with ⟨row, hauthorized, rfl⟩
            unfold Endpoint.handle
            cases hcall : req.endpoint.call with
            | none => exact .inl rfl
            | some call => exact .inr ⟨row, call, hauthorized, rfl, rfl⟩
          · exact .inl rfl

end Serve

end Collector
end ControlDB
