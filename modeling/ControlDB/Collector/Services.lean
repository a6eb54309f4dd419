import ControlDB.Collector.Ingest

/-!
# `ApprovalsService`, `QueryService` and `EvidenceService`

The other services over the database, from `approvals.py`, `query.py` and `export.py`, and what one
principal's call to any of the services does.
-/

namespace ControlDB
namespace Collector

open Library Python

/-! ## Approvals -/

/-- The body of an approval request; an absent `run_id` is the empty text. -/
structure ApprovalBody where
  approvalId : Option String := none
  runId : Option String := none
  policyId : Option String := none
  requestedBy : Option String := none
  reason : Option String := none
  input : PyJson := .none

/-- `_to_dict`, and `_approval_to_dict` of `export.py`. -/
def approvalToDict (row : Approval) : ApprovalDict :=
  { approvalId := row.approvalId
    runId := row.runId
    status := row.status
    policyId := row.policyId
    requestedBy := row.requestedBy
    reviewerId := row.reviewerId
    reason := row.reason
    input := row.inputJson
    createdAt := row.createdAt.map DateTime.isoformat
    decidedAt := row.decidedAt.map DateTime.isoformat }

/-- The answer to a new request is made before the flush that sets `created_at`. -/
def requestApproval (env : Env) (m : Moment) (db : Database) (principal : Principal)
    (body : ApprovalBody) : Except PyError (Database × ApprovalDict) :=
  let approvalId := (truthy body.approvalId).getD ("appr_" ++ m.ulid 0)
  match db.approvals.get approvalId with
  | some existing => .ok (db, approvalToDict existing)
  | none =>
      let row : Approval :=
        { approvalId := approvalId
          runId := body.runId.getD ""
          orgId := principal.orgId
          projectId := principal.projectId
          policyId := body.policyId
          requestedBy := body.requestedBy
          reason := body.reason
          inputJson := body.input
          createdAt := none }
      let stored := { row with createdAt := some (env.storeDatetime (m.now 0)) }
      .ok ({ db with approvals := db.approvals.put approvalId stored }, approvalToDict row)

def decideApproval (env : Env) (m : Moment) (db : Database) (principal : Principal)
    (approvalId decision reviewerId : String) (reason : Option String) :
    Except PyError (Database × ApprovalDict) :=
  if decision ∉ ["approved", "rejected", "expired", "overridden"] then
    .error (.value ("invalid decision: " ++ decision))
  else
    match db.approvals.get approvalId with
    | none => .error (.lookup "approval not found")
    | some row =>
        if row.orgId ≠ principal.orgId ∨ row.projectId ≠ principal.projectId then
          .error (.permission "forbidden")
        else
          let row' := { row with
            status := decision
            reviewerId := some reviewerId
            decidedAt := some (m.now 0)
            reason := (truthy reason).orElse fun _ => row.reason }
          let stored := { row' with decidedAt := some (env.storeDatetime (m.now 0)) }
          .ok ({ db with approvals := db.approvals.put approvalId stored }, approvalToDict row')

/-- `ORDER BY created_at`. -/
def byCreatedAt (rows : List Approval) : List Approval :=
  rows.insertionSort fun a b =>
    (a.createdAt.all fun s => b.createdAt.all fun t => s.le t) = true

def pending (db : Database) (principal : Principal) : List ApprovalDict :=
  let rows := (db.approvals.entries.map Prod.snd).filter fun a =>
    decide (a.orgId = principal.orgId ∧ a.projectId = principal.projectId ∧
      a.status = "requested")
  (byCreatedAt rows).map approvalToDict

/-! ## Queries -/

structure QueryBody where
  eventTypes : List String := []
  runId : Option String := none
  limit : Int := 200
  cursor : Option Int := none

structure QueryResult where
  events : List EventDict
  nextCursor : Option Nat

def query (db : Database) (principal : Principal) (body : QueryBody) : QueryResult :=
  let selected := (bySequence db.auditEvents).filter fun e =>
    decide (e.orgId = principal.orgId ∧ e.projectId = principal.projectId) &&
      (body.eventTypes.isEmpty || decide (e.eventType ∈ body.eventTypes)) &&
      (truthy body.runId).all fun runId => decide (e.runId = runId)
  let rows := limitTo (min (max body.limit 1) 1000) (afterCursor body.cursor selected)
  { events := rows.map eventToDict, nextCursor := nextCursor body.limit rows }

/-! ## Evidence -/

structure ExportResult where
  exportId : String
  bundleUri : String
  bundleHash : String
  eventCount : Nat
  hashChainValid : Bool

def startsWith (head text : String) : Bool :=
  head.toList.isPrefixOf text.toList

/-- The bundle of a run, from what the first session and `verify` returned. -/
def makeBundle (m : Moment) (exportId : String) (generatedBy : Option String) (run : AgentRun)
    (events : List AuditEvent) (approvals : List Approval) (verification : Verification) :
    Bundle :=
  let events := events.map eventToDict
  { manifest :=
      { bundleId := exportId
        runId := run.runId
        generatedAt := (m.now 0).isoformat
        generatedBy := generatedBy
        eventCount := events.length
        hashChainValid := verification.valid
        brokenAtEventId := verification.brokenAtEventId
        artifactCount := events.countP fun e => decide (e.eventType = "evidence.artifact.created")
        schemaVersion := schemaVersion }
    run := runToDict run
    events := events
    stateDiffs := (events.filter fun e => startsWith "state." e.eventType).map fun e =>
      { eventId := e.eventId, stepId := e.stepId, payload := e.payload }
    policyChecks := events.filter fun e => startsWith "policy." e.eventType
    approvals := approvals.map approvalToDict }

/-- The event that records an export. -/
def exportEvent (m : Moment) (res : ExportResult) : EventInput :=
  { eventId := some ("evt_" ++ m.ulid 1)
    eventType := "evidence.export.completed"
    schemaVersion := some schemaVersion
    payload := .obj [
      ("export_id", PyJson.str res.exportId),
      ("bundle_uri", PyJson.str res.bundleUri),
      ("bundle_hash", PyJson.str res.bundleHash),
      ("event_count", PyJson.int res.eventCount),
      ("hash_chain_valid", PyJson.bool res.hashChainValid)] }

/-- The readings that are left after the first `n`. -/
def Moment.later (m : Moment) (n : Nat) : Moment :=
  { m with now := fun i => m.now (i + n), ulid := fun i => m.ulid (i + n) }

/-- `select(Approval).where(run_id == run_id)`. -/
def runApprovals (db : Database) (runId : String) : List Approval :=
  (db.approvals.entries.map Prod.snd).filter fun a => decide (a.runId = runId)

def exportResult (env : Env) (m : Moment) (runId : String) (bundle : Bundle) : ExportResult :=
  { exportId := bundle.manifest.bundleId
    bundleUri := env.objectStoreDir ++ "/evidence_bundle_" ++ runId ++ ".zip"
    bundleHash := Python.sha256Hex env.sha256 (m.zip bundle)
    eventCount := bundle.events.length
    hashChainValid := bundle.manifest.hashChainValid }

def exportRow (env : Env) (m : Moment) (principal : Principal) (runId : String)
    (generatedBy : Option String) (res : ExportResult) : EvidenceExport :=
  { exportId := res.exportId
    runId := runId
    orgId := principal.orgId
    projectId := principal.projectId
    bundleUri := res.bundleUri
    bundleHash := res.bundleHash
    eventCount := res.eventCount
    hashChainValid := res.hashChainValid
    generatedBy := generatedBy
    generatedAt := env.storeDatetime (m.now 1) }

/-- The last session records the export as an event; its failure is ignored. -/
def recordExport (env : Env) (m : Moment) (db : Database) (principal : Principal) (runId : String)
    (res : ExportResult) : Database :=
  match appendEvents env (m.later 2) db principal runId [exportEvent m res] with
  | .ok (db', _) => db'
  | .error _ => db

def exportRun (env : Env) (m : Moment) (db : Database) (principal : Principal) (runId : String)
    (generatedBy : Option String) : Except PyError (Database × ExportResult × Bundle) :=
  match db.agentRuns.get runId with
  | none => .error (.lookup "run not found")
  | some run =>
      if run.orgId ≠ principal.orgId ∨ run.projectId ≠ principal.projectId then
        .error (.lookup "run not found")
      else
        match verify env db principal runId with
        | .error e => .error e
        | .ok verification =>
            let bundle := makeBundle m ("exp_" ++ m.ulid 0) generatedBy run (runEvents db runId)
              (runApprovals db runId) verification
            let res := exportResult env m runId bundle
            if (db.evidenceExports.get res.exportId).isSome then .error .integrity
            else
              let row := exportRow env m principal runId generatedBy res
              let db' := { db with
                evidenceExports := db.evidenceExports.put res.exportId row }
              .ok (recordExport env m db' principal runId res, res, bundle)

/-! ## Calls -/

inductive Call
  | startRun (runId : Option String) (agentId : String) (agentVersion : Option String)
      (environment : String) (metadata : List (String × PyJson))
  | appendEvents (runId : String) (events : List EventInput)
  | commitRun (runId : String)
  | rollbackRun (runId : String) (reason : Option String)
  | timeline (runId : String) (limit : Int) (cursor : Option Int)
  | verify (runId : String)
  | request (body : ApprovalBody)
  | decide (approvalId decision reviewerId : String) (reason : Option String)
  | pending
  | query (body : QueryBody)
  | exportRun (runId : String) (generatedBy : Option String)

/-- What a call returns; an export also writes its bundle. -/
inductive Answer
  | run (started : StartedRun)
  | eventIds (ids : List String)
  | timeline (tl : Timeline)
  | verification (v : Verification)
  | approval (a : ApprovalDict)
  | approvals (as : List ApprovalDict)
  | query (q : QueryResult)
  | export (res : ExportResult) (bundle : Bundle)

/-- A call, who makes it, and what it finds around it. -/
structure Request where
  moment : Moment
  principal : Principal
  call : Call

def Request.perform (env : Env) (db : Database) (r : Request) :
    Except PyError (Database × Answer) :=
  match r.call with
  | .startRun runId agentId agentVersion environment metadata =>
      (startRun env r.moment db r.principal runId agentId agentVersion environment metadata).map
        fun out => (out.1, .run out.2)
  | .appendEvents runId events =>
      (appendEvents env r.moment db r.principal runId events).map
        fun out => (out.1, .eventIds out.2)
  | .commitRun runId =>
      (commitRun env r.moment db r.principal runId).map fun out => (out.1, .run out.2)
  | .rollbackRun runId reason =>
      (rollbackRun env r.moment db r.principal runId reason).map fun out => (out.1, .run out.2)
  | .timeline runId limit cursor =>
      (timeline db r.principal runId limit cursor).map fun tl => (db, .timeline tl)
  | .verify runId => (verify env db r.principal runId).map fun v => (db, .verification v)
  | .request body =>
      (requestApproval env r.moment db r.principal body).map fun out => (out.1, .approval out.2)
  | .decide approvalId decision reviewerId reason =>
      (decideApproval env r.moment db r.principal approvalId decision reviewerId reason).map
        fun out => (out.1, .approval out.2)
  | .pending => .ok (db, .approvals (pending db r.principal))
  | .query body => .ok (db, .query (query db r.principal body))
  | .exportRun runId generatedBy =>
      (exportRun env r.moment db r.principal runId generatedBy).map
        fun out => (out.1, .export out.2.1 out.2.2)

/-- A call that returns has a result of the service that it wraps. -/
theorem exists_of_map_eq_ok {α β : Type} {x : Except PyError α} {f : α → β} {b : β}
    (h : x.map f = .ok b) : ∃ a, x = .ok a ∧ f a = b := by
  cases x with
  | error e => cases h
  | ok a => exact ⟨a, rfl, Except.ok.inj h⟩

/-- The database after a request; one that raises leaves it alone. -/
def Request.run (env : Env) (db : Database) (r : Request) : Database :=
  match r.perform env db with
  | .ok (db', _) => db'
  | .error _ => db

/-- The database after a sequence of requests. -/
def runRequests (env : Env) (db : Database) (requests : List Request) : Database :=
  requests.foldl (Request.run env) db

@[simp] theorem runRequests_nil (env : Env) (db : Database) : runRequests env db [] = db := rfl

theorem runRequests_concat (env : Env) (db : Database) (requests : List Request) (r : Request) :
    runRequests env db (requests ++ [r]) = r.run env (runRequests env db requests) := by
  simp [runRequests]

/-! ## A concrete environment -/

/-- The digests of the listed envelopes; SQLite, which takes texts and `NULL` and drops the offset
of a datetime; a service without redaction rules.  No datetime text is read. -/
def sqliteEnv (digests : List (Envelope × Vector UInt8 32)) : Env where
  sha256 data :=
    match digests.find? fun d => decide (canonicalJson (.obj d.1.members) = some data) with
    | some d => d.2
    | none => Vector.replicate 32 0
  bindString
    | .leaf .none => some none
    | .leaf (.str s) => some (some s)
    | _ => none
  storeDatetime := DateTime.naive
  fromisoformat _ := none
  redact value := value
  objectStoreDir := "./controldb_artifacts"

namespace CollectorExample

theorem noon_inRange : 2026 < 10000 ∧ 5 < 100 ∧ 13 < 100 ∧ 12 < 100 ∧ 0 < 100 ∧ 0 < 100 ∧
    0 < 1000000 ∧ ∀ o ∈ (some 0 : Option Int), o.natAbs < 86400000000 := by
  decide

def noon : DateTime := ⟨2026, 5, 13, 12, 0, 0, 0, some 0, noon_inRange⟩

/-- The clock stands still, and the generated ids are counted. -/
def moment : Moment where
  now _ := noon
  ulid i := String.ofList (Nat.toDigits 10 i)
  skipped _ := 0
  zip _ := []

def owner : Principal := ⟨"org_default", "proj_default"⟩

/-- What is hashed for an event of `run_1` that only has an id, a type and a key. -/
def envelope (eventId : String) (key previousHash : Option String) : Envelope :=
  { eventId := eventId
    schemaVersion := "2026-05-01"
    eventType := "memory.write"
    orgId := "org_default"
    projectId := "proj_default"
    environment := "dev"
    agentId := "repeat-agent"
    agentVersion := none
    runId := "run_1"
    stepId := none
    stepIndex := none
    traceId := none
    spanId := none
    parentSpanId := none
    actor := [("type", .str "agent"), ("id", .str "repeat-agent")]
    payloadMode := "metadata_only"
    payload := PyJson.none
    payloadHash := none
    previousEventHash := previousHash
    occurredAt := "2026-05-13T12:00:00+00:00"
    ingestedAt := "2026-05-13T12:00:00+00:00"
    idempotencyKey := key }

def event (eventId : String) (key : Option String) : EventInput :=
  { eventId := some eventId, eventType := "memory.write", idempotencyKey := key }

def hashA : String := "sha256:e68a6640e95a4dac5ee01ba2fedee319b3c08b6aef199d04bc15cc2a88ceb4c9"

def hashB : String := "sha256:780b034fa21c0957faec42f106cfb117fcf5ce42b24c70e3c14e3dcd81d956a9"

def hashC : String := "sha256:67517fb4e726a1b4b1bad55158ce7e5853cfa349b2a995224d24ed965f566fc7"

def env : Env :=
  sqliteEnv [
    (envelope "evt_a" (some "idem_a") none,
      #v[230, 138, 102, 64, 233, 90, 77, 172, 94, 224, 27, 162, 254, 222, 227, 25,
        179, 192, 139, 106, 239, 25, 157, 4, 188, 21, 204, 42, 136, 206, 180, 201]),
    (envelope "evt_b" (some "idem_b") (some hashA),
      #v[120, 11, 3, 79, 162, 28, 9, 87, 250, 236, 66, 241, 6, 207, 177, 23,
        252, 245, 206, 66, 178, 76, 112, 227, 193, 78, 61, 205, 129, 217, 86, 169]),
    (envelope "evt_b" (some "idem_b") none,
      #v[125, 247, 80, 220, 47, 25, 250, 243, 125, 199, 159, 4, 140, 158, 236, 88,
        157, 117, 23, 181, 205, 81, 77, 15, 52, 20, 128, 217, 153, 99, 168, 251]),
    (envelope "evt_c" none (some hashB),
      #v[246, 47, 128, 178, 83, 165, 228, 16, 2, 126, 247, 77, 72, 152, 205, 78,
        77, 221, 2, 200, 25, 200, 174, 76, 244, 60, 116, 204, 9, 45, 87, 154]),
    (envelope "evt_c" none (some hashA),
      #v[103, 81, 127, 180, 231, 38, 161, 180, 177, 186, 213, 81, 88, 206, 126, 88,
        83, 207, 163, 73, 178, 169, 149, 34, 77, 36, 237, 150, 95, 86, 111, 199]),
    (envelope "evt_a" none (some hashC),
      #v[69, 15, 51, 148, 225, 18, 154, 1, 102, 111, 40, 104, 181, 24, 197, 221,
        119, 3, 70, 127, 90, 175, 97, 157, 96, 234, 199, 53, 13, 79, 99, 82])]

def request (call : Call) : Request := ⟨moment, owner, call⟩

def start : Request := request (.startRun (some "run_1") "repeat-agent" none "dev" [])

def append (events : List EventInput) : Request := request (.appendEvents "run_1" events)

end CollectorExample

end Collector
end ControlDB
