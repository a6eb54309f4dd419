import ControlDB.Library.SortedMap
import ControlDB.Python.CanonicalJson
import ControlDB.Python.DateTime

/-!
# The collector's database

The rows of `storage/models.py` and the tables they stand in.  Runs and approvals are found by
their primary key; the events are listed in the order their transactions committed.  An absent text
is `none`.

`Env` holds what the services get from outside the repository, `Moment` what one call gets from its
surroundings: readings of the clock, the random part of generated ids, the bytes of a zip file, and
how many numbers of the `sequence` column transactions had used up without storing a row.
-/

namespace ControlDB
namespace Collector

open Library Python

/-! ## Rows -/

structure AgentRun where
  runId : String
  orgId : String
  projectId : String
  environment : String
  agentId : String
  agentVersion : Option String
  status : String := "running"
  metadataJson : List (String × PyJson) := []
  startedAt : DateTime
  endedAt : Option DateTime := none
  lastEventHash : Option String := none
  eventCount : Nat := 0

structure AuditEvent where
  sequence : Nat
  eventId : String
  orgId : String
  projectId : String
  environment : String
  runId : String
  stepId : Option String
  stepIndex : Option Int
  eventType : String
  schemaVersion : String
  actorType : Option String
  actorId : Option String
  traceId : Option String
  spanId : Option String
  parentSpanId : Option String
  payloadMode : String
  payload : PyJson
  payloadHash : Option String
  previousEventHash : Option String
  eventHash : String
  occurredAt : DateTime
  ingestedAt : DateTime
  idempotencyKey : Option String

structure Approval where
  approvalId : String
  runId : String
  orgId : String
  projectId : String
  policyId : Option String
  requestedBy : Option String
  reviewerId : Option String := none
  status : String := "requested"
  reason : Option String
  inputJson : PyJson
  createdAt : Option DateTime
  decidedAt : Option DateTime := none

structure EvidenceExport where
  exportId : String
  runId : String
  orgId : String
  projectId : String
  bundleUri : String
  bundleHash : String
  eventCount : Nat
  hashChainValid : Bool
  generatedBy : Option String
  generatedAt : DateTime

/-! ## Tables -/

structure Database where
  agentRuns : SortedMap String AgentRun := .empty
  auditEvents : List AuditEvent := []
  approvals : SortedMap String Approval := .empty
  evidenceExports : SortedMap String EvidenceExport := .empty

/-- `ORDER BY sequence`. -/
def bySequence (rows : List AuditEvent) : List AuditEvent :=
  rows.insertionSort fun a b => a.sequence ≤ b.sequence

/-- `select(AuditEvent).where(run_id == run_id).order_by(sequence)`. -/
def runEvents (db : Database) (runId : String) : List AuditEvent :=
  bySequence (db.auditEvents.filter fun e => decide (e.runId = runId))

/-! ## Answers -/

structure Verification where
  runId : String
  valid : Bool
  eventCount : Nat
  brokenAtEventId : Option String
  deriving DecidableEq

structure RunDict where
  runId : String
  orgId : String
  projectId : String
  environment : String
  agentId : String
  agentVersion : Option String
  status : String
  startedAt : String
  endedAt : Option String
  eventCount : Nat
  lastEventHash : Option String
  metadata : List (String × PyJson)

structure EventDict where
  eventId : String
  sequence : Nat
  runId : String
  stepId : Option String
  stepIndex : Option Int
  eventType : String
  schemaVersion : String
  actorType : Option String
  actorId : Option String
  traceId : Option String
  spanId : Option String
  parentSpanId : Option String
  payloadMode : String
  payload : PyJson
  payloadHash : Option String
  previousEventHash : Option String
  eventHash : String
  occurredAt : String
  ingestedAt : String
  idempotencyKey : Option String

structure ApprovalDict where
  approvalId : String
  runId : String
  status : String
  policyId : Option String
  requestedBy : Option String
  reviewerId : Option String
  reason : Option String
  input : PyJson
  createdAt : Option String
  decidedAt : Option String

structure Manifest where
  bundleId : String
  runId : String
  generatedAt : String
  generatedBy : Option String
  eventCount : Nat
  hashChainValid : Bool
  brokenAtEventId : Option String
  artifactCount : Nat
  schemaVersion : String

structure StateDiff where
  eventId : String
  stepId : Option String
  payload : PyJson

/-- What an evidence bundle is made of.  `events.csv` and `run_summary.md` are renderings of `events`,
`run`, `approvals` and the verification. -/
structure Bundle where
  manifest : Manifest
  run : RunDict
  events : List EventDict
  stateDiffs : List StateDiff
  policyChecks : List EventDict
  approvals : List ApprovalDict

/-! ## Surroundings -/

structure Principal where
  orgId : String
  projectId : String
  deriving DecidableEq

/-- OpenSSL's digest; SQLAlchemy with its driver (`bindString` is what a value bound to a `String`
column is stored as, `none` where the driver raises; `storeDatetime` is what is read back for a
stored datetime); `datetime.fromisoformat`; `apply_collector_redaction` under the rules the service
was built with; the path of the object store. -/
structure Env where
  sha256 : Sha256
  bindString : PyJson → Option (Option String)
  storeDatetime : DateTime → DateTime
  fromisoformat : String → Option DateTime
  redact : PyJson → PyJson
  objectStoreDir : String

/-- `zip` gives the bytes of the archive that is written. -/
structure Moment where
  now : Nat → DateTime
  ulid : Nat → String
  skipped : Nat → Nat
  zip : Bundle → Bytes

/-- `SETTINGS.schema_version`. -/
def schemaVersion : String := "2026-05-01"

/-- What the services raise.  `integrity` is SQLAlchemy's `IntegrityError`; `other` is an exception
of the standard library or of the driver that no service names. -/
inductive PyError
  | ingest (message : String) (statusCode : Nat)
  | value (message : String)
  | lookup (message : String)
  | permission (message : String)
  | integrity
  | other
  deriving DecidableEq

/-- A text that counts as true: present and not empty. -/
def truthy : Option String → Option String
  | some s => if s = "" then none else some s
  | none => none

end Collector
end ControlDB
