import ControlDB.Library.Csv
import ControlDB.Collector.Services
import ControlDB.Python.DumpsText

/-!
# The files of an evidence bundle

What `export_run` writes into the archive: the dicts of `ingest.py` and `export.py` as JSON, the table
`events.csv` and the summary in Markdown, each as the text that `writestr` gets.
-/

namespace ControlDB
namespace Collector

open Library Python

/-! ## Dicts -/

/-- The result of `_run_to_dict`. -/
def RunDict.members (d : RunDict) : List (String × PyJson) :=
  [("run_id", .str d.runId),
    ("org_id", .str d.orgId),
    ("project_id", .str d.projectId),
    ("environment", .str d.environment),
    ("agent_id", .str d.agentId),
    ("agent_version", .optStr d.agentVersion),
    ("status", .str d.status),
    ("started_at", .str d.startedAt),
    ("ended_at", .optStr d.endedAt),
    ("event_count", .int d.eventCount),
    ("last_event_hash", .optStr d.lastEventHash),
    ("metadata", .obj d.metadata)]

/-- The result of `_event_to_dict`. -/
def EventDict.members (d : EventDict) : List (String × PyJson) :=
  [("event_id", .str d.eventId),
    ("sequence", .int d.sequence),
    ("run_id", .str d.runId),
    ("step_id", .optStr d.stepId),
    ("step_index", .optInt d.stepIndex),
    ("event_type", .str d.eventType),
    ("schema_version", .str d.schemaVersion),
    ("actor", .obj [("type", PyJson.optStr d.actorType), ("id", PyJson.optStr d.actorId)]),
    ("trace_id", .optStr d.traceId),
    ("span_id", .optStr d.spanId),
    ("parent_span_id", .optStr d.parentSpanId),
    ("payload_mode", .str d.payloadMode),
    ("payload", d.payload),
    ("payload_hash", .optStr d.payloadHash),
    ("previous_event_hash", .optStr d.previousEventHash),
    ("event_hash", .str d.eventHash),
    ("occurred_at", .str d.occurredAt),
    ("ingested_at", .str d.ingestedAt),
    ("idempotency_key", .optStr d.idempotencyKey)]

def ApprovalDict.members (d : ApprovalDict) : List (String × PyJson) :=
  [("approval_id", .str d.approvalId),
    ("run_id", .str d.runId),
    ("status", .str d.status),
    ("policy_id", .optStr d.policyId),
    ("requested_by", .optStr d.requestedBy),
    ("reviewer_id", .optStr d.reviewerId),
    ("reason", .optStr d.reason),
    ("input", d.input),
    ("created_at", .optStr d.createdAt),
    ("decided_at", .optStr d.decidedAt)]

def Manifest.members (d : Manifest) : List (String × PyJson) :=
  [("bundle_id", .str d.bundleId),
    ("run_id", .str d.runId),
    ("generated_at", .str d.generatedAt),
    ("generated_by", .optStr d.generatedBy),
    ("event_count", .int d.eventCount),
    ("hash_chain_valid", .bool d.hashChainValid),
    ("broken_at_event_id", .optStr d.brokenAtEventId),
    ("artifact_count", .int d.artifactCount),
    ("schema_version", .str d.schemaVersion)]

def StateDiff.members (d : StateDiff) : List (String × PyJson) :=
  [("event_id", .str d.eventId), ("step_id", .optStr d.stepId), ("payload", d.payload)]

/-! ## `events.csv` -/

/-- How a `csv.writer` writes a text; `None` is an empty cell. -/
def textCell (text : Option String) : Csv.Cell :=
  (text.getD "").toList

/-- How a `csv.writer` writes an `int`. -/
def intCell (n : Option Int) : Csv.Cell :=
  (n.map intText).getD []

def csvHeader : Csv.Row :=
  ["sequence", "event_id", "occurred_at", "event_type", "step_id", "step_index", "actor_type",
    "actor_id", "payload_mode", "payload_hash", "previous_event_hash", "event_hash"].map String.toList

def csvRow (e : EventDict) : Csv.Row :=
  [intCell (some e.sequence), textCell e.eventId, textCell e.occurredAt, textCell e.eventType,
    textCell e.stepId, intCell e.stepIndex, textCell e.actorType, textCell e.actorId,
    textCell e.payloadMode, textCell e.payloadHash, textCell e.previousEventHash, textCell e.eventHash]

/-- `_render_events_csv`. -/
def renderEventsCsv (events : List EventDict) : List Char :=
  Csv.text (csvHeader :: events.map csvRow)

/-! ## `run_summary.md` -/

/-- `str` of a text or `None`. -/
def orNone (text : Option String) : String :=
  text.getD "None"

def summaryEvent (e : EventDict) : String :=
  s!"- `{e.sequence}` `{e.occurredAt}` **{e.eventType}** step={orNone e.stepId}"

def summaryApproval (a : ApprovalDict) : String :=
  let reason := (truthy a.reason).getD ""
  s!"- `{a.approvalId}` — {a.status} by `{orNone a.reviewerId}` — {reason}"

/-- `_render_summary_markdown`. -/
def renderSummaryMarkdown (run : RunDict) (events : List EventDict) (approvals : List ApprovalDict)
    (valid : Bool) (brokenAtEventId : Option String) : List Char :=
  let version := (truthy run.agentVersion).getD "unversioned"
  let head :=
    [s!"# Evidence Bundle — Run {run.runId}", "", s!"- Agent: `{run.agentId}` (`{version}`)",
      s!"- Environment: `{run.environment}`", s!"- Status: `{run.status}`",
      s!"- Started: `{run.startedAt}`", s!"- Ended: `{orNone run.endedAt}`",
      s!"- Events: **{events.length}**",
      "- Hash chain valid: **" ++ (if valid then "True" else "False") ++ "**"]
  let broken :=
    match truthy brokenAtEventId with
    | some id => [s!"- Broken at event: `{id}`"]
    | none => []
  let decided := if approvals.isEmpty then ["- (none)"] else approvals.map summaryApproval
  let lines := head ++ broken ++ ["", "## Timeline"] ++ events.map summaryEvent ++
    ["", "## Approvals"] ++ decided
  (String.intercalate "\n" lines ++ "\n").toList

/-! ## The archive -/

def dictList {α : Type} (members : α → List (String × PyJson)) (items : List α) : PyJson :=
  .arr (items.map fun item => .obj (members item))

/-- `"\n".join(json.dumps(e) for e in events)`. -/
def jsonLines (events : List EventDict) : List Char :=
  ['\n'].intercalate (events.map fun e => dumpsDefault (.obj e.members))

/-- The names and texts that the archive is made of. -/
def Bundle.files (b : Bundle) : List (String × List Char) :=
  [("manifest.json", dumpsIndent 2 (.obj b.manifest.members)),
    ("run.json", dumpsIndent 2 (.obj b.run.members)),
    ("events.jsonl", jsonLines b.events),
    ("events.csv", renderEventsCsv b.events),
    ("state_diffs.json", dumpsIndent 2 (dictList StateDiff.members b.stateDiffs)),
    ("policy_checks.json", dumpsIndent 2 (dictList EventDict.members b.policyChecks)),
    ("approvals.json", dumpsIndent 2 (dictList ApprovalDict.members b.approvals)),
    ("run_summary.md", renderSummaryMarkdown b.run b.events b.approvals b.manifest.hashChainValid
      b.manifest.brokenAtEventId)]

end Collector
end ControlDB
