import ControlDB.Collector.Archive
import ControlDB.Collector.Envelope
import ControlDB.Library.LinkedChain

/-!
# Checking a bundle without the database

An auditor has the files of a bundle and nothing else: `Dossier` is what the JSON files and the table
are read as, and `audit` rebuilds the envelope of every event from `run.json` and `events.jsonl` and
checks the chain.  For every database that requests lead to, the files of an export are read as they were
made, and the auditor comes to the verdict of `verify`.
-/

namespace ControlDB
namespace Collector

open Library Python

/-! ## Reading the files -/

/-- What the files of an archive are read as, the summary apart. -/
structure Dossier where
  manifest : PyJson
  run : PyJson
  events : List PyJson
  table : List Csv.Row
  stateDiffs : PyJson
  policyChecks : PyJson
  approvals : PyJson

section Reading

variable (readFloat : List Char → Option FloatRepr)

/-- One value on each line, if there are any. -/
def readLines (text : List Char) : Option (List PyJson) :=
  if text = [] then some [] else (text.splitOn '\n').mapM (loads readFloat)

def Dossier.read (files : List (String × List Char)) : Option Dossier := do
  return {
    manifest := ← (files.lookup "manifest.json").bind (loads readFloat)
    run := ← (files.lookup "run.json").bind (loads readFloat)
    events := ← (files.lookup "events.jsonl").bind (readLines readFloat)
    table := Csv.read (← files.lookup "events.csv")
    stateDiffs := ← (files.lookup "state_diffs.json").bind (loads readFloat)
    policyChecks := ← (files.lookup "policy_checks.json").bind (loads readFloat)
    approvals := ← (files.lookup "approvals.json").bind (loads readFloat) }

end Reading

/-- What the files of a bundle were made of. -/
def Bundle.dossier (b : Bundle) : Dossier where
  manifest := .obj b.manifest.members
  run := .obj b.run.members
  events := b.events.map fun e => .obj e.members
  table := csvHeader :: b.events.map csvRow
  stateDiffs := dictList StateDiff.members b.stateDiffs
  policyChecks := dictList EventDict.members b.policyChecks
  approvals := dictList ApprovalDict.members b.approvals

/-! ## What was written is read -/

section Written

variable {readFloat : List Char → Option FloatRepr}

theorem RunDict.isJson {d : RunDict} (h : IsJson readFloat (.obj d.metadata)) :
    IsJson readFloat (.obj d.members) := by
  refine isJson_obj_iff.2 ⟨?_, ?_⟩
  · simp [RunDict.members]
  · simp [RunDict.members, h]

theorem EventDict.isJson {d : EventDict} (h : IsJson readFloat d.payload) :
    IsJson readFloat (.obj d.members) := by
  have hactor : IsJson readFloat
      (.obj [("type", PyJson.optStr d.actorType), ("id", PyJson.optStr d.actorId)]) :=
    isJson_obj_iff.2 ⟨by simp, by simp⟩
  refine isJson_obj_iff.2 ⟨?_, ?_⟩
  · simp [EventDict.members]
  · simp [EventDict.members, h, hactor]

theorem ApprovalDict.isJson {d : ApprovalDict} (h : IsJson readFloat d.input) :
    IsJson readFloat (.obj d.members) := by
  refine isJson_obj_iff.2 ⟨?_, ?_⟩
  · simp [ApprovalDict.members]
  · simp [ApprovalDict.members, h]

theorem Manifest.isJson (d : Manifest) : IsJson readFloat (.obj d.members) := by
  refine isJson_obj_iff.2 ⟨?_, ?_⟩
  · simp [Manifest.members]
  · simp [Manifest.members]

theorem StateDiff.isJson {d : StateDiff} (h : IsJson readFloat d.payload) :
    IsJson readFloat (.obj d.members) := by
  refine isJson_obj_iff.2 ⟨?_, ?_⟩
  · simp [StateDiff.members]
  · simp [StateDiff.members, h]

theorem isJson_dictList {α : Type} {members : α → List (String × PyJson)} {items : List α}
    (h : ∀ a ∈ items, IsJson readFloat (.obj (members a))) :
    IsJson readFloat (dictList members items) :=
  isJson_arr_iff.2 (List.forall_mem_map.2 h)

theorem mapM_loads {values : List PyJson} (hrepr : ReprReads readFloat)
    (h : ∀ v ∈ values, IsJson readFloat v) :
    (values.map dumpsDefault).mapM (loads readFloat) = some values := by
  induction values with
  | nil => rfl
  | cons v values ih =>
      rw [List.map_cons, List.mapM_cons, loads_dumpsDefault hrepr (h v List.mem_cons_self),
        ih fun w hw => h w (List.mem_cons_of_mem _ hw)]
      rfl

theorem newline_not_mem_dumpsDefault (v : PyJson) : '\n' ∉ dumpsDefault v := by
  intro hmem
  have hprint : ¬ IsPrint '\n' := by decide
  exact hprint (isPrint_dumpsDefault v _ hmem)

/-- No line of `events.jsonl` is cut in two. -/
theorem readLines_jsonLines (hrepr : ReprReads readFloat) {events : List EventDict}
    (h : ∀ e ∈ events, IsJson readFloat e.payload) :
    readLines readFloat (jsonLines events) = some (events.map fun e => .obj e.members) := by
  have hlines : jsonLines events =
      ['\n'].intercalate ((events.map fun e => JsonTree.obj e.members).map dumpsDefault) := by
    rw [jsonLines, List.map_map]
    rfl
  cases events with
  | nil => rfl
  | cons e events =>
      have hjson : ∀ v ∈ (e :: events).map fun e => JsonTree.obj e.members, IsJson readFloat v :=
        List.forall_mem_map.2 fun e he => EventDict.isJson (h e he)
      have hfree : ∀ line ∈ ((e :: events).map fun e => JsonTree.obj e.members).map dumpsDefault,
          '\n' ∉ line :=
        List.forall_mem_map.2 fun v _ => newline_not_mem_dumpsDefault v
      have hsplit := List.splitOn_intercalate '\n' hfree (by simp)
      have hne : jsonLines (e :: events) ≠ [] := by
        intro hnil
        rw [← hlines, hnil, List.splitOn_nil] at hsplit
        -- an empty text would be one line, but no line is empty
        have hhead := congrArg List.head? hsplit
        simp [dumpsDefault, JsonTree.lay] at hhead
      rw [readLines, if_neg hne, hlines, hsplit, mapM_loads hrepr hjson]

/-- The JSON values that the columns of a bundle hold. -/
structure Bundle.HoldsJson (readFloat : List Char → Option FloatRepr) (b : Bundle) : Prop where
  metadata : IsJson readFloat (.obj b.run.metadata)
  events : ∀ e ∈ b.events, IsJson readFloat e.payload
  stateDiffs : ∀ d ∈ b.stateDiffs, IsJson readFloat d.payload
  policyChecks : ∀ e ∈ b.policyChecks, IsJson readFloat e.payload
  approvals : ∀ a ∈ b.approvals, IsJson readFloat a.input

theorem Bundle.read_files (hrepr : ReprReads readFloat) {b : Bundle} (h : b.HoldsJson readFloat) :
    Dossier.read readFloat b.files = some b.dossier := by
  have hmanifest := loads_dumpsIndent hrepr 2 b.manifest.isJson
  have hrun := loads_dumpsIndent hrepr 2 (RunDict.isJson h.metadata)
  have hevents := readLines_jsonLines hrepr h.events
  have htable : Csv.read (renderEventsCsv b.events) = csvHeader :: b.events.map csvRow :=
    Csv.read_text _
  have hdiffs := loads_dumpsIndent hrepr 2
    (isJson_dictList fun d hd => StateDiff.isJson (h.stateDiffs d hd))
  have hchecks := loads_dumpsIndent hrepr 2
    (isJson_dictList fun e he => EventDict.isJson (h.policyChecks e he))
  have happrovals := loads_dumpsIndent hrepr 2
    (isJson_dictList fun a ha => ApprovalDict.isJson (h.approvals a ha))
  simp [Dossier.read, Bundle.files, List.lookup_cons, hmanifest, hrun, hevents, htable, hdiffs, hchecks,
    happrovals, Bundle.dossier]

end Written

/-! ## The audit -/

/-- A member of a `dict`. -/
def field (value : PyJson) (key : String) : PyJson :=
  match value with
  | .obj members => PyJson.get members key
  | _ => .none

def textOf : PyJson → Option String
  | .leaf (.str s) => some s
  | _ => none

/-- The envelope of an event: what `events.jsonl` leaves out of it stands in `run.json`. -/
def auditEnvelope (run event : PyJson) : List (String × PyJson) :=
  let ofRun := fun key => (key, field run key)
  let ofEvent := fun key => (key, field event key)
  [ofEvent "event_id", ofEvent "schema_version", ofEvent "event_type", ofRun "org_id",
    ofRun "project_id", ofRun "environment", ofRun "agent_id", ofRun "agent_version",
    ofEvent "run_id", ofEvent "step_id", ofEvent "step_index", ofEvent "trace_id", ofEvent "span_id",
    ofEvent "parent_span_id", ofEvent "actor", ofEvent "payload_mode", ofEvent "payload",
    ofEvent "payload_hash", ofEvent "previous_event_hash", ofEvent "occurred_at",
    ofEvent "ingested_at", ofEvent "idempotency_key"]

section Audit

variable (sha256 : Sha256)

def idOf (event : PyJson) : String :=
  (textOf (field event "event_id")).getD ""

/-- The id of the first event that breaks the chain, if any; `none` where an envelope cannot be
hashed. -/
def auditLoop (run : PyJson) : Option String → List PyJson → Option (Option String)
  | _, [] => some none
  | previous, event :: rest =>
      if textOf (field event "previous_event_hash") ≠ previous then
        some (some (idOf event))
      else
        match Python.computeEventHash sha256 (auditEnvelope run event) with
        | none => none
        | some expected =>
            if some expected ≠ textOf (field event "event_hash") then
              some (some (idOf event))
            else auditLoop run (some expected) rest

def audit (d : Dossier) : Option Verification :=
  (auditLoop sha256 d.run none d.events).map fun brokenAt =>
    { runId := (textOf (field d.run "run_id")).getD ""
      valid := brokenAt.isNone
      eventCount := d.events.length
      brokenAtEventId := brokenAt }

end Audit

/-- The tenant and the environment of an event are those of the run. -/
def AtHome (run : AgentRun) (e : AuditEvent) : Prop :=
  e.orgId = run.orgId ∧ e.projectId = run.projectId ∧ e.environment = run.environment

@[simp] theorem textOf_str (s : String) : textOf (PyJson.str s) = some s := rfl

@[simp] theorem textOf_optStr (s : Option String) : textOf (PyJson.optStr s) = s := by
  cases s <;> rfl

/-- For an event at home the auditor rebuilds the envelope that `verify` rebuilds. -/
theorem auditEnvelope_eq {run : AgentRun} {e : AuditEvent} (h : AtHome run e) :
    auditEnvelope (.obj (runToDict run).members) (.obj (eventToDict e).members) =
      (rowEnvelope run e).members := by
  rcases h with ⟨horg, hproject, henvironment⟩
  simp only [auditEnvelope, rowEnvelope, Envelope.members, horg, hproject, henvironment]
  rfl

theorem auditLoop_eq {env : Env} {run : AgentRun} {rows : List AuditEvent}
    (h : ∀ e ∈ rows, AtHome run e) (previous : Option String) :
    auditLoop env.sha256 (.obj (runToDict run).members) previous
        (rows.map fun e => .obj (eventToDict e).members) =
      (verifyLoop env run previous rows).toOption := by
  induction rows generalizing previous with
  | nil => rfl
  | cons e rows ih =>
      have hprevious : textOf (field (.obj (eventToDict e).members) "previous_event_hash") =
          e.previousEventHash := textOf_optStr _
      have hid : idOf (.obj (eventToDict e).members) = e.eventId := rfl
      have hhash : textOf (field (.obj (eventToDict e).members) "event_hash") = some e.eventHash := rfl
      rw [List.map_cons, auditLoop, verifyLoop, hprevious, hid, hhash,
        auditEnvelope_eq (h e List.mem_cons_self)]
      split_ifs with hlink
      · rfl
      · cases hexpected : Python.computeEventHash env.sha256 (rowEnvelope run e).members with
        | none => rfl
        | some expected =>
            dsimp only
            by_cases hown : expected = e.eventHash
            · subst hown
              rw [if_neg (not_not.2 rfl), if_neg (not_not.2 rfl)]
              exact ih (fun f hf => h f (List.mem_cons_of_mem _ hf)) _
            · rw [if_pos (fun heq => hown (Option.some.inj heq)), if_pos hown]
              rfl

/-! ## What a valid audit binds -/

section Binding

variable {sha256 : Sha256} {run run' event event' : PyJson}

def linkOf (event : PyJson) : Option String :=
  textOf (field event "previous_event_hash")

def ownHash (event : PyJson) : String :=
  (textOf (field event "event_hash")).getD ""

/-- What the auditor hashes for an event. -/
def auditText (run event : PyJson) : Option Bytes :=
  canonicalJson (.obj (auditEnvelope run event))

def Dossier.auditTexts (d : Dossier) : Set Bytes :=
  {data | ∃ event ∈ d.events, auditText d.run event = some data}

def Dossier.lastHash (d : Dossier) : Option String :=
  lastLink ownHash none d.events

theorem computeEventHash_auditEnvelope (sha256 : Sha256) (run event : PyJson) :
    Python.computeEventHash sha256 (auditEnvelope run event) =
      (auditText run event).map (Python.sha256Hex sha256) := by
  have hkeys : ((auditEnvelope run event).filter fun m => decide (m.1 ≠ "event_hash")) =
      auditEnvelope run event := by
    simp [auditEnvelope]
  rw [Python.computeEventHash, hkeys, auditText]

/-- An event that the auditor accepts has the hash of its envelope. -/
def HasAuditHash (sha256 : Sha256) (run event : PyJson) : Prop :=
  ∃ data, auditText run event = some data ∧ ownHash event = Python.sha256Hex sha256 data

/-- A valid chain is linked, and each event has the hash of its envelope. -/
theorem linked_of_auditLoop {events : List PyJson} {previous : Option String}
    (h : auditLoop sha256 run previous events = some none) :
    Linked linkOf ownHash previous events ∧ ∀ e ∈ events, HasAuditHash sha256 run e := by
  induction events generalizing previous with
  | nil => exact ⟨trivial, by simp⟩
  | cons event rest ih =>
      rw [auditLoop, computeEventHash_auditEnvelope] at h
      split_ifs at h with hlink
      · simp at h
      · cases htext : auditText run event with
        | none => simp [htext] at h
        | some data =>
            simp only [htext, Option.map_some] at h
            split_ifs at h with hown
            · simp at h
            · have hhash : ownHash event = Python.sha256Hex sha256 data := by
                rw [ownHash, ← not_not.1 hown, Option.getD_some]
              rcases ih h with ⟨hrest, hall⟩
              refine ⟨⟨not_not.1 hlink, ?_⟩, List.forall_mem_cons.2 ⟨⟨data, htext, hhash⟩, hall⟩⟩
              rw [hhash]
              exact hrest

theorem linked_of_audit {d : Dossier} {v : Verification} (h : audit sha256 d = some v)
    (hv : v.valid = true) :
    Linked linkOf ownHash none d.events ∧ ∀ e ∈ d.events, HasAuditHash sha256 d.run e := by
  unfold audit at h
  rcases Option.map_eq_some_iff.1 h with ⟨brokenAt, hloop, rfl⟩
  have hnone : brokenAt = none := Option.isNone_iff_eq_none.1 hv
  exact linked_of_auditLoop (hnone ▸ hloop)

theorem textOf_sortKeys (v : PyJson) : textOf v.sortKeys = textOf v := by
  cases v <;> rfl

theorem linkOf_eq_of_sameDict (h : SameDict (auditEnvelope run event) (auditEnvelope run' event')) :
    linkOf event = linkOf event' := by
  have hkeys : (auditEnvelope run event).map Prod.fst = (auditEnvelope run' event').map Prod.fst := rfl
  have hnodup : ((auditEnvelope run event).map Prod.fst).Nodup := by
    simp [auditEnvelope]
  have hmembers := JsonTree.sortMembers_eq_of_sortKeys hkeys hnodup h
  simp only [auditEnvelope, JsonTree.sortMembers, List.cons.injEq, Prod.mk.injEq, true_and,
    and_true] at hmembers
  have hlink : (field event "previous_event_hash").sortKeys =
      (field event' "previous_event_hash").sortKeys := by tauto
  rw [linkOf, linkOf, ← textOf_sortKeys, hlink, textOf_sortKeys]

end Binding

namespace BundleExample

open CollectorExample

def run : AgentRun where
  runId := "run_1"
  orgId := "org_default"
  projectId := "proj_default"
  environment := "dev"
  agentId := "repeat-agent"
  agentVersion := none
  startedAt := noon

def row (sequence : Nat) : AuditEvent where
  sequence := sequence
  eventId := "evt_a"
  orgId := "org_default"
  projectId := "proj_default"
  environment := "dev"
  runId := "run_1"
  stepId := none
  stepIndex := none
  eventType := "memory.write"
  schemaVersion := "2026-05-01"
  actorType := some "agent"
  actorId := some "repeat-agent"
  traceId := none
  spanId := none
  parentSpanId := none
  payloadMode := "metadata_only"
  payload := PyJson.none
  payloadHash := none
  previousEventHash := none
  eventHash := hashA
  occurredAt := noon
  ingestedAt := noon
  idempotencyKey := some "idem_a"

/-- The archive of a run of one event, whose `sequence` is not hashed. -/
def dossier (sequence : Nat) : Dossier :=
  (makeBundle moment "exp_0" none run [row sequence] [] ⟨"run_1", true, 1, none⟩).dossier

theorem mem_auditTexts {sequence : Nat} {data : Bytes} (h : data ∈ (dossier sequence).auditTexts) :
    auditText (dossier 1).run (.obj (eventToDict (row 1)).members) = some data := by
  rcases h with ⟨e, he, htext⟩
  rw [List.mem_singleton.1 he] at htext
  exact htext

end BundleExample

end Collector
end ControlDB
