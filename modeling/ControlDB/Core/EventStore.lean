import ControlDB.Core.Storage

/-!
# `EventStore`

The operations of `event_store.cpp`.  Reads go to what RocksDB holds when the call starts: a batch
under construction is not visible to them.  `now` gives the readings of `now_ms()` a call makes.
-/

namespace ControlDB

open Library

/-- What a call did, in order, and what it returned or threw. -/
structure Outcome (α : Type) where
  effects : List Effect := []
  result : Except StoreError α

def Outcome.throw {α : Type} (e : StoreError) : Outcome α :=
  { result := .error e }

/-- The end shared by the single-record operations: log the document, write the batch, mark the
record applied.  Dumping the document comes first and may throw. -/
def logThenWrite {α : Type} (env : Env) (s : Store) (opType : WalOpType) (doc : Json)
    (batch : List Put) (r : α) : Outcome α :=
  match env.dump doc with
  | none => .throw .typeError
  | some _ =>
      let walSeq := s.wal.lastSeq + 1
      { effects := [.walAppend ⟨walSeq, opType, doc⟩, .write batch, .markApplied walSeq]
        result := .ok r }

/-! ## Agent runs -/

/-- The checks that open `commit_run`, `rollback_run`, `append_events` and `timeline`. -/
def fetchRun (db : Rocks) (runId orgId projectId : Bytes) : Except StoreError AgentRun :=
  match db.runs.get runId with
  | none => .error (.runtimeError (bytes "run not found: " ++ runId))
  | some doc => do
      let run ← jsonToRun doc
      if run.orgId ≠ orgId ∨ run.projectId ≠ projectId then
        .error (.runtimeError (bytes "forbidden"))
      else return run

/-- `org_id:proj_id:started_at_ms_be:run_id`, the time cast to `uint64_t`. -/
def runsByOrgKey (r : AgentRun) : Bytes :=
  r.orgId ++ bytes ":" ++ r.projectId ++ bytes ":" ++
    seqToKey (r.startedAtMs % 2 ^ 64).toNat ++ bytes ":" ++ r.runId

def startRun (env : Env) (now : Nat → Int) (s : Store) (run : AgentRun) : Outcome AgentRun :=
  match s.rocks.runs.get run.runId with
  | some doc => { result := jsonToRun doc }
  | none =>
      let r := { run with
        startedAtMs := if run.startedAtMs = 0 then now 0 else run.startedAtMs
        status := if run.status = [] then bytes "running" else run.status }
      logThenWrite env s .insertRun (runToJson r)
        [.runs r.runId (runToJson r), .runsByOrg (runsByOrgKey r) r.runId] r

def commitRun (env : Env) (now : Nat → Int) (s : Store) (runId orgId projectId : Bytes) :
    Outcome AgentRun :=
  match fetchRun s.rocks runId orgId projectId with
  | .error e => .throw e
  | .ok run =>
      let r := { run with status := bytes "committed", endedAtMs := now 0 }
      logThenWrite env s .updateRun (runToJson r) [.runs runId (runToJson r)] r

/-- The metadata text with its member `rollback_reason` set. -/
def withRollbackReason (env : Env) (metadataJson reason : Bytes) : Except StoreError Bytes :=
  match env.parse (if metadataJson = [] then bytes "\x7b\x7d" else metadataJson) with
  | none => .error .parseError
  | some j => do
      let j' ← j.assign (bytes "rollback_reason") (.str reason)
      match env.dump j' with
      | none => .error .typeError
      | some text => return text

def rollbackRun (env : Env) (now : Nat → Int) (s : Store)
    (runId orgId projectId reason : Bytes) : Outcome AgentRun :=
  match fetchRun s.rocks runId orgId projectId with
  | .error e => .throw e
  | .ok run =>
      let metadata :=
        if reason = [] then .ok run.metadataJson
        else withRollbackReason env run.metadataJson reason
      match metadata with
      | .error e => .throw e
      | .ok metadataJson =>
          let r := { run with
            status := bytes "rolled_back"
            endedAtMs := now 0
            metadataJson := metadataJson }
          logThenWrite env s .updateRun (runToJson r) [.runs runId (runToJson r)] r

/-- The reverse scan of `list_runs`; the argument is what is left to walk. -/
def listRunsLoop (db : Rocks) (scanPrefix : Bytes) (limit : Int) :
    List (Bytes × Bytes) → List AgentRun → Except StoreError (List AgentRun)
  | [], result => .ok result
  | (k, runId) :: rest, result =>
      if ¬ (result.length : Int) < limit then .ok result
      else if k.take scanPrefix.length ≠ scanPrefix then listRunsLoop db scanPrefix limit rest result
      else
        match db.runs.get runId with
        | none => listRunsLoop db scanPrefix limit rest result
        | some doc => do
            let run ← jsonToRun doc
            listRunsLoop db scanPrefix limit rest (result ++ [run])

def listRuns (s : Store) (orgId projectId : Bytes) (limit : Int) :
    Except StoreError (List AgentRun) :=
  listRunsLoop s.rocks (orgId ++ bytes ":" ++ projectId ++ bytes ":") limit
    s.rocks.runsByOrg.entries.reverse []

/-! ## Events -/

structure InsertEventResult where
  eventId : Bytes
  eventHash : HashStr
  wasDuplicate : Bool := false
  deriving DecidableEq, Repr

/-- What `append_events` fills in on a new event. -/
def stampEvent (env : Env) (now : Int) (run : AgentRun) (runId orgId projectId : Bytes)
    (seq : Nat) (prevHash : HashStr) (ev : AuditEvent) : AuditEvent :=
  let stamped := { ev with
    sequence := seq
    ingestedAtMs := now
    occurredAtMs := if ev.occurredAtMs = 0 then now else ev.occurredAtMs
    orgId := orgId
    projectId := projectId
    runId := runId
    environment := run.environment
    schemaVersion := if ev.schemaVersion = [] then bytes "2026-05-01" else ev.schemaVersion
    payloadMode := if ev.payloadMode = [] then bytes "metadata_only" else ev.payloadMode
    previousEventHash := prevHash }
  { stamped with eventHash := computeEventHash env.sha256 stamped }

def evByRunKey (e : AuditEvent) : Bytes :=
  e.runId ++ bytes ":" ++ seqToKey e.sequence

def evByTypeKey (e : AuditEvent) : Bytes :=
  e.orgId ++ bytes ":" ++ e.projectId ++ bytes ":" ++ e.eventType ++ bytes ":" ++
    seqToKey e.sequence

/-- The key of the side record with the hash. -/
def hashKey (key : Bytes) : Bytes :=
  key ++ bytes ":hash"

def idempotencyPuts (e : AuditEvent) : List Put :=
  if e.idempotencyKey = [] then []
  else [.idempotency e.idempotencyKey e.eventId, .idempotency (hashKey e.idempotencyKey) e.eventHash]

/-- The puts of one event: primary record, two indexes, idempotency records. -/
def eventPuts (e : AuditEvent) : List Put :=
  [.events e.sequence (eventToJson e), .evByRun (evByRunKey e), .evByType (evByTypeKey e)] ++
    idempotencyPuts e

/-- The locals of the `append_events` loop, and the effects so far. -/
structure AppendState where
  effects : List Effect := []
  batch : List Put := []
  prevHash : HashStr
  seq : Nat
  walSeq : Nat
  results : List InsertEventResult := []

/-- The key is known: the reply comes from the idempotency records alone. -/
def isDuplicate (db : Rocks) (ev : AuditEvent) : Prop :=
  ev.idempotencyKey ≠ [] ∧ db.getIdempotency ev.idempotencyKey ≠ []

instance (db : Rocks) (ev : AuditEvent) : Decidable (isDuplicate db ev) :=
  inferInstanceAs (Decidable (_ ∧ _))

def duplicateResult (db : Rocks) (ev : AuditEvent) : InsertEventResult :=
  { eventId := db.getIdempotency ev.idempotencyKey
    eventHash := db.getIdempotency (hashKey ev.idempotencyKey)
    wasDuplicate := true }

/-- The state after a new event `e` went through the loop body. -/
def AppendState.accept (st : AppendState) (e : AuditEvent) : AppendState :=
  { effects := st.effects ++
      [.nextSeq, .walAppend ⟨st.walSeq + 1, .insertEvent, eventToJson e⟩,
        .markApplied (st.walSeq + 1)]
    batch := st.batch ++ eventPuts e
    prevHash := e.eventHash
    seq := st.seq + 1
    walSeq := st.walSeq + 1
    results := st.results ++ [{ eventId := e.eventId, eventHash := e.eventHash }] }

/-- The event loop; `i` numbers the iterations.  A throw leaves the effects made before it. -/
def appendLoop (env : Env) (now : Nat → Int) (db : Rocks) (run : AgentRun)
    (runId orgId projectId : Bytes) :
    Nat → List AuditEvent → AppendState → Except (List Effect × StoreError) AppendState
  | _, [], st => .ok st
  | i, ev :: rest, st =>
      if isDuplicate db ev then
        appendLoop env now db run runId orgId projectId (i + 1) rest
          { st with results := st.results ++ [duplicateResult db ev] }
      else
        let e := stampEvent env (now i) run runId orgId projectId (st.seq + 1) st.prevHash ev
        match env.dump (eventToJson e) with
        | none => .error (st.effects ++ [.nextSeq], .typeError)
        | some _ => appendLoop env now db run runId orgId projectId (i + 1) rest (st.accept e)

/-- The status loop at the end of `append_events`. -/
def updateStatus (now : Nat → Int) : Nat → List AuditEvent → AgentRun → AgentRun
  | _, [], run => run
  | i, ev :: rest, run =>
      updateStatus now (i + 1) rest
        (if ev.eventType = bytes "agent_run.committed" then
          { run with status := bytes "committed", endedAtMs := now i }
        else if ev.eventType = bytes "agent_run.failed" then
          { run with status := bytes "failed", endedAtMs := now i }
        else if ev.eventType = bytes "agent_run.started" then
          { run with status := bytes "running" }
        else run)

def appendEvents (env : Env) (now : Nat → Int) (s : Store) (runId orgId projectId : Bytes)
    (events : List AuditEvent) : Outcome (List InsertEventResult) :=
  match fetchRun s.rocks runId orgId projectId with
  | .error e => .throw e
  | .ok run =>
      match appendLoop env now s.rocks run runId orgId projectId 0 events
        { prevHash := run.lastEventHash, seq := s.globalSeq, walSeq := s.wal.lastSeq } with
      | .error (effects, e) => { effects := effects, result := .error e }
      | .ok st =>
          let run' := updateStatus (fun i => now (events.length + i)) 0 events
            { run with
              lastEventHash := st.prevHash
              eventCount := run.eventCount + st.results.countP fun r => !r.wasDuplicate }
          match env.dump (runToJson run') with
          | none => { effects := st.effects, result := .error .typeError }
          | some _ =>
              { effects := st.effects ++
                  [.write (st.batch ++ [.runs runId (runToJson run'), .globalSeq st.seq])]
                result := .ok st.results }

/-! ## Timeline and query -/

structure TimelineResult where
  run : AgentRun
  events : List AuditEvent
  nextCursor : Option Nat
  deriving DecidableEq, Repr

structure QueryResult where
  events : List AuditEvent
  nextCursor : Option Nat
  deriving DecidableEq, Repr

/-- Where a scan starts: at the prefix, or past the cursor. -/
def seekKey (scanPrefix : Bytes) : Option Nat → Bytes
  | some cursor => scanPrefix ++ seqToKey (cursor + 1)
  | none => scanPrefix

/-- The scan of `timeline`; the Boolean says whether the iterator is still valid at the end. -/
def timelineLoop (db : Rocks) (scanPrefix : Bytes) (limit : Int) :
    List (Bytes × Unit) → List AuditEvent → Nat → Except StoreError (List AuditEvent × Nat × Bool)
  | [], events, lastSeq => .ok (events, lastSeq, false)
  | (k, _) :: rest, events, lastSeq =>
      if ¬ (events.length : Int) < limit then .ok (events, lastSeq, true)
      else if k.take scanPrefix.length ≠ scanPrefix then .ok (events, lastSeq, true)
      else if k.length < scanPrefix.length + 8 then .ok (events, lastSeq, true)
      else
        let seq := keyToSeq (k.drop scanPrefix.length)
        match db.events.get seq with
        | none => timelineLoop db scanPrefix limit rest events lastSeq
        | some doc => do
            let ev ← jsonToEvent doc
            timelineLoop db scanPrefix limit rest (events ++ [ev]) seq

def timeline (s : Store) (runId orgId projectId : Bytes) (limit : Int) (cursor : Option Nat) :
    Except StoreError TimelineResult := do
  let run ← fetchRun s.rocks runId orgId projectId
  if limit < 0 then .error .lengthError
  else
    let scanPrefix := runId ++ bytes ":"
    let (events, lastSeq, valid) ← timelineLoop s.rocks scanPrefix limit
      (s.rocks.evByRun.seek (seekKey scanPrefix cursor)) [] 0
    return {
      run := run
      events := events
      nextCursor := if (events.length : Int) = limit ∧ valid then some lastSeq else none }

/-- The scan of `query` for one event type. -/
def queryLoop (db : Rocks) (filter : QueryFilter) (scanPrefix : Bytes) :
    List (Bytes × Unit) → List AuditEvent → Nat → Except StoreError (List AuditEvent × Nat)
  | [], events, lastSeq => .ok (events, lastSeq)
  | (k, _) :: rest, events, lastSeq =>
      if ¬ (events.length : Int) < filter.limit then .ok (events, lastSeq)
      else if k.take scanPrefix.length ≠ scanPrefix then .ok (events, lastSeq)
      else
        let seq := keyToSeq (k.drop scanPrefix.length)
        match db.events.get seq with
        | none => queryLoop db filter scanPrefix rest events lastSeq
        | some doc => do
            let ev ← jsonToEvent doc
            if filter.runId.any fun runId => decide (ev.runId ≠ runId) then
              queryLoop db filter scanPrefix rest events lastSeq
            else queryLoop db filter scanPrefix rest (events ++ [ev]) seq

def typePrefix (filter : QueryFilter) (eventType : Bytes) : Bytes :=
  filter.orgId ++ bytes ":" ++ filter.projectId ++ bytes ":" ++ eventType ++ bytes ":"

/-- The loop over the requested types, which ends early when the limit is reached. -/
def queryTypes (db : Rocks) (filter : QueryFilter) :
    List Bytes → List AuditEvent → Nat → Except StoreError (List AuditEvent × Nat)
  | [], events, lastSeq => .ok (events, lastSeq)
  | et :: rest, events, lastSeq => do
      let scanPrefix := typePrefix filter et
      let (events', lastSeq') ← queryLoop db filter scanPrefix
        (db.evByType.seek (seekKey scanPrefix filter.cursor)) events lastSeq
      if (events'.length : Int) ≥ filter.limit then return (events', lastSeq')
      else queryTypes db filter rest events' lastSeq'

/-- `std::sort` by sequence. -/
def sortBySequence (events : List AuditEvent) : List AuditEvent :=
  events.insertionSort fun a b => a.sequence ≤ b.sequence

def query (s : Store) (filter : QueryFilter) : Except StoreError QueryResult :=
  if filter.limit < 0 then .error .lengthError
  else
    match filter.eventTypes, filter.runId with
    | [], some runId => do
        let tl ← timeline s runId filter.orgId filter.projectId filter.limit filter.cursor
        return { events := tl.events, nextCursor := tl.nextCursor }
    | eventTypes, _ => do
        let (events, lastSeq) ← queryTypes s.rocks filter eventTypes [] 0
        return {
          events := sortBySequence events
          nextCursor := if (events.length : Int) = filter.limit then some lastSeq else none }

def verify (env : Env) (s : Store) (runId orgId projectId : Bytes) :
    Except StoreError VerificationResult := do
  let tl ← timeline s runId orgId projectId 5000 none
  return verifyChain env.sha256 tl.events runId

/-! ## Approvals and exports -/

def upsertApproval (env : Env) (now : Nat → Int) (s : Store) (approval : Approval) :
    Outcome Approval :=
  match s.rocks.approvals.get approval.approvalId with
  | some doc => { result := jsonToApproval doc }
  | none =>
      let a := { approval with
        createdAtMs := if approval.createdAtMs = 0 then now 0 else approval.createdAtMs
        status := if approval.status = [] then bytes "requested" else approval.status }
      logThenWrite env s .insertApproval (approvalToJson a)
        [.approvals a.approvalId (approvalToJson a)] a

def updateApprovalStatus (env : Env) (now : Nat → Int) (s : Store)
    (approvalId orgId projectId status reviewerId reason : Bytes) : Outcome Approval :=
  match s.rocks.approvals.get approvalId with
  | none => .throw (.runtimeError (bytes "approval not found: " ++ approvalId))
  | some doc =>
      match jsonToApproval doc with
      | .error e => .throw e
      | .ok approval =>
          if approval.orgId ≠ orgId ∨ approval.projectId ≠ projectId then
            .throw (.runtimeError (bytes "forbidden"))
          else
            let a := { approval with
              status := status
              reviewerId := reviewerId
              decidedAtMs := now 0
              reason := if reason = [] then approval.reason else reason }
            logThenWrite env s .updateApproval (approvalToJson a)
              [.approvals approvalId (approvalToJson a)] a

/-- The batch first puts the empty text under the export's key, then the document. -/
def putExport (env : Env) (s : Store) (exp : EvidenceExport) : Outcome Unit :=
  logThenWrite env s .insertExport (exportToJson exp)
    [.exports exp.exportId none, .exports exp.exportId (some (exportToJson exp))] ()

/-! ## Runs of the engine -/

/-- A call of an operation that writes. -/
inductive Call
  | startRun (run : AgentRun)
  | commitRun (runId orgId projectId : Bytes)
  | rollbackRun (runId orgId projectId reason : Bytes)
  | appendEvents (runId orgId projectId : Bytes) (events : List AuditEvent)
  | upsertApproval (approval : Approval)
  | updateApprovalStatus (approvalId orgId projectId status reviewerId reason : Bytes)
  | putExport (exp : EvidenceExport)

/-- The effects of a call that is not interrupted from outside; it may throw by itself. -/
def Call.effects (env : Env) (now : Nat → Int) (s : Store) : Call → List Effect
  | startRun run => (ControlDB.startRun env now s run).effects
  | commitRun runId orgId projectId => (ControlDB.commitRun env now s runId orgId projectId).effects
  | rollbackRun runId orgId projectId reason =>
      (ControlDB.rollbackRun env now s runId orgId projectId reason).effects
  | appendEvents runId orgId projectId events =>
      (ControlDB.appendEvents env now s runId orgId projectId events).effects
  | upsertApproval approval => (ControlDB.upsertApproval env now s approval).effects
  | updateApprovalStatus approvalId orgId projectId status reviewerId reason =>
      (ControlDB.updateApprovalStatus env now s approvalId orgId projectId status reviewerId
        reason).effects
  | putExport exp => (ControlDB.putExport env s exp).effects

/-- One thing that happens to a store: a call that runs to its end, a call that an exception or a
crash stops, or the opening of the files by a new process. -/
inductive Action
  | call (now : Nat → Int) (c : Call)
  | stopped (now : Nat → Int) (c : Call) (stop : Stop)
  | reopen

def Action.run (env : Env) (s : Store) : Action → Store
  | call now c => s.applyAll (c.effects env now s)
  | stopped now c stop => s.applyUntil (c.effects env now s) stop
  | reopen => s.reopen

def runActions (env : Env) (s : Store) (actions : List Action) : Store :=
  actions.foldl (Action.run env) s

@[simp] theorem runActions_nil (env : Env) (s : Store) : runActions env s [] = s := rfl

theorem runActions_concat (env : Env) (s : Store) (actions : List Action) (a : Action) :
    runActions env s (actions ++ [a]) = a.run env (runActions env s actions) := by
  simp [runActions]

/-! ## Concrete environments -/

/-- SHA-256 on the listed texts, and a JSON library for documents whose strings are all UTF-8; of
a dump the operations only see that there is one. -/
def tableEnv (digests : List (Bytes × Vector UInt8 32)) : Env where
  sha256 data := (digests.lookup data).getD (Vector.replicate 32 0)
  dump _ := some []
  parse _ := none

/-- The digest of the event that the examples store first. -/
def exampleDigest : Vector UInt8 32 :=
  #v[51, 71, 97, 154, 137, 243, 96, 163, 86, 157, 168, 55, 61, 130, 136, 130,
    65, 91, 197, 224, 196, 94, 22, 240, 52, 240, 231, 92, 163, 39, 148, 81]

end ControlDB
