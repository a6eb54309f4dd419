import ControlDB.Core.Replay
import ControlDB.Library.LastWrite

/-!
# The run record in the engine

What a call leaves of the record of its run and of the stored events.  The values of a record are
dumped to JSON before anything is written, which goes through as long as every text is UTF-8.
-/

namespace ControlDB

open Library

/-! ## Texts in UTF-8 -/

def IsUtf8 (text : Bytes) : Prop :=
  ∃ chars : List Char, text = chars.flatMap String.utf8EncodeChar

theorem isUtf8_nil : IsUtf8 [] :=
  ⟨[], rfl⟩

theorem IsUtf8.append {text text' : Bytes} (h : IsUtf8 text) (h' : IsUtf8 text') :
    IsUtf8 (text ++ text') := by
  rcases h with ⟨chars, rfl⟩
  rcases h' with ⟨chars', rfl⟩
  exact ⟨chars ++ chars', List.flatMap_append.symm⟩

theorem isUtf8_byte {b : UInt8} (h : b < 0x80) : IsUtf8 [b] := by
  have hlt : b.toNat < 128 := UInt8.lt_iff_toNat_lt.1 h
  have hvalid : b.toNat.isValidChar := .inl (by omega)
  have hchar : (Char.ofNat b.toNat).val.toNat = b.toNat := by
    simp only [Char.ofNat, dif_pos hvalid, Char.ofNatAux]
    simp
  have hle : b.toNat ≤ 0x7f := Nat.le_of_lt_succ hlt
  refine ⟨[Char.ofNat b.toNat], ?_⟩
  simp only [List.flatMap_cons, List.flatMap_nil, List.append_nil, String.utf8EncodeChar, hchar,
    if_pos hle, UInt8.ofNat_toNat]

def isAscii (text : Bytes) : Bool :=
  text.all fun b => decide (b < 0x80)

theorem isUtf8_of_ascii {text : Bytes} (h : isAscii text = true) : IsUtf8 text := by
  induction text with
  | nil => exact isUtf8_nil
  | cons b text ih =>
      rcases Bool.and_eq_true_iff.1 h with ⟨hb, htail⟩
      exact (isUtf8_byte (of_decide_eq_true hb)).append (ih htail)

theorem hexDigit_ascii {n : UInt8} (hn : n < 16) : hexDigit n < 0x80 := by
  unfold hexDigit
  split <;> grind

theorem isUtf8_computeEventHash (sha256 : Sha256) (ev : AuditEvent) :
    IsUtf8 (computeEventHash sha256 ev) := by
  have hstart : isAscii (bytes "sha256:") = true := by decide
  refine (isUtf8_of_ascii hstart).append (isUtf8_of_ascii (List.all_eq_true.2 fun b hb => ?_))
  refine decide_eq_true ?_
  rcases List.mem_flatMap.1 hb with ⟨c, _, hc⟩
  simp only [List.mem_cons, List.not_mem_nil, or_false] at hc
  rcases hc with rfl | rfl
  · exact hexDigit_ascii (by grind)
  · exact hexDigit_ascii (by grind)

/-! ## Documents -/

/-- Every string of the document is in UTF-8. -/
inductive Json.Utf8 : Json → Prop
  | null : Utf8 .null
  | bool (b : Bool) : Utf8 (.bool b)
  | int (n : Int) : Utf8 (.int n)
  | float (bits : UInt64) : Utf8 (.float bits)
  | str {s : Bytes} (h : IsUtf8 s) : Utf8 (.str s)
  | arr {items : List Json} (h : ∀ j ∈ items, Utf8 j) : Utf8 (.arr items)
  | obj {members : List (Bytes × Json)} (hkeys : ∀ m ∈ members, IsUtf8 m.1)
      (h : ∀ m ∈ members, Utf8 m.2) : Utf8 (.obj members)

/-- What is documented of the JSON library: `dump` throws only on a string that is not UTF-8, it
writes UTF-8, and `parse` accepts nothing else. -/
structure JsonLibrary (env : Env) : Prop where
  dumps : ∀ {doc}, doc.Utf8 → ∃ text, env.dump doc = some text ∧ IsUtf8 text
  parses : ∀ {text doc}, env.parse text = some doc → doc.Utf8

structure AgentRun.Utf8 (r : AgentRun) : Prop where
  runId : IsUtf8 r.runId
  orgId : IsUtf8 r.orgId
  projectId : IsUtf8 r.projectId
  environment : IsUtf8 r.environment
  agentId : IsUtf8 r.agentId
  agentVersion : IsUtf8 r.agentVersion
  status : IsUtf8 r.status
  metadataJson : IsUtf8 r.metadataJson
  lastEventHash : IsUtf8 r.lastEventHash

/-- The texts of a submitted event that go into the stored one. -/
structure AuditEvent.SentUtf8 (ev : AuditEvent) : Prop where
  eventId : IsUtf8 ev.eventId
  stepId : IsUtf8 ev.stepId
  eventType : IsUtf8 ev.eventType
  schemaVersion : IsUtf8 ev.schemaVersion
  actorType : IsUtf8 ev.actorType
  actorId : IsUtf8 ev.actorId
  traceId : IsUtf8 ev.traceId
  spanId : IsUtf8 ev.spanId
  parentSpanId : IsUtf8 ev.parentSpanId
  payloadMode : IsUtf8 ev.payloadMode
  payload : IsUtf8 ev.payload
  payloadHash : IsUtf8 ev.payloadHash
  idempotencyKey : IsUtf8 ev.idempotencyKey

theorem Json.Utf8.nil : (Json.obj []).Utf8 :=
  .obj (fun _ hm => absurd hm List.not_mem_nil) fun _ hm => absurd hm List.not_mem_nil

/-- An object with one more member, whose name is an ASCII literal of the source. -/
theorem Json.Utf8.member {name : Bytes} {v : Json} {members : List (Bytes × Json)}
    (hname : isAscii name = true) (hv : v.Utf8) (h : (Json.obj members).Utf8) :
    (Json.obj ((name, v) :: members)).Utf8 := by
  cases h with
  | obj hkeys hvalues =>
      refine .obj (fun m hm => ?_) fun m hm => ?_
      · rcases List.mem_cons.1 hm with rfl | hold
        · exact isUtf8_of_ascii hname
        · exact hkeys m hold
      · rcases List.mem_cons.1 hm with rfl | hold
        · exact hv
        · exact hvalues m hold

theorem runToJson_utf8 {r : AgentRun} (h : r.Utf8) : (runToJson r).Utf8 := by
  apply Json.Utf8.member (by decide) (.str h.runId)
  apply Json.Utf8.member (by decide) (.str h.orgId)
  apply Json.Utf8.member (by decide) (.str h.projectId)
  apply Json.Utf8.member (by decide) (.str h.environment)
  apply Json.Utf8.member (by decide) (.str h.agentId)
  apply Json.Utf8.member (by decide) (.str h.agentVersion)
  apply Json.Utf8.member (by decide) (.str h.status)
  apply Json.Utf8.member (by decide) (.str h.metadataJson)
  apply Json.Utf8.member (by decide) (.int r.startedAtMs)
  apply Json.Utf8.member (by decide) (.int r.endedAtMs)
  apply Json.Utf8.member (by decide) (.str h.lastEventHash)
  apply Json.Utf8.member (by decide) (.int r.eventCount)
  exact .nil

/-- A default of `append_events`: a text of the caller, or a literal where it is empty. -/
theorem IsUtf8.orLiteral {text literal : Bytes} (h : IsUtf8 text)
    (hliteral : isAscii literal = true) : IsUtf8 (if text = [] then literal else text) := by
  split
  · exact isUtf8_of_ascii hliteral
  · exact h

section Stamp

variable (env : Env) {run : AgentRun} {runId orgId projectId : Bytes}

/-- The stored form of an event can be dumped. -/
theorem stampEvent_utf8 (hrun : run.Utf8) (hid : IsUtf8 runId) (horg : IsUtf8 orgId)
    (hproject : IsUtf8 projectId) {ev : AuditEvent} (hev : ev.SentUtf8) {prevHash : HashStr}
    (hprev : IsUtf8 prevHash) (now : Int) (seq : Nat) :
    (eventToJson (stampEvent env now run runId orgId projectId seq prevHash ev)).Utf8 := by
  generalize he : stampEvent env now run runId orgId projectId seq prevHash ev = e
  have hhash : IsUtf8 e.eventHash := he ▸ isUtf8_computeEventHash _ _
  have hschema : IsUtf8 e.schemaVersion := he ▸ hev.schemaVersion.orLiteral (by decide)
  have hmode : IsUtf8 e.payloadMode := he ▸ hev.payloadMode.orLiteral (by decide)
  apply Json.Utf8.member (by decide) (.int _)
  apply Json.Utf8.member (by decide) (.str (he ▸ hev.eventId))
  apply Json.Utf8.member (by decide) (.str (he ▸ horg))
  apply Json.Utf8.member (by decide) (.str (he ▸ hproject))
  apply Json.Utf8.member (by decide) (.str (he ▸ hrun.environment))
  apply Json.Utf8.member (by decide) (.str (he ▸ hid))
  apply Json.Utf8.member (by decide) (.str (he ▸ hev.stepId))
  apply Json.Utf8.member (by decide) (.int _)
  apply Json.Utf8.member (by decide) (.str (he ▸ hev.eventType))
  apply Json.Utf8.member (by decide) (.str hschema)
  apply Json.Utf8.member (by decide) (.str (he ▸ hev.actorType))
  apply Json.Utf8.member (by decide) (.str (he ▸ hev.actorId))
  apply Json.Utf8.member (by decide) (.str (he ▸ hev.traceId))
  apply Json.Utf8.member (by decide) (.str (he ▸ hev.spanId))
  apply Json.Utf8.member (by decide) (.str (he ▸ hev.parentSpanId))
  apply Json.Utf8.member (by decide) (.str hmode)
  apply Json.Utf8.member (by decide) (.str (he ▸ hev.payload))
  apply Json.Utf8.member (by decide) (.str (he ▸ hev.payloadHash))
  apply Json.Utf8.member (by decide) (.str (he ▸ hprev))
  apply Json.Utf8.member (by decide) (.str hhash)
  apply Json.Utf8.member (by decide) (.int _)
  apply Json.Utf8.member (by decide) (.int _)
  apply Json.Utf8.member (by decide) (.str (he ▸ hev.idempotencyKey))
  exact .nil

variable {env}

/-- The loop of `append_events` has nothing to throw at. -/
theorem appendLoop_ok (hlib : JsonLibrary env) (hrun : run.Utf8) (hid : IsUtf8 runId)
    (horg : IsUtf8 orgId) (hproject : IsUtf8 projectId) (now : Nat → Int) (db : Rocks) (i : Nat)
    {events : List AuditEvent} (hevents : ∀ ev ∈ events, ev.SentUtf8) (st : AppendState)
    (hprev : IsUtf8 st.prevHash) :
    ∃ st', appendLoop env now db run runId orgId projectId i events st = .ok st' := by
  induction events generalizing i st with
  | nil => exact ⟨st, rfl⟩
  | cons ev rest ih =>
      have hrest : ∀ ev ∈ rest, ev.SentUtf8 := fun ev' hev' => hevents ev' (List.mem_cons_of_mem _ hev')
      unfold appendLoop
      split_ifs with hdup
      · exact ih (i + 1) hrest _ hprev
      · have hstamped := stampEvent_utf8 env hrun hid horg hproject
          (hevents ev List.mem_cons_self) hprev (now i) (st.seq + 1)
        rcases hlib.dumps hstamped with ⟨text, hdump, _⟩
        simp only [hdump]
        exact ih (i + 1) hrest _ (isUtf8_computeEventHash _ _)

end Stamp

/-! ## The status loop -/

/-- A clock that has left zero. -/
theorem updateStatus_ended {now : Nat → Int} (hnow : ∀ i, now i ≠ 0) (i : Nat)
    (events : List AuditEvent) (run : AgentRun) :
    (updateStatus now i events run).endedAtMs ≠ 0 ↔
      run.endedAtMs ≠ 0 ∨ ∃ ev ∈ events, EndsRun ev.eventType := by
  induction events generalizing i run with
  | nil => simp [updateStatus]
  | cons ev rest ih =>
      unfold updateStatus
      rw [ih]
      split_ifs with hcommitted hfailed hstarted
      · simp [EndsRun, hcommitted, hnow i]
      · simp [EndsRun, hfailed, hnow i]
      · simp [EndsRun, hcommitted, hfailed]
      · simp [EndsRun, hcommitted, hfailed]

theorem AgentRun.Utf8.setStatus {run : AgentRun} (h : run.Utf8) {status : Bytes}
    (hstatus : IsUtf8 status) (endedAtMs : Int) :
    { run with status := status, endedAtMs := endedAtMs : AgentRun }.Utf8 :=
  { h with status := hstatus }

theorem isUtf8_namedStatus {eventType status : Bytes} (h : namedStatus eventType = some status) :
    IsUtf8 status := by
  unfold namedStatus at h
  split_ifs at h <;> cases h <;> exact isUtf8_of_ascii (by decide)

/-- The status loop, by the types of the batch. -/
theorem updateStatus_status (now : Nat → Int) (i : Nat) (events : List AuditEvent)
    (run : AgentRun) : (updateStatus now i events run).status =
      lastSet namedStatus run.status (events.map AuditEvent.eventType) := by
  rw [updateStatus_eq, lastSet_eq_getLast?, List.filterMap_map]
  rfl

theorem AgentRun.Utf8.updateStatus {run : AgentRun} (h : run.Utf8) (now : Nat → Int) (i : Nat)
    (events : List AuditEvent) : (ControlDB.updateStatus now i events run).Utf8 := by
  have hstatus : IsUtf8 (ControlDB.updateStatus now i events run).status := by
    rw [updateStatus_status]
    rcases lastSet_cases namedStatus run.status (events.map AuditEvent.eventType) with hnone | hset
    · exact (lastSet_eq_init hnone).symm ▸ h.status
    · rcases hset with ⟨eventType, _, hnamed⟩
      exact isUtf8_namedStatus hnamed
  rw [updateStatus_eq] at hstatus ⊢
  exact h.setStatus hstatus _

/-! ## What a call leaves -/

/-- After a call on the run `runId`, `r` is its record, and the events `es` are stored behind those
that were there. -/
structure Leaves (s s' : Store) (runId : Bytes) (r : AgentRun) (es : List AuditEvent) : Prop where
  run : storedRun s'.rocks runId = some r
  events : storedEvents s'.rocks = storedEvents s.rocks ++ es

theorem Represents.fetchRun_ok {db : Rocks} {runId : Bytes} {run : AgentRun}
    (h : storedRun db runId = some run) :
    fetchRun db runId run.orgId run.projectId = .ok run := by
  rcases Option.bind_eq_some_iff.1 h with ⟨doc, hget, hdecode⟩
  cases hdoc : jsonToRun doc with
  | error e => simp [hdoc, Except.toOption] at hdecode
  | ok run' =>
      have hrun : run' = run := by simpa [hdoc, Except.toOption] using hdecode
      simp [fetchRun, hget, hdoc, hrun, Bind.bind, Except.bind, pure, Except.pure]

theorem Represents.get_runs_none {db : Rocks} (hdb : Represents db) {runId : Bytes}
    (h : storedRun db runId = none) : db.runs.get runId = none := by
  cases hget : db.runs.get runId with
  | none => rfl
  | some doc =>
      rcases hdb.get_runs hget with ⟨r, _, hstored, _⟩
      rw [h] at hstored
      cases hstored

section Calls

variable {env : Env} {now : Nat → Int} {s : Store} {runId orgId projectId : Bytes} {run : AgentRun}

theorem logThenWrite_rocks {α : Type} {opType : WalOpType} {doc : Json} {batch : List Put} {r : α}
    (hlib : JsonLibrary env) (hdoc : doc.Utf8) :
    (s.applyAll (logThenWrite env s opType doc batch r).effects).rocks = s.rocks.write batch := by
  rcases hlib.dumps hdoc with ⟨text, hdump, _⟩
  simp only [logThenWrite, hdump]
  rfl

/-- Writing a run alone. -/
theorem leaves_of_write {s' : Store} {r : AgentRun}
    (hrocks : s'.rocks = s.rocks.write [.runs runId (runToJson r)]) : Leaves s s' runId r [] where
  run := by
    have hruns : s'.rocks.runs = s.rocks.runs.put runId (runToJson r) := by rw [hrocks]; rfl
    rw [storedRun_put s.rocks hruns, if_pos rfl]
  events := by
    rw [hrocks, List.append_nil]
    rfl

theorem startRun_effects_of_stored {r : AgentRun} (h : storedRun s.rocks run.runId = some r) :
    (startRun env now s run).effects = [] := by
  rcases Option.bind_eq_some_iff.1 h with ⟨doc, hget, _⟩
  simp only [startRun, hget]

/-- The record that `start_run` makes of its argument. -/
def startedRun (now : Nat → Int) (run : AgentRun) : AgentRun :=
  { run with
    startedAtMs := if run.startedAtMs = 0 then now 0 else run.startedAtMs
    status := if run.status = [] then bytes "running" else run.status }

theorem startedRun_utf8 (h : run.Utf8) : (startedRun now run).Utf8 :=
  { h with status := h.status.orLiteral (by decide) }

theorem startRun_leaves (hlib : JsonLibrary env) (hrun : run.Utf8)
    (hnew : s.rocks.runs.get run.runId = none) :
    Leaves s (s.applyAll (startRun env now s run).effects) run.runId (startedRun now run) [] := by
  have hrocks : (s.applyAll (startRun env now s run).effects).rocks =
      s.rocks.write [.runs run.runId (runToJson (startedRun now run)),
        .runsByOrg (runsByOrgKey (startedRun now run)) run.runId] := by
    simp only [startRun, hnew]
    exact logThenWrite_rocks hlib (runToJson_utf8 (startedRun_utf8 hrun))
  constructor
  · have hruns : (s.applyAll (startRun env now s run).effects).rocks.runs =
        s.rocks.runs.put run.runId (runToJson (startedRun now run)) := by rw [hrocks]; rfl
    rw [storedRun_put s.rocks hruns, if_pos rfl]
  · rw [hrocks, List.append_nil]
    rfl

theorem commitRun_leaves (hlib : JsonLibrary env) (hrun : run.Utf8)
    (hfetch : fetchRun s.rocks runId orgId projectId = .ok run) :
    Leaves s (s.applyAll (commitRun env now s runId orgId projectId).effects) runId
      { run with status := bytes "committed", endedAtMs := now 0 } [] := by
  apply leaves_of_write
  simp only [commitRun, hfetch]
  exact logThenWrite_rocks hlib
    (runToJson_utf8 (hrun.setStatus (isUtf8_of_ascii (by decide)) _))

/-- The metadata text is empty, or parses to something that takes members. -/
def MetadataReadable (env : Env) (metadataJson : Bytes) : Prop :=
  ∃ j, env.parse (if metadataJson = [] then bytes "\x7b\x7d" else metadataJson) = some j ∧
    (j = .null ∨ ∃ members, j = .obj members)

/-- A document that takes members takes one more text. -/
theorem assign_utf8 (key : Bytes) (hkey : isAscii key = true) {j : Json} {reason : Bytes}
    (hj : j.Utf8) (hreason : IsUtf8 reason) (hmembers : j = .null ∨ ∃ members, j = .obj members) :
    ∃ j', j.assign key (.str reason) = .ok j' ∧ j'.Utf8 := by
  rcases hmembers with rfl | ⟨members, rfl⟩
  · exact ⟨_, rfl, .member hkey (.str hreason) .nil⟩
  · cases hj with
    | obj hkeys hvalues =>
        unfold Json.assign
        dsimp only
        split
        -- the member is replaced where it is, or added at the end
        · refine ⟨_, rfl, .obj (fun m hm => ?_) fun m hm => ?_⟩
          · rcases List.mem_map.1 hm with ⟨old, hold, rfl⟩
            split
            · exact isUtf8_of_ascii hkey
            · exact hkeys old hold
          · rcases List.mem_map.1 hm with ⟨old, hold, rfl⟩
            split
            · exact .str hreason
            · exact hvalues old hold
        · refine ⟨_, rfl, .obj (fun m hm => ?_) fun m hm => ?_⟩
          · rcases List.mem_append.1 hm with hold | hnew
            · exact hkeys m hold
            · exact List.mem_singleton.1 hnew ▸ isUtf8_of_ascii hkey
          · rcases List.mem_append.1 hm with hold | hnew
            · exact hvalues m hold
            · exact List.mem_singleton.1 hnew ▸ .str hreason

theorem withRollbackReason_ok {metadataJson reason : Bytes} (hlib : JsonLibrary env)
    (hreadable : MetadataReadable env metadataJson) (hreason : IsUtf8 reason) :
    ∃ text, withRollbackReason env metadataJson reason = .ok text ∧ IsUtf8 text := by
  rcases hreadable with ⟨j, hparse, hmembers⟩
  rcases assign_utf8 (bytes "rollback_reason") (by decide) (hlib.parses hparse) hreason hmembers with
    ⟨j', hassign, hj'⟩
  rcases hlib.dumps hj' with ⟨text, hdump, htext⟩
  refine ⟨text, ?_, htext⟩
  simp [withRollbackReason, hparse, hassign, hdump, Bind.bind, Except.bind, pure, Except.pure]

/-- Where a reason is given, the metadata must be readable. -/
theorem rollbackRun_leaves {reason : Bytes} (hlib : JsonLibrary env) (hrun : run.Utf8)
    (hreason : IsUtf8 reason) (hreadable : reason ≠ [] → MetadataReadable env run.metadataJson)
    (hfetch : fetchRun s.rocks runId orgId projectId = .ok run) :
    ∃ metadataJson, IsUtf8 metadataJson ∧
      Leaves s (s.applyAll (rollbackRun env now s runId orgId projectId reason).effects) runId
        { run with
          status := bytes "rolled_back", endedAtMs := now 0, metadataJson := metadataJson } [] := by
  have hmetadata : ∃ metadataJson, IsUtf8 metadataJson ∧
      (if reason = [] then .ok run.metadataJson
        else withRollbackReason env run.metadataJson reason : Except StoreError Bytes) =
          .ok metadataJson := by
    by_cases hempty : reason = []
    · exact ⟨run.metadataJson, hrun.metadataJson, if_pos hempty⟩
    · rcases withRollbackReason_ok hlib (hreadable hempty) hreason with ⟨text, hok, htext⟩
      exact ⟨text, htext, (if_neg hempty).trans hok⟩
  rcases hmetadata with ⟨metadataJson, htext, hok⟩
  have hstatus : IsUtf8 (bytes "rolled_back") := isUtf8_of_ascii (by decide)
  refine ⟨metadataJson, htext, leaves_of_write ?_⟩
  simp only [rollbackRun, hfetch, hok]
  exact logThenWrite_rocks hlib
    (runToJson_utf8 { hrun with status := hstatus, metadataJson := htext })

/-- The record that `append_events` leaves when it accepts `es` of a batch. -/
def appendedRun (now : Nat → Int) (events es : List AuditEvent) (run : AgentRun) : AgentRun :=
  updateStatus (fun i => now (events.length + i)) 0 events
    { run with
      lastEventHash := lastHash run.lastEventHash es
      eventCount := run.eventCount + es.length }

section Appended

variable (now : Nat → Int) (events es : List AuditEvent) (run : AgentRun)

theorem appendedRun_same : SameRun run (appendedRun now events es run) := by
  have hsame := (updateStatus_same (fun i => now (events.length + i)) 0 events
    { run with
      lastEventHash := lastHash run.lastEventHash es
      eventCount := run.eventCount + es.length }).1
  exact ⟨hsame.runId, hsame.orgId, hsame.projectId, hsame.startedAtMs⟩

theorem appendedRun_status : (appendedRun now events es run).status =
    lastSet namedStatus run.status (events.map AuditEvent.eventType) :=
  updateStatus_status _ _ _ _

theorem appendedRun_count : (appendedRun now events es run).eventCount =
    run.eventCount + es.length := by
  rw [appendedRun, updateStatus_eq]

variable {now}

theorem appendedRun_ended (hnow : ∀ i, now i ≠ 0) :
    (appendedRun now events es run).endedAtMs ≠ 0 ↔
      run.endedAtMs ≠ 0 ∨ ∃ ev ∈ events, EndsRun ev.eventType :=
  updateStatus_ended (fun i => hnow (events.length + i)) 0 events _

end Appended

theorem appendedRun_utf8 (now : Nat → Int) (events : List AuditEvent) {es : List AuditEvent}
    (h : run.Utf8) (hhash : IsUtf8 (lastHash run.lastEventHash es)) :
    (appendedRun now events es run).Utf8 := by
  have hcounted : ({ run with
      lastEventHash := lastHash run.lastEventHash es
      eventCount := run.eventCount + es.length } : AgentRun).Utf8 := { h with lastEventHash := hhash }
  exact hcounted.updateStatus _ _ _

theorem isUtf8_lastHash_accepted {db : Rocks} (i : Nat) (events : List AuditEvent) (seq : Nat)
    {prevHash : HashStr} (hprev : IsUtf8 prevHash) :
    IsUtf8 (lastHash prevHash
      (acceptedEvents env now db run runId orgId projectId i events seq prevHash)) := by
  induction events generalizing i seq prevHash with
  | nil => exact hprev
  | cons ev rest ih =>
      by_cases hdup : isDuplicate db ev
      · simpa only [acceptedEvents, hdup, if_true] using ih (i + 1) seq hprev
      · simp only [acceptedEvents, hdup, if_false, lastHash_cons]
        exact ih (i + 1) (seq + 1) (isUtf8_computeEventHash _ _)

/-- A batch whose texts are UTF-8 is written. -/
theorem appendEvents_returned {events : List AuditEvent} (hs : Consistent s)
    (hlib : JsonLibrary env) (hrun : run.Utf8) (hevents : ∀ ev ∈ events, ev.SentUtf8)
    (hfetch : fetchRun s.rocks runId orgId projectId = .ok run) :
    AppendReturned env now s runId orgId projectId events run
      (appendedRun now events (s.accepted env now run runId orgId projectId events) run) := by
  rcases fetchRun_spec hs.represents hfetch with ⟨_, hid, horg, hproject⟩
  have hloop := appendLoop_ok hlib hrun (hid ▸ hrun.runId) (horg ▸ hrun.orgId)
    (hproject ▸ hrun.projectId) now s.rocks 0 hevents
    { prevHash := run.lastEventHash, seq := s.globalSeq, walSeq := s.wal.lastSeq } hrun.lastEventHash
  rcases hloop with ⟨st, hloop⟩
  rcases appendLoop_accepted hloop with ⟨hstate, hcount⟩
  have hhash : IsUtf8 (lastHash run.lastEventHash
      (s.accepted env now run runId orgId projectId events)) :=
    isUtf8_lastHash_accepted 0 events s.globalSeq hrun.lastEventHash
  generalize hes : s.accepted env now run runId orgId projectId events = es at hstate hcount hhash ⊢
  have hr : updateStatus (fun i => now (events.length + i)) 0 events
      { run with
        lastEventHash := st.prevHash
        eventCount := run.eventCount + st.results.countP fun r => !r.wasDuplicate } =
        appendedRun now events es run := by
    simp [hstate, AppendState.acceptAll, appendedRun, hcount]
  rcases hlib.dumps (runToJson_utf8 (appendedRun_utf8 now events hrun hhash)) with ⟨text, hdump, _⟩
  refine ⟨hfetch, appendedRun_same now events es run, ?_, ?_, ?_, ?_⟩
  · rw [hes, appendedRun, updateStatus_eq]
  · rw [hes, appendedRun_count]
  · simp only [appendEvents, hfetch, hloop, hr, hdump]
    simp [hes, hstate, AppendState.acceptAll, appendBatch]
  · simp only [appendEvents, hfetch, hloop, hr, hdump]
    simp [hes, hstate, AppendState.acceptAll]

theorem appendEvents_leaves {events : List AuditEvent} (hs : Consistent s) (hlib : JsonLibrary env)
    (hrun : run.Utf8) (hevents : ∀ ev ∈ events, ev.SentUtf8)
    (hfetch : fetchRun s.rocks runId orgId projectId = .ok run) :
    Leaves s (s.applyAll (appendEvents env now s runId orgId projectId events).effects) runId
      (appendedRun now events (s.accepted env now run runId orgId projectId events) run)
      (s.accepted env now run runId orgId projectId events) := by
  have hreturned := @appendEvents_returned env now s runId orgId projectId run events hs hlib hrun
    hevents hfetch
  constructor
  · have hruns := congrArg Rocks.runs (hreturned.rocks.trans (write_appendBatch _ _ _ _ _))
    rw [storedRun_put s.rocks hruns, if_pos rfl]
  · rw [hreturned.rocks]
    exact hs.storedEvents_append env now events hfetch hreturned.same

end Calls

end ControlDB
