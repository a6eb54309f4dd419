import ControlDB.Library.Runs
import ControlDB.Sdk.Delivery

/-!
# The keys of the events of a client

`ControlDB.run` of `client.py`, and the `idempotency_key` of the events of all its runs.  A key names
the run, the number of the step and the type.  Each `Run` object counts its own steps, so two of them
for one run give the same keys, and a number that the caller chose may be one that was counted.
-/

namespace ControlDB
namespace Sdk

open Library Python

/-! ## The key -/

theorem toList_eventKey (runId : String) (n : Int) (eventType : String) :
    (eventKey runId (some n) eventType).toList =
      runId.toList ++ ':' :: (intText n ++ ':' :: eventType.toList) := by
  show (runId ++ ":" ++ String.ofList (intText n) ++ ":" ++ eventType).toList = _
  simp

theorem colon_notMem_intText (n : Int) : ':' ∉ intText n := by
  intro hcolon
  rcases mem_intText hcolon with hdigit | hminus
  · exact absurd hdigit (by decide)
  · exact absurd hminus (by decide)

theorem colon_notMem_eventTypes {eventType : String} (h : eventType ∈ eventTypes) :
    ':' ∉ eventType.toList := by
  have hall : ∀ t ∈ eventTypes, ':' ∉ t.toList := by decide
  exact hall eventType h

/-- The key is read from its end: neither the type nor the number has a colon in it. -/
theorem eventKey_inj {runId runId' : String} {n n' : Int} {eventType eventType' : String}
    (htype : eventType ∈ eventTypes) (htype' : eventType' ∈ eventTypes) :
    eventKey runId (some n) eventType = eventKey runId' (some n') eventType' ↔
      runId = runId' ∧ n = n' ∧ eventType = eventType' := by
  constructor
  · intro h
    have hplain : SuffixFreeAfter ':' {text : List Char | ':' ∉ text} :=
      suffixFreeAfter_of_notMem fun _ htext => htext
    have hlist := congrArg String.toList h
    rw [toList_eventKey, toList_eventKey, ← List.cons_append, ← List.cons_append,
      ← List.append_assoc, ← List.append_assoc] at hlist
    rcases hplain (colon_notMem_eventTypes htype) (colon_notMem_eventTypes htype') hlist with
      ⟨heventType, hfront⟩
    rcases hplain (colon_notMem_intText n) (colon_notMem_intText n') hfront with ⟨hn, hrunId⟩
    exact ⟨String.toList_inj.1 hrunId, intText_injective hn, String.toList_inj.1 heventType⟩
  · rintro ⟨rfl, rfl, rfl⟩
    rfl

/-! ## The runs of a client -/

/-- The arguments of `ControlDB.run`. -/
structure RunOptions where
  agentId : String
  agentVersion : Option String
  environment : Option String
  metadata : List (String × PyValue)
  traceId : Option String
  runId : Option String

/-- What becomes of the requests that start a run, `generate_run_id()`, and `str`. -/
structure StartEnv where
  startRun : Nat → PyValue → Except SdkError PyJson
  generateRunId : Nat → String
  text : PyJson → String

/-- The runs that a client has opened, and the surroundings that they share. -/
structure Fleet where
  world : World
  starts : Nat
  runs : List Run

def Fleet.init : Fleet :=
  { world := World.init, starts := 0, runs := [] }

section Client

variable (env : Env) (starting : StartEnv) (client : Client)

def startBody (options : RunOptions) : PyValue :=
  .dict
    [("agent_id", PyValue.str options.agentId),
      ("agent_version", PyValue.optStr options.agentVersion),
      ("environment", PyValue.str (if given options.environment then options.environment.getD ""
        else client.environment)),
      ("org_id", PyValue.str client.orgId),
      ("project_id", PyValue.str client.project),
      ("metadata", .dict options.metadata),
      ("run_id", PyValue.optStr options.runId)]

/-- `response.get("run_id") or run_id or generate_run_id()`. -/
def assignedRunId (n : Nat) (response : Members) (runId : Option String) : String :=
  let answered := PyJson.get response "run_id"
  if answered.truthy then Py.format starting.text answered
  else if given runId then runId.getD ""
  else starting.generateRunId n

/-- `ControlDB.run`. -/
def openRun (fleet : Fleet) (options : RunOptions) : Fleet :=
  let fleet' := { fleet with starts := fleet.starts + 1 }
  match (starting.startRun fleet.starts (startBody client options)).bind asDict with
  | .error _ => fleet'
  | .ok response =>
      let environment :=
        if given options.environment then options.environment.getD "" else client.environment
      { fleet' with
        runs := fleet.runs ++
          [Run.init (assignedRunId starting fleet.starts response options.runId) options.agentId
            options.agentVersion environment options.traceId] }

/-- What can be done with a client and its runs, which are named by the order of their opening. -/
inductive FleetCall
  | run (options : RunOptions)
  | emit (i : Nat) (e : Emission)
  | flush (i : Nat)

/-- A method of a run, if there is one of that number. -/
def onRun {α : Type} (fleet : Fleet) (i : Nat) (m : RunM α) : Fleet :=
  match fleet.runs[i]? with
  | none => fleet
  | some run =>
      let s := m.final { world := fleet.world, run }
      { fleet with world := s.world, runs := fleet.runs.set i s.run }

def fleetStep (fleet : Fleet) : FleetCall → Fleet
  | .run options => openRun starting client fleet options
  | .emit i e => onRun fleet i (Sdk.emit env client e)
  | .flush i => onRun fleet i (Sdk.flush env client)

end Client

/-! ## Which keys are new -/

/-- The keys of all events that the runs of the client have emitted. -/
def Fleet.keys (fleet : Fleet) : List (Option String) :=
  fleet.world.emitted.map EventEnvelope.idempotencyKey

/-- No event that was emitted for this run, by whatever object, has this number and this type. -/
def Fleet.unused (fleet : Fleet) (runId : String) (n : Int) (eventType : String) : Prop :=
  ∀ event ∈ fleet.world.emitted,
    ¬ (event.runId = runId ∧ event.stepIndex = some n ∧ event.eventType = eventType)

/-- An event that can be prepared has a number and a type that are new for its run. -/
def Fresh (env : Env) (client : Client) (fleet : Fleet) : FleetCall → Prop
  | .emit i e =>
      ∀ run prepared, fleet.runs[i]? = some run → prepare env client e = .ok prepared →
        fleet.unused run.runId (e.index run) e.eventType
  | _ => True

/-- Every event has the key of its run, its number and its type. -/
def Keyed (fleet : Fleet) : Prop :=
  ∀ event ∈ fleet.world.emitted, event.eventType ∈ eventTypes ∧
    ∃ n, event.stepIndex = some n ∧
      event.idempotencyKey = some (eventKey event.runId (some n) event.eventType)

section Steps

variable {env : Env} {starting : StartEnv} {client : Client}

theorem eventType_mem_of_prepare {e : Emission} {prepared : Prepared}
    (h : prepare env client e = .ok prepared) : e.eventType ∈ eventTypes := by
  by_contra htype
  rw [prepare, if_neg htype] at h
  cases h

theorem onRun_none {fleet : Fleet} {i : Nat} (h : fleet.runs[i]? = none) {α : Type} (m : RunM α) :
    onRun fleet i m = fleet := by
  rw [onRun, h]

theorem world_onRun {fleet : Fleet} {i : Nat} {run : Run} (h : fleet.runs[i]? = some run)
    {α : Type} (m : RunM α) :
    (onRun fleet i m).world = (m.final { world := fleet.world, run }).world := by
  rw [onRun, h]

theorem world_openRun (fleet : Fleet) (options : RunOptions) :
    (openRun starting client fleet options).world = fleet.world := by
  unfold openRun
  cases (starting.startRun fleet.starts (startBody client options)).bind asDict <;> rfl

/-- A call adds nothing, or the one event that it prepared. -/
theorem emitted_fleetStep (fleet : Fleet) (c : FleetCall) :
    ((fleetStep env starting client fleet c).world.emitted = fleet.world.emitted ∧
        Fresh env client fleet c) ∨
      ∃ i e run prepared hash, c = .emit i e ∧ fleet.runs[i]? = some run ∧
        prepare env client e = .ok prepared ∧
        (fleetStep env starting client fleet c).world.emitted =
          fleet.world.emitted ++
            [eventOf env client { world := fleet.world, run } e prepared hash] := by
  cases c with
  | run options =>
      left
      rw [fleetStep, world_openRun]
      exact ⟨rfl, trivial⟩
  | flush i =>
      left
      refine ⟨?_, trivial⟩
      rw [fleetStep]
      cases hrun : fleet.runs[i]? with
      | none => rw [onRun_none hrun]
      | some run => rw [world_onRun hrun, silent_flush.final_eq]
  | emit i e =>
      cases hrun : fleet.runs[i]? with
      | none =>
          left
          rw [fleetStep, onRun_none hrun]
          refine ⟨rfl, fun run prepared hsome _ => ?_⟩
          rw [hrun] at hsome
          cases hsome
      | some run =>
          cases hprepared : prepare env client e with
          | error x =>
              left
              rw [fleetStep, world_onRun hrun, Prog.final, exec_emit_error _ hprepared]
              refine ⟨rfl, fun run prepared _ hok => ?_⟩
              rw [hprepared] at hok
              cases hok
          | ok prepared =>
              right
              rcases emitted_emit_ok { world := fleet.world, run } hprepared with ⟨hash, hadded⟩
              refine ⟨i, e, run, prepared, hash, rfl, hrun, hprepared, ?_⟩
              rw [fleetStep, world_onRun hrun, hadded]

theorem keyed_eventOf {s : RunState} {e : Emission} {prepared : Prepared} {hash : String}
    (h : prepare env client e = .ok prepared) :
    let event := eventOf env client s e prepared hash
    event.eventType ∈ eventTypes ∧ ∃ n, event.stepIndex = some n ∧
      event.idempotencyKey = some (eventKey event.runId (some n) event.eventType) :=
  ⟨eventType_mem_of_prepare h, e.index s.run, rfl, rfl⟩

theorem keyed_step {fleet : Fleet} (h : Keyed fleet) (c : FleetCall) :
    Keyed (fleetStep env starting client fleet c) := by
  intro event hevent
  rcases @emitted_fleetStep env starting client fleet c with
    ⟨hsame, _⟩ | ⟨i, e, run, prepared, hash, _, _, hprepared, hadded⟩
  · rw [hsame] at hevent
    exact h event hevent
  · rw [hadded] at hevent
    rcases List.mem_append.1 hevent with hold | hnew
    · exact h event hold
    · rw [List.mem_singleton.1 hnew]
      exact keyed_eventOf hprepared

/-- The keys stay distinct exactly when the number and the type of the event are new for its run. -/
theorem nodup_step_iff {fleet : Fleet} (hkeyed : Keyed fleet) (h : fleet.keys.Nodup)
    (c : FleetCall) :
    (fleetStep env starting client fleet c).keys.Nodup ↔ Fresh env client fleet c := by
  rcases @emitted_fleetStep env starting client fleet c with
    ⟨hsame, hfresh⟩ | ⟨i, e, run, prepared, hash, rfl, hrun, hprepared, hadded⟩
  · rw [Fleet.keys, hsame]
    exact ⟨fun _ => hfresh, fun _ => h⟩
  · have htype := eventType_mem_of_prepare hprepared
    have hkey : ∀ event ∈ fleet.world.emitted,
        event.idempotencyKey = some (eventKey run.runId (some (e.index run)) e.eventType) ↔
          event.runId = run.runId ∧ event.stepIndex = some (e.index run) ∧
            event.eventType = e.eventType := by
      intro event hevent
      rcases hkeyed event hevent with ⟨hknown, n, hn, hkeyOf⟩
      rw [hkeyOf, Option.some.injEq, eventKey_inj hknown htype, hn, Option.some.injEq]
    have hnodup : (fleetStep env starting client fleet (.emit i e)).keys.Nodup ↔
        some (eventKey run.runId (some (e.index run)) e.eventType) ∉ fleet.keys := by
      rw [Fleet.keys, hadded, List.map_append, List.map_singleton, ← List.concat_eq_append,
        List.nodup_concat]
      exact and_iff_left h
    rw [hnodup]
    constructor
    · intro hnew run' prepared' hrun' _ event hevent hsame
      obtain rfl : run = run' := Option.some.inj (hrun.symm.trans hrun')
      refine hnew (List.mem_map.2 ⟨event, hevent, ?_⟩)
      exact (hkey event hevent).2 hsame
    · intro hfresh hmem
      rcases List.mem_map.1 hmem with ⟨event, hevent, hsame⟩
      exact hfresh run prepared hrun hprepared event hevent ((hkey event hevent).1 hsame)

end Steps

/-- The keys of the events of a client are distinct throughout exactly when every event that it emits
has a number and a type that are new for the run. -/
theorem keys_nodup_iff (env : Env) (starting : StartEnv) (client : Client)
    (calls : List FleetCall) :
    Throughout (fleetStep env starting client) (fun fleet => fleet.keys.Nodup) (fun _ _ => True)
        Fleet.init calls ↔
      Meets (fleetStep env starting client) (Fresh env client) Fleet.init calls := by
  have hkeyed : Keyed Fleet.init := fun _ hevent => absurd hevent List.not_mem_nil
  have hstep : ∀ {fleet c}, Keyed fleet → fleet.keys.Nodup →
      (True ∧ (fleetStep env starting client fleet c).keys.Nodup ↔ Fresh env client fleet c) := by
    intro fleet c hkeyed hnodup
    rw [true_and]
    exact nodup_step_iff hkeyed hnodup c
  exact @throughout_iff_meets _ _ (fleetStep env starting client) (fun fleet => fleet.keys.Nodup)
    _ _ Keyed (fun h => keyed_step h _) hstep _ hkeyed List.nodup_nil calls

/-! ## A run that is taken up again -/

namespace RunExample

/-- The collector answers the start of a run with the `run_id` of the request. -/
def starting : StartEnv :=
  { startRun := fun _ _ => .ok (.obj [("run_id", PyJson.str "run_1")])
    generateRunId := fun _ => "run_0"
    text := fun _ => "run_1" }

/-- `client.run(agent_id="repeat-agent", run_id="run_1")`. -/
def takenUp : FleetCall :=
  .run
    { agentId := "repeat-agent"
      agentVersion := none
      environment := none
      metadata := []
      traceId := none
      runId := some "run_1" }

/-- `run.emit("memory.write")` on the run of this number. -/
def writeOn (i : Nat) : FleetCall :=
  .emit i { eventType := "memory.write", payload := .dict [] }

end RunExample

/-- Both objects number their first event 0. -/
theorem takenUp_keys_repeat :
    ¬ Throughout (fleetStep RunExample.env RunExample.starting RunExample.client)
      (fun fleet => fleet.keys.Nodup) (fun _ _ => True) Fleet.init
      [RunExample.takenUp, RunExample.writeOn 0, RunExample.takenUp, RunExample.writeOn 1] := by
  have hevaluated : ([RunExample.takenUp, RunExample.writeOn 0, RunExample.takenUp,
      RunExample.writeOn 1].foldl
        (fleetStep RunExample.env RunExample.starting RunExample.client) Fleet.init).keys =
      [some "run_1:0:memory.write", some "run_1:0:memory.write"] := by
    decide +kernel
  intro h
  have hnodup := h.final
  rw [hevaluated] at hnodup
  exact absurd hnodup (by decide)

end Sdk
end ControlDB
