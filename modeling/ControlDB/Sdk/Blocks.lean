import ControlDB.Sdk.Delivery

/-!
# Agents with `with` blocks

What an agent does with a run, as a program: calls of the run, `with run.tool_call(name)` around a part
of the program, and exceptions that pass through or are caught.  `ToolCallContext.__enter__` and
`__exit__` emit the events of a tool call, so the timeline shows how the blocks of the program nested.
-/

namespace ControlDB
namespace Sdk

open Library Python

/-! ## Programs -/

/-- The exceptions are those of the library and of the agent's own code.  An open tool is named by how
many were entered behind it. -/
inductive Agent
  | skip
  | seq (first second : Agent)
  | call (c : Call)
  | raise (e : EnforceError)
  | input (k : Nat) (value : PyValue)
  | output (k : Nat) (value : PyValue) (redact : Option Bool)
  | withTool (name : String) (redact : Bool) (body : Agent)
  | attempt (body handler : Agent)

/-- The tools are those whose blocks were entered and not left, the innermost first; `made` counts all
that were made. -/
structure AgentState where
  run : RunState
  tools : List ToolCallContext
  made : Nat

abbrev AgentM (α : Type) : Type :=
  Prog EnforceError AgentState α

/-- `ToolCallContext.input`. -/
def ToolCallContext.setInput (tool : ToolCallContext) (value : PyValue) : ToolCallContext :=
  { tool with input := value }

/-- `ToolCallContext.output`. -/
def ToolCallContext.setOutput (tool : ToolCallContext) (value : PyValue) (redact : Option Bool) :
    ToolCallContext :=
  { tool with output := value, redact := redact.getD tool.redact }

/-- `ToolCallContext.__init__`. -/
def ToolCallContext.init (name : String) (redact : Bool) (stepId : String) : ToolCallContext :=
  { name, redact, stepId, input := PyValue.none, output := PyValue.none }

section Perform

variable (env : Env) (client : Client) (stepId : Nat → String) (describe : EnforceError → PyExc)

def inRun (m : RunM PUnit) : AgentM PUnit := do
  let a ← get
  modify fun a => { a with run := m.final a.run }
  Prog.lift (m.exec a.run).1

def modifyTools (f : List ToolCallContext → List ToolCallContext) : AgentM PUnit :=
  modify fun a => { a with tools := f a.tools }

/-- The tool of the innermost block, whose block is left. -/
def popTool (made : ToolCallContext) : AgentM ToolCallContext := do
  let a ← get
  modifyTools List.tail
  return a.tools.headD made

/-- `generate_step_id()` gives the step ids one after the other. -/
def newTool (name : String) (redact : Bool) : AgentM ToolCallContext := do
  let a ← get
  modify fun a => { a with made := a.made + 1 }
  return .init name redact (stepId a.made)

/-- The body of a `with` statement; what `__exit__` raises replaces the exception of the body. -/
def withBlock (tool : ToolCallContext) (body : AgentM PUnit) : AgentM PUnit := do
  inRun (call env client (.enterTool tool))
  modifyTools (tool :: ·)
  tryCatch body fun e => do
    let tool ← popTool tool
    inRun (call env client (.exitTool tool (some (describe e))))
    throw e
  let tool ← popTool tool
  inRun (call env client (.exitTool tool none))

def Agent.perform : Agent → AgentM PUnit
  | .skip => return
  | .seq first second => do
      first.perform
      second.perform
  | .call c => inRun (Sdk.call env client c)
  | .raise e => throw e
  | .input k value => modifyTools fun tools => tools.modify k (·.setInput value)
  | .output k value redact => modifyTools fun tools => tools.modify k (·.setOutput value redact)
  | .withTool name redact body => do
      let tool ← newTool stepId name redact
      withBlock env client describe tool body.perform
  | .attempt body handler => tryCatch body.perform fun _ => handler.perform

end Perform

/-! ## The types of the events of a call -/

/-- The types of the events that a call may emit. -/
def Call.eventTypes : Call → List String
  | .input _ _ _ => ["agent_run.started"]
  | .modelCall _ _ _ _ _ _ _ => ["model_call.completed", "model_call.failed"]
  | .enterTool tool => [tool.started.eventType]
  | .exitTool tool exc => [(tool.ended exc).eventType]
  | .memoryRead _ _ _ _ => ["memory.read"]
  | .memoryWrite _ _ _ _ => ["memory.write"]
  | .stateChange _ _ _ _ _ _ _ => ["state.change.applied", "state.change.proposed"]
  | .policyCheck _ _ _ _ _ => ["policy.check.passed", "policy.check.failed"]
  | .enforcePolicy _ _ =>
      ["policy.check.passed", "policy.check.failed", "policy.enforcement.blocked",
        "policy.enforcement.allowed", "approval.requested"]
  | .requestApproval _ _ _ _ => ["approval.requested"]
  | .humanApproval _ _ decision _ => [s!"approval.{decision}"]
  | .evidenceArtifact _ _ _ _ => ["evidence.artifact.created"]
  | .emit e => [e.eventType]
  | .flush => []
  | .commit => ["agent_run.committed"]
  | .rollback _ => ["agent_run.rolled_back"]
  | .fail _ => ["agent_run.failed"]
  | .exit _ => ["agent_run.failed", "agent_run.committed"]

/-- Only events of these types have been added. -/
def Adds (types : List String) (base : List EventEnvelope) (s : RunState) : Prop :=
  ∃ rest, s.world.emitted = base ++ rest ∧ ∀ event ∈ rest, event.eventType ∈ types

section Types

variable {env : Env} {client : Client} {types : List String} {base : List EventEnvelope} {α : Type}

theorem Silent.adds {m : RunM α} (h : Silent m) : Prog.Keeps (Adds types base) m := by
  rintro s ⟨rest, hemitted, htypes⟩
  exact ⟨rest, (h _ s rfl).trans hemitted, htypes⟩

theorem adds_emit {e : Emission} (htype : e.eventType ∈ types) :
    Prog.Keeps (Adds types base) (emit env client e) := by
  rintro s ⟨rest, hemitted, htypes⟩
  show Adds types base ((emit env client e).final s)
  cases hprepared : prepare env client e with
  | error x =>
      rw [Prog.final, exec_emit_error s hprepared]
      exact ⟨rest, hemitted, htypes⟩
  | ok prepared =>
      rcases emitted_emit_ok s hprepared with ⟨hash, hadded⟩
      refine ⟨rest ++ [eventOf env client s e prepared hash], ?_, ?_⟩
      · rw [hadded, hemitted, List.append_assoc]
      · exact List.forall_mem_append.2 ⟨htypes, List.forall_mem_singleton.2 htype⟩

theorem adds_callApi (c : ApiCall) : Prog.Keeps (Adds types base) (callApi env c) :=
  keeps_callApi_of_asked (fun _ hs => hs) c

theorem adds_policyCheck (policyId : String) (input : PyValue)
    (result : Option (List (String × PyValue))) (version hash : Option String)
    (hpassed : "policy.check.passed" ∈ types) (hfailed : "policy.check.failed" ∈ types) :
    Prog.Keeps (Adds types base) (policyCheck env client policyId input result version hash) := by
  refine (keeps_checkResult_of_asked (fun _ hs => hs) _ _ _ _ _).bind fun checked => ?_
  refine (adds_emit ?_).bind fun _ => Prog.keeps_pure _
  simp only [Emission.policyChecked]
  split
  · exact hpassed
  · exact hfailed

theorem adds_requestApproval (policyId : Option String) (input reason : PyValue)
    (approvalId : Option String) (htype : "approval.requested" ∈ types) :
    Prog.Keeps (Adds types base) (requestApproval env client policyId input reason approvalId) := by
  refine Prog.keeps_get.bind fun s => (adds_emit htype).bind fun _ => ?_
  refine silent_flush.adds.bind fun _ => (adds_callApi _).bind fun answer => ?_
  exact Prog.keeps_lift _

theorem adds_close (e : Emission) (status : String) (committed : Bool → Bool) {next : RunM α}
    (htype : e.eventType ∈ types) (hnext : Prog.Keeps (Adds types base) next) :
    Prog.Keeps (Adds types base) (do
      let _ ← emit env client e
      flush env client
      modifyRun fun run =>
        { run with status := status, committed := committed run.committed, closed := true }
      next) := by
  refine (adds_emit htype).bind fun _ => silent_flush.adds.bind fun _ => ?_
  refine Prog.Keeps.bind ?_ fun _ => hnext
  exact Prog.keeps_modify fun s hs => hs

theorem adds_commit (htype : "agent_run.committed" ∈ types) :
    Prog.Keeps (Adds types base) (commit env client) := by
  refine Prog.keeps_get.bind fun s => Prog.Keeps.ite (fun _ => ?_) fun _ => ?_
  · exact Prog.Keeps.bind (Prog.keeps_throw _) fun _ =>
      adds_close .committed "committed" (fun _ => true) htype (adds_callApi _)
  · exact adds_close .committed "committed" (fun _ => true) htype (adds_callApi _)

theorem adds_rollback (reason : Option String) (htype : "agent_run.rolled_back" ∈ types) :
    Prog.Keeps (Adds types base) (rollback env client reason) := by
  refine Prog.keeps_get.bind fun s => Prog.Keeps.ite (fun _ => ?_) fun _ => ?_
  · exact Prog.Keeps.bind (Prog.keeps_throw _) fun _ =>
      adds_close (.rolledBack reason) "rolled_back" id htype (adds_callApi _)
  · exact adds_close (.rolledBack reason) "rolled_back" id htype (adds_callApi _)

theorem adds_fail (error : PyExc) (htype : "agent_run.failed" ∈ types) :
    Prog.Keeps (Adds types base) (fail env client error) := by
  refine Prog.keeps_get.bind fun s => Prog.Keeps.ite (fun _ => Prog.keeps_pure _) fun _ => ?_
  refine (adds_emit htype).bind fun _ => silent_flush.adds.bind fun _ => ?_
  exact Prog.keeps_modify fun s hs => hs

/-- A call only emits events of its own types. -/
theorem adds_call (c : Call) : Prog.Keeps (Adds c.eventTypes base) (call env client c) := by
  cases c with
  | modelCall model provider prompt completion usage redact success =>
      refine (adds_emit ?_).discard
      cases success <;> simp [Emission.modelCall, Call.eventTypes]
  | stateChange entityType entityId before after reason applied redact =>
      refine (adds_emit ?_).discard
      cases applied <;> simp [Emission.stateChange, Call.eventTypes]
  | policyCheck policyId input result version hash =>
      exact (adds_policyCheck _ _ _ _ _ (by simp [Call.eventTypes])
        (by simp [Call.eventTypes])).discard
  | enforcePolicy policyId input =>
      refine Prog.Keeps.discard ((adds_policyCheck _ _ _ _ _ (by simp [Call.eventTypes])
        (by simp [Call.eventTypes])).bind fun result => ?_)
      refine Prog.Keeps.ite (fun _ => ?_) fun _ => Prog.Keeps.ite (fun _ => ?_) fun _ => ?_
      · exact (adds_emit (by simp [Emission.enforcement, Call.eventTypes])).bind fun _ =>
          Prog.keeps_throw _
      · exact (adds_requestApproval _ _ _ _ (by simp [Call.eventTypes])).bind fun _ =>
          Prog.keeps_throw _
      · exact (adds_emit (by simp [Emission.enforcement, Call.eventTypes])).bind fun _ =>
          Prog.keeps_pure _
  | requestApproval policyId input reason approvalId =>
      exact (adds_requestApproval _ _ _ _ (by simp [Call.eventTypes])).discard
  | humanApproval approvalId reviewerId decision reason =>
      have hemit : Prog.Keeps (Adds (Call.eventTypes (.humanApproval approvalId reviewerId decision
          reason)) base) (emit env client (.humanApproval approvalId reviewerId decision reason)) :=
        adds_emit List.mem_cons_self
      refine Prog.Keeps.discard (Prog.Keeps.ite (fun _ => ?_) fun _ => hemit)
      exact Prog.Keeps.bind (Prog.keeps_throw _) fun _ => hemit
  | flush => exact silent_flush.adds
  | commit => exact (adds_commit (by simp [Call.eventTypes])).discard
  | rollback reason => exact (adds_rollback reason (by simp [Call.eventTypes])).discard
  | fail error => exact adds_fail error (by simp [Call.eventTypes])
  | exit exc =>
      refine Prog.Keeps.discard ?_
      cases exc with
      | some exc =>
          have hfail : Prog.Keeps (Adds (Call.eventTypes (.exit (some exc))) base)
              (fail env client exc) := adds_fail exc (by simp [Call.eventTypes])
          exact (hfail.tryCatch fun _ => Prog.keeps_pure _).bind fun _ => Prog.keeps_pure _
      | none =>
          refine Prog.keeps_get.bind fun s => Prog.Keeps.ite (fun _ => ?_) fun _ => Prog.keeps_pure _
          exact (adds_commit (by simp [Call.eventTypes])).bind fun _ => Prog.keeps_pure _
  | _ =>
      refine Prog.Keeps.discard (adds_emit ?_)
      exact List.mem_cons_self

end Types


/-! ## Closed forms -/

section Closed

variable {env : Env} {client : Client} {stepId : Nat → String} {describe : EnforceError → PyExc}

theorem exec_inRun (m : RunM PUnit) (a : AgentState) :
    Prog.exec (inRun m) a = ((Prog.exec m a.run).1, { a with run := m.final a.run }) := by
  simp [inRun, Prog.exec_bind]

/-- The exception that a block is left with. -/
def leaving (describe : EnforceError → PyExc) : Except EnforceError PUnit → Option PyExc
  | .ok _ => none
  | .error e => some (describe e)

/-- The state in which the body of a block ends, with the block left. -/
def AgentState.leave (b : AgentState) (s : RunState) : AgentState :=
  { b with run := s, tools := b.tools.tail }

theorem exec_withBlock (tool : ToolCallContext) (body : AgentM PUnit) (a : AgentState) :
    Prog.exec (withBlock env client describe tool body) a =
      let entered := Prog.exec (emit env client tool.started) a.run
      match entered.1 with
      | .error x => (.error x, { a with run := entered.2 })
      | .ok _ =>
          let out := Prog.exec body { a with run := entered.2, tools := tool :: a.tools }
          let tool := out.2.tools.headD tool
          let left := Prog.exec (emit env client (tool.ended (leaving describe out.1))) out.2.run
          match left.1 with
          | .error x => (.error x, out.2.leave left.2)
          | .ok _ => (out.1, out.2.leave left.2) := by
  have henter : ∀ tool s, Prog.exec (call env client (.enterTool tool)) s =
      ((Prog.exec (emit env client tool.started) s).1.map fun _ => ⟨⟩,
        (Prog.exec (emit env client tool.started) s).2) :=
    fun tool s => Prog.exec_discard _ s
  have hexit : ∀ tool exc s, Prog.exec (call env client (.exitTool tool exc)) s =
      ((Prog.exec (emit env client (tool.ended exc)) s).1.map fun _ => ⟨⟩,
        (Prog.exec (emit env client (tool.ended exc)) s).2) :=
    fun tool exc s => Prog.exec_discard _ s
  simp only [withBlock, Prog.exec_bind, exec_inRun, Prog.final, henter, hexit, Prog.exec_tryCatch,
    popTool, modifyTools, Prog.exec_get, Prog.exec_modify, Prog.exec_pure]
  rcases Prog.exec (emit env client tool.started) a.run with ⟨x | event, s⟩
  · rfl
  · simp only [Except.map]
    rcases Prog.exec body { a with run := s, tools := tool :: a.tools } with ⟨e | _, b⟩
    · dsimp only [leaving]
      rcases Prog.exec (emit env client ((b.tools.headD tool).ended (some (describe e)))) b.run with
        ⟨x | event', s'⟩
      · rfl
      · rfl
    · dsimp only [leaving]
      rcases Prog.exec (emit env client ((b.tools.headD tool).ended none)) b.run with ⟨x | event', s'⟩
      · rfl
      · rfl

end Closed

end Sdk
end ControlDB
