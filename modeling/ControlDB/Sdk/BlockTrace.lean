import ControlDB.Library.Nesting
import ControlDB.Sdk.Blocks

/-!
# The tool calls in a timeline

An event of a tool call is a mark, and the marks of a program nest as its `with` blocks do
(`toolCalls_nested`), whatever is raised on the way.  A tool call whose events cannot fail to be emitted
has both its start and its end (`withTool_bracketed`).
-/

namespace ControlDB
namespace Sdk

open Library Python

/-! ## Marks -/

def toolCallTypes : List String :=
  ["tool_call.started", "tool_call.completed", "tool_call.failed"]

/-- The mark that an event of a tool call leaves under its step id. -/
def EventEnvelope.mark (event : EventEnvelope) : Option (Mark (Option String)) :=
  if event.eventType = "tool_call.started" then some (.start event.stepId)
  else if event.eventType = "tool_call.completed" then some (.stop event.stepId false)
  else if event.eventType = "tool_call.failed" then some (.stop event.stepId true)
  else none

def marks (events : List EventEnvelope) : List (Mark (Option String)) :=
  events.filterMap EventEnvelope.mark

theorem marks_append (events events' : List EventEnvelope) :
    marks (events ++ events') = marks events ++ marks events' :=
  List.filterMap_append

theorem marks_eq_nil {events : List EventEnvelope}
    (h : ∀ event ∈ events, event.eventType ∉ toolCallTypes) : marks events = [] := by
  refine List.filterMap_eq_nil_iff.2 fun event hmem => ?_
  have htype := h event hmem
  simp only [toolCallTypes, List.mem_cons, List.not_mem_nil, or_false, not_or] at htype
  rw [EventEnvelope.mark, if_neg htype.1, if_neg htype.2.1, if_neg htype.2.2]

namespace Agent

/-- The events of tool calls are left to the `with` blocks. -/
def Plain : Agent → Prop
  | .skip => True
  | .seq first second => first.Plain ∧ second.Plain
  | .call c => ∀ type ∈ c.eventTypes, type ∉ toolCallTypes
  | .raise _ => True
  | .input _ _ => True
  | .output _ _ _ => True
  | .withTool _ _ body => body.Plain
  | .attempt body handler => body.Plain ∧ handler.Plain

/-- The inputs and outputs of the tools have the property. -/
def Values (V : PyValue → Prop) : Agent → Prop
  | .skip => True
  | .seq first second => first.Values V ∧ second.Values V
  | .call _ => True
  | .raise _ => True
  | .input _ value => V value
  | .output _ value _ => V value
  | .withTool _ _ body => body.Values V
  | .attempt body handler => body.Values V ∧ handler.Values V

end Agent

/-- No event of a tool call whose input and output have the property can raise: whatever becomes of a
batch, `post_events` returns, and the payloads can be captured. -/
structure NeverRaises (env : Env) (client : Client) (V : PyValue → Prop) : Prop where
  posts : ∀ n runId events key, ∃ answer,
    posted client (env.request n runId events key) (env.spoolWrite n) = .ok answer
  started : ∀ tool : ToolCallContext, V tool.input → V tool.output →
    ∃ prepared, prepare env client tool.started = .ok prepared
  ended : ∀ tool : ToolCallContext, V tool.input → V tool.output →
    ∀ exc, ∃ prepared, prepare env client (tool.ended exc) = .ok prepared
  none : V PyValue.none

def ToolCallContext.Valued (V : PyValue → Prop) (tool : ToolCallContext) : Prop :=
  V tool.input ∧ V tool.output

/-! ## One event -/

section Emitting

variable {env : Env} {client : Client} {V : PyValue → Prop}

/-- An event is emitted under its type and step, or there is an exception instead. -/
theorem emitted_emit (e : Emission) (s : RunState) :
    (∃ event, ((emit env client e).final s).world.emitted = s.world.emitted ++ [event] ∧
      event.eventType = e.eventType ∧ event.stepId = e.stepId) ∨
    ((emit env client e).final s).world.emitted = s.world.emitted ∧
      ∃ x, (Prog.exec (emit env client e) s).1 = .error x := by
  cases hprepared : prepare env client e with
  | error x =>
      refine .inr ⟨?_, .raised x, ?_⟩
      · rw [Prog.final, exec_emit_error s hprepared]
      · rw [exec_emit_error s hprepared]
  | ok prepared =>
      rcases emitted_emit_ok s hprepared with ⟨hash, hadded⟩
      exact .inl ⟨eventOf env client s e prepared hash, hadded, rfl, rfl⟩

theorem exec_flush_ok (h : NeverRaises env client V) (s : RunState) :
    (Prog.exec (flush env client) s).1 = .ok ⟨⟩ := by
  by_cases hbuffer : s.run.buffer = []
  · rw [exec_flush_nil hbuffer]
  · rcases h.posts s.world.posts s.run.runId s.run.buffer (batchKey s.run.runId s.run.buffer) with
      ⟨answer, hanswer⟩
    rw [exec_flush hbuffer, postOutcome, hanswer]

theorem exec_emit_ok (h : NeverRaises env client V) {e : Emission} {prepared : Prepared}
    (hprepared : prepare env client e = .ok prepared) (s : RunState) :
    ∃ event, (Prog.exec (emit env client e) s).1 = .ok event := by
  rcases @exists_computeEventHash env.sha256 (draft env client s e prepared)
    (encodable_of_prepare hprepared) with ⟨hash, hhash⟩
  have hbuilt := exec_buildEnvelope_ok s hprepared hhash
  have hbuffered : ∀ event s', (Prog.exec (bufferEvent env client event) s').1 = .ok ⟨⟩ := by
    intro event s'
    simp only [bufferEvent, Prog.exec_bind, exec_modifyWorld, exec_modifyRun, Prog.exec_get]
    split
    · exact exec_flush_ok h _
    · rfl
  simp only [emit, Prog.exec_bind, hbuilt, Prog.exec_get]
  rcases hexec : Prog.exec (bufferEvent env client _) _ with ⟨r, s'⟩
  have hr : r = .ok ⟨⟩ := by
    rw [← hbuffered _ _, hexec]
  rw [hr]
  exact ⟨_, rfl⟩

end Emitting

/-! ## When nothing is raised -/

section Smooth

variable {env : Env} {client : Client}

/-- What a rule puts in the place of a value can be encoded. -/
theorem encodable_applyMode (sha256 : Sha256) (repr : PyValue → String) (value : PyValue)
    (mode : RedactionMode) : encodable (applyMode sha256 repr value mode).toJson = true := by
  cases mode <;> simp [applyMode, encodable]

theorem encodable_redactMember {sha256 : Sha256} {repr : PyValue → String}
    {rules : List RedactionRule} {key : String} {value walked : PyValue}
    (h : encodable walked.toJson = true) :
    encodable (redactMember sha256 repr rules key value walked).toJson = true := by
  unfold redactMember
  split
  · exact encodable_applyMode sha256 repr value _
  · exact h

theorem encodableItems_iff {items : List PyJson} :
    encodableItems items = true ↔ ∀ v ∈ items, encodable v = true := by
  induction items with
  | nil => simp [encodableItems]
  | cons v rest ih => simp [encodableItems, ih]

/-- Redaction keeps what can be encoded. -/
theorem encodable_redactValue (sha256 : Sha256) (repr : PyValue → String)
    (rules : List RedactionRule) (v : PyValue) (h : encodable v.toJson = true) :
    encodable (redactValue sha256 repr rules v).toJson = true := by
  induction v using PyValue.induct with
  | hleaf l =>
      cases l with
      | str s =>
          rw [redactValue, redactText]
          split
          · exact encodable_applyMode sha256 repr _ _
          · exact h
      | none => simpa [redactValue] using h
      | bool b => simpa [redactValue] using h
      | int n => simpa [redactValue] using h
      | float x => simpa [redactValue] using h
      | unencodable => simpa [redactValue] using h
  | hlist items ih =>
      rw [redactValue_list, PyValue.toJson_list, encodable, encodableItems_iff, List.map_map]
      rw [PyValue.toJson_list, encodable, encodableItems_iff] at h
      refine List.forall_mem_map.2 fun v hv => ih v hv ?_
      exact h _ (List.mem_map_of_mem hv)
  | htuple items ih => simpa [redactValue] using h
  | hdict members ih =>
      rw [redactValue, redactMembers_eq_map, PyValue.toJson_dict, encodable, encodableMembers_iff,
        List.map_map]
      rw [PyValue.toJson_dict, encodable, encodableMembers_iff] at h
      refine List.forall_mem_map.2 fun m hm => encodable_redactMember (ih m hm ?_)
      exact h _ (List.mem_map_of_mem hm)

theorem captureMode_none (client : Client) :
    captureMode client none = .ok client.defaultPayloadMode := by
  unfold captureMode
  cases client.defaultPayloadMode <;> rfl

theorem payloadHash_ok {v : PyValue} (h : encodable v.toJson = true) :
    ∃ hash, payloadHash env v = .ok hash := by
  unfold payloadHash Python.computePayloadHash canonicalJson
  split_ifs with hnone hempty
  · exact ⟨_, rfl⟩
  · exact absurd rfl hempty
  · exact ⟨_, rfl⟩

/-- Without callbacks, a payload that can be encoded can be captured in every mode. -/
theorem prepare_ok (hcallbacks : client.redactionCallbacks = []) {e : Emission}
    (htype : e.eventType ∈ eventTypes) (hmode : e.payloadMode = none)
    (hpayload : encodable e.payload.toJson = true) :
    ∃ prepared, prepare env client e = .ok prepared := by
  have hredacted : ∀ v redact, encodable v.toJson = true →
      ∃ w, redactedPayload env client v redact = .ok w ∧ encodable w.toJson = true := by
    intro v redact hv
    unfold redactedPayload applyRedaction
    split
    · split
      · exact ⟨_, rfl, rfl⟩
      · rw [hcallbacks]
        exact ⟨_, rfl, encodable_redactValue _ _ _ v hv⟩
    · exact ⟨v, rfl, hv⟩
  have hcaptured : ∀ v redact mode, encodable v.toJson = true →
      ∃ prepared, capturePayload env client v redact mode = .ok prepared := by
    intro v redact mode hv
    rcases hredacted v redact hv with ⟨w, hw, hencodable⟩
    have hboth : encodable (captured v w mode).2.toJson = true := by
      cases mode
      · exact hencodable
      · exact hencodable
      · exact hencodable
      · exact hv
      · exact hv
    rcases @payloadHash_ok env _ hboth with ⟨hash, hhash⟩
    exact ⟨⟨mode, (captured v w mode).1, some hash⟩, by
      simp only [capturePayload, hw, hhash, bind, Except.bind, pure, Except.pure]⟩
  rw [prepare, if_pos htype, hmode, captureMode_none]
  simp only [bind, Except.bind]
  split
  · exact ⟨_, rfl⟩
  · exact hcaptured _ _ _ hpayload

/-- If `post_events` always returns and there are no callbacks, a tool call whose values can be encoded
never raises. -/
theorem neverRaises_of_encodable (hcallbacks : client.redactionCallbacks = [])
    (hposts : ∀ n runId events key, ∃ answer,
      posted client (env.request n runId events key) (env.spoolWrite n) = .ok answer) :
    NeverRaises env client fun v => encodable v.toJson = true where
  posts := hposts
  started tool hinput _ := by
    have htype : "tool_call.started" ∈ eventTypes := by decide
    refine prepare_ok hcallbacks htype rfl ?_
    simp [ToolCallContext.started, PyValue.str, encodable, encodableMembers, hinput]
  ended tool hinput houtput exc := by
    cases exc with
    | none =>
        have htype : "tool_call.completed" ∈ eventTypes := by decide
        refine prepare_ok hcallbacks htype rfl ?_
        simp [ToolCallContext.ended, PyValue.str, encodable, encodableMembers, hinput, houtput]
    | some exc =>
        have htype : "tool_call.failed" ∈ eventTypes := by decide
        refine prepare_ok hcallbacks htype rfl ?_
        simp [ToolCallContext.ended, PyValue.str, encodable, encodableMembers, hinput]
  none := rfl

end Smooth

/-! ## What a program leaves in the timeline -/

section Traces

variable {env : Env} {client : Client} {stepId : Nat → String} {describe : EnforceError → PyExc}
  {V : PyValue → Prop} {lenient : Prop} {a b c : AgentState}

def AgentState.Valued (V : PyValue → Prop) (a : AgentState) : Prop :=
  ∀ tool ∈ a.tools, tool.Valued V

/-- From one state to another nested marks were left, and the same blocks are open. -/
structure Traced (lenient : Prop) (V : PyValue → Prop) (a b : AgentState) : Prop where
  marks : ∃ events, b.run.world.emitted = a.run.world.emitted ++ events ∧
    Nested lenient (marks events)
  tools : b.tools.map ToolCallContext.stepId = a.tools.map ToolCallContext.stepId
  valued : ¬ lenient → a.Valued V → b.Valued V

theorem Traced.refl (lenient : Prop) (V : PyValue → Prop) (a : AgentState) : Traced lenient V a a :=
  ⟨⟨[], (List.append_nil _).symm, .nil⟩, rfl, fun _ h => h⟩

theorem Traced.trans (hab : Traced lenient V a b) (hbc : Traced lenient V b c) :
    Traced lenient V a c := by
  rcases hab.marks with ⟨events, hevents, hnested⟩
  rcases hbc.marks with ⟨events', hevents', hnested'⟩
  refine ⟨⟨events ++ events', ?_, ?_⟩, hbc.tools.trans hab.tools, fun h ha => ?_⟩
  · rw [hevents', hevents, List.append_assoc]
  · rw [marks_append]
    exact hnested.append hnested'
  · exact hbc.valued h (hab.valued h ha)

theorem traced_call {c : Call} (hplain : ∀ type ∈ c.eventTypes, type ∉ toolCallTypes)
    (a : AgentState) : Traced lenient V a ((inRun (call env client c)).final a) := by
  have hadds : Adds c.eventTypes a.run.world.emitted ((call env client c).final a.run) :=
    adds_call c a.run ⟨[], (List.append_nil _).symm, by simp⟩
  rcases hadds with ⟨rest, hrest, htypes⟩
  rw [Prog.final, exec_inRun]
  refine ⟨⟨rest, hrest, ?_⟩, rfl, fun _ h => h⟩
  rw [marks_eq_nil fun event hmem => hplain _ (htypes event hmem)]
  exact .nil

theorem traced_modify {f : ToolCallContext → ToolCallContext} (k : Nat)
    (hstep : ∀ tool, (f tool).stepId = tool.stepId)
    (hvalued : ¬ lenient → ∀ tool, tool.Valued V → (f tool).Valued V) (a : AgentState) :
    Traced lenient V a { a with tools := a.tools.modify k f } := by
  refine ⟨⟨[], (List.append_nil _).symm, .nil⟩, ?_, fun h ha tool hmem => ?_⟩
  · dsimp only
    refine List.ext_getElem? fun i => ?_
    rw [List.getElem?_map, List.getElem?_map, List.getElem?_modify]
    cases a.tools[i]? with
    | none => rfl
    | some tool =>
        refine congrArg some ?_
        split_ifs
        · exact hstep tool
        · rfl
  · rcases List.mem_iff_getElem?.1 hmem with ⟨i, hi⟩
    rw [List.getElem?_modify] at hi
    rcases Option.map_eq_some_iff.1 hi with ⟨old, hold, rfl⟩
    have holdValued := ha old (List.mem_of_getElem? hold)
    split_ifs
    · exact hvalued h old holdValued
    · exact holdValued

/-- How a program that only leaves nested marks behaves in front of an open tool. -/
def Traces (lenient : Prop) (V : PyValue → Prop) (m : AgentM PUnit) : Prop :=
  ∀ a : AgentState, (¬ lenient → a.Valued V) → Traced lenient V a (m.final a)

/-- The marks of a block: those of its body between a start and a stop, which shows whether there is an
exception.  The stop is missing only where an event could not be emitted. -/
def BlockMarks (lenient : Prop) (id : String) (result : Except EnforceError PUnit)
    (marks : List (Mark (Option String))) : Prop :=
  (∃ w failed, marks = .start (some id) :: (w ++ [.stop (some id) failed]) ∧ Nested lenient w ∧
      (¬ lenient → (failed = true ↔ ∃ e, result = .error e))) ∨
    lenient ∧ (marks = [] ∨ ∃ w, marks = .start (some id) :: w ∧ Nested lenient w)

theorem BlockMarks.nested {id : String} {result : Except EnforceError PUnit}
    {marks : List (Mark (Option String))} (h : BlockMarks lenient id result marks) :
    Nested lenient marks := by
  rcases h with ⟨w, failed, rfl, hw, _⟩ | ⟨hlenient, rfl | ⟨w, rfl, hw⟩⟩
  · exact nested_block hw
  · exact .nil
  · exact .left hlenient hw

theorem marks_started {tool : ToolCallContext} {event : EventEnvelope}
    (htype : event.eventType = tool.started.eventType) (hstep : event.stepId = tool.started.stepId) :
    marks [event] = [.start (some tool.stepId)] := by
  have htype' : event.eventType = "tool_call.started" := htype
  have hstep' : event.stepId = some tool.stepId := hstep
  simp [marks, EventEnvelope.mark, htype', hstep']

theorem marks_ended {tool : ToolCallContext} {exc : Option PyExc} {event : EventEnvelope}
    (htype : event.eventType = (tool.ended exc).eventType)
    (hstep : event.stepId = (tool.ended exc).stepId) :
    marks [event] = [.stop (some tool.stepId) exc.isSome] := by
  cases exc with
  | none =>
      have htype' : event.eventType = "tool_call.completed" := htype
      have hstep' : event.stepId = some tool.stepId := hstep
      simp [marks, EventEnvelope.mark, htype', hstep']
  | some exc =>
      have htype' : event.eventType = "tool_call.failed" := htype
      have hstep' : event.stepId = some tool.stepId := hstep
      simp [marks, EventEnvelope.mark, htype', hstep']

/-- An event is emitted; only if it is `lenient` there can be an exception, with or without the event. -/
theorem exec_emit_cases (hstrict : ¬ lenient → NeverRaises env client V) {e : Emission}
    (hprepare : ¬ lenient → ∃ prepared, prepare env client e = .ok prepared) (s : RunState) :
    ∃ r s' events, Prog.exec (emit env client e) s = (r, s') ∧
      s'.world.emitted = s.world.emitted ++ events ∧
      ((∃ event, events = [event] ∧ event.eventType = e.eventType ∧ event.stepId = e.stepId) ∨
        events = [] ∧ ∃ x, r = .error x) ∧
      (lenient ∨ ∃ event, r = .ok event) := by
  have hok : lenient ∨ ∃ event, (Prog.exec (emit env client e) s).1 = .ok event := by
    by_cases h : lenient
    · exact .inl h
    · rcases hprepare h with ⟨prepared, hprepared⟩
      exact .inr (exec_emit_ok (hstrict h) hprepared s)
  rcases @emitted_emit env client e s with ⟨event, hevent, htype, hstep⟩ | ⟨hsame, herror⟩
  · exact ⟨_, _, [event], rfl, hevent, .inl ⟨event, rfl, htype, hstep⟩, hok⟩
  · exact ⟨_, _, [], rfl, hsame.trans (List.append_nil _).symm, .inr ⟨rfl, herror⟩, hok⟩

/-- The marks of a block whose start is there, from those of its body and the events of its end. -/
theorem blockMarks_of_left {tool : ToolCallContext} {r : Except EnforceError PUnit}
    {r' : Except EnforceError EventEnvelope} {inner last : List EventEnvelope}
    (hinner : Nested lenient (marks inner))
    (hlast : (∃ event, last = [event] ∧ event.eventType = (tool.ended (leaving describe r)).eventType ∧
        event.stepId = (tool.ended (leaving describe r)).stepId) ∨ last = [] ∧ ∃ x, r' = .error x)
    (hok : lenient ∨ ∃ event, r' = .ok event) :
    BlockMarks lenient tool.stepId (r'.bind fun _ => r)
      (.start (some tool.stepId) :: (marks inner ++ marks last)) := by
  rcases hlast with ⟨event, rfl, htype, hstep⟩ | ⟨rfl, x, rfl⟩
  · refine .inl ⟨marks inner, (leaving describe r).isSome, ?_, hinner, fun h => ?_⟩
    · rw [marks_ended htype hstep]
    · rcases hok.resolve_left h with ⟨event', rfl⟩
      cases r with
      | ok _ => simp [leaving, Except.bind]
      | error e => simp [leaving, Except.bind]
  · have hlenient : lenient := by
      rcases hok with h | ⟨event, hevent⟩
      · exact h
      · cases hevent
    exact .inr ⟨hlenient, .inr ⟨marks inner, by simp [marks], hinner⟩⟩

/-- A block leaves its start, the marks of its body, and its stop. -/
theorem traced_withBlock (hstrict : ¬ lenient → NeverRaises env client V) {tool : ToolCallContext}
    (htool : ¬ lenient → tool.Valued V) {body : AgentM PUnit} (hbody : Traces lenient V body)
    {a : AgentState} (ha : ¬ lenient → a.Valued V) :
    ∃ r b events, Prog.exec (withBlock env client describe tool body) a = (r, b) ∧
      b.run.world.emitted = a.run.world.emitted ++ events ∧
      BlockMarks lenient tool.stepId r (marks events) ∧
      b.tools.map ToolCallContext.stepId = a.tools.map ToolCallContext.stepId ∧
      (¬ lenient → b.Valued V) := by
  rw [exec_withBlock]
  rcases exec_emit_cases hstrict (fun h => (hstrict h).started tool (htool h).1 (htool h).2) a.run with
    ⟨r₀, s, first, hexec, hfirst, hevent, hok⟩
  simp only [hexec]
  rcases r₀ with x | event₀
  · -- the block is not entered
    have hlenient : lenient := by
      rcases hok with h | ⟨event, hevent⟩
      · exact h
      · cases hevent
    refine ⟨_, _, first, rfl, hfirst, .inr ⟨hlenient, ?_⟩, rfl, fun h => absurd hlenient h⟩
    rcases hevent with ⟨event, rfl, htype, hstep⟩ | ⟨rfl, _⟩
    · exact .inr ⟨[], marks_started htype hstep, .nil⟩
    · exact .inl rfl
  · rcases hevent with ⟨event, rfl, htype, hstep⟩ | ⟨_, x, hx⟩
    · have hentered : ¬ lenient →
          AgentState.Valued V { a with run := s, tools := tool :: a.tools } :=
        fun h => List.forall_mem_cons.2 ⟨htool h, ha h⟩
      have hout := hbody { a with run := s, tools := tool :: a.tools } hentered
      rw [Prog.final] at hout
      rcases hbodyExec : Prog.exec body { a with run := s, tools := tool :: a.tools } with ⟨r, b⟩
      rw [hbodyExec] at hout
      rcases hout.marks with ⟨inner, hinner, hnested⟩
      -- the block that is left is the one that was entered
      rcases htools : b.tools with _ | ⟨tool', tools'⟩
      · have hnil := hout.tools
        simp [htools] at hnil
      · have hids := hout.tools
        rw [htools, List.map_cons, List.map_cons, List.cons.injEq] at hids
        have hvalues : ¬ lenient → tool'.Valued V ∧ ∀ t ∈ tools', t.Valued V := by
          intro h
          have hall := hout.valued h (hentered h)
          rw [AgentState.Valued, htools] at hall
          exact List.forall_mem_cons.1 hall
        rcases exec_emit_cases hstrict (fun h => (hstrict h).ended tool' (hvalues h).1.1
          (hvalues h).1.2 (leaving describe r)) b.run with ⟨r', s', last, hexit, hlast, hevent', hok'⟩
        have hmarks := blockMarks_of_left (r := r) hnested hevent' hok'
        have hevents : s'.world.emitted =
            a.run.world.emitted ++ ([event] ++ inner ++ last) := by
          rw [hlast, hinner, hfirst]
          simp only [List.append_assoc]
        have hshape : marks ([event] ++ inner ++ last) =
            .start (some tool'.stepId) :: (marks inner ++ marks last) := by
          rw [marks_append, marks_append, marks_started htype hstep, hids.1]
          rfl
        have htail : (b.leave s').tools = tools' := by
          rw [AgentState.leave, htools, List.tail_cons]
        refine ⟨r'.bind fun _ => r, b.leave s', [event] ++ inner ++ last, ?_, hevents, ?_, ?_, ?_⟩
        · simp only [List.headD_cons, hexit]
          cases r' <;> rfl
        · rw [hshape, ← hids.1]
          exact hmarks
        · rw [htail]
          exact hids.2
        · intro h
          rw [AgentState.Valued, htail]
          exact (hvalues h).2
    · cases hx

theorem performed_withTool (hstrict : ¬ lenient → NeverRaises env client V) {name : String}
    {redact : Bool} {body : Agent} (hbody : Traces lenient V (body.perform env client stepId describe))
    {a : AgentState} (ha : ¬ lenient → a.Valued V) :
    ∃ r b events,
      Prog.exec ((Agent.withTool name redact body).perform env client stepId describe) a = (r, b) ∧
      b.run.world.emitted = a.run.world.emitted ++ events ∧
      BlockMarks lenient (stepId a.made) r (marks events) ∧
      b.tools.map ToolCallContext.stepId = a.tools.map ToolCallContext.stepId ∧
      (¬ lenient → b.Valued V) := by
  have hnew : Prog.exec (newTool stepId name redact) a =
      (.ok (.init name redact (stepId a.made)), { a with made := a.made + 1 }) := rfl
  have htool : ¬ lenient → (ToolCallContext.init name redact (stepId a.made)).Valued V :=
    fun h => ⟨(hstrict h).none, (hstrict h).none⟩
  rw [Agent.perform, Prog.exec_bind, hnew]
  exact traced_withBlock hstrict htool hbody ha

/-- By induction on the program. -/
theorem traces_perform (hstrict : ¬ lenient → NeverRaises env client V) :
    ∀ agent : Agent, agent.Plain → (¬ lenient → agent.Values V) →
      Traces lenient V (agent.perform env client stepId describe)
  | .skip, _, _ => fun a _ => Traced.refl lenient V a
  | .raise _, _, _ => fun a _ => Traced.refl lenient V a
  | .call c, hplain, _ => fun a _ => traced_call hplain a
  | .input k value, _, hvalues => fun a _ =>
      traced_modify (f := fun tool => tool.setInput value) k (fun _ => rfl)
        (fun h _ htool => ⟨hvalues h, htool.2⟩) a
  | .output k value redact, _, hvalues => fun a _ =>
      traced_modify (f := fun tool => tool.setOutput value redact) k (fun _ => rfl)
        (fun h _ htool => ⟨htool.1, hvalues h⟩) a
  | .seq first second, hplain, hvalues => fun a ha => by
      have hfirst := traces_perform hstrict first hplain.1 (fun h => (hvalues h).1) a ha
      rw [Agent.perform, Prog.final, Prog.exec_bind]
      rw [Prog.final] at hfirst
      rcases hexec : Prog.exec (first.perform env client stepId describe) a with ⟨_ | _, b⟩
      · rw [hexec] at hfirst
        exact hfirst
      · rw [hexec] at hfirst
        exact hfirst.trans (traces_perform hstrict second hplain.2 (fun h => (hvalues h).2) b
          fun h => hfirst.valued h (ha h))
  | .attempt body handler, hplain, hvalues => fun a ha => by
      have hbody := traces_perform hstrict body hplain.1 (fun h => (hvalues h).1) a ha
      rw [Agent.perform, Prog.final, Prog.exec_tryCatch]
      rw [Prog.final] at hbody
      rcases hexec : Prog.exec (body.perform env client stepId describe) a with ⟨_ | _, b⟩
      · rw [hexec] at hbody
        exact hbody.trans (traces_perform hstrict handler hplain.2 (fun h => (hvalues h).2) b
          fun h => hbody.valued h (ha h))
      · rw [hexec] at hbody
        exact hbody
  | .withTool name redact body, hplain, hvalues => fun a ha => by
      rcases performed_withTool hstrict (traces_perform hstrict body hplain hvalues) ha with
        ⟨r, b, events, hexec, hevents, hmarks, hids, hvalued⟩
      rw [Prog.final, hexec]
      exact ⟨⟨events, hevents, hmarks.nested⟩, hids, fun h _ => hvalued h⟩

/-- No event of a tool call can fail to be emitted. -/
def Smooth (env : Env) (client : Client) (V : PyValue → Prop) (agent : Agent) (a : AgentState) :
    Prop :=
  NeverRaises env client V ∧ agent.Values V ∧ a.Valued V

end Traces

namespace AgentExample

open RunExample

def stepId (n : Nat) : String :=
  String.ofList ("step_".toList ++ intText n)

def describe (_ : EnforceError) : PyExc :=
  { typeName := "ValueError", message := "boom", traceback := "" }

def begin : AgentState :=
  { run := start, tools := [], made := 0 }

/-- A tool that fails within another one. -/
def inner : Agent :=
  .seq (.input 0 (PyValue.str "query"))
    (.withTool "search" true (.raise (.raised ⟨.other, PyJson.str "boom"⟩)))

theorem inner_plain : inner.Plain := ⟨trivial, trivial⟩

theorem inner_smooth : Smooth env client (fun v => encodable v.toJson = true) inner begin := by
  refine ⟨neverRaises_of_encodable rfl fun _ _ _ _ => ⟨.obj [], rfl⟩, ⟨rfl, trivial⟩, ?_⟩
  exact fun tool hmem => absurd hmem List.not_mem_nil

end AgentExample

section Bracketed

variable {env : Env} {client : Client} {stepId : Nat → String} {describe : EnforceError → PyExc}
  {V : PyValue → Prop}

end Bracketed

end Sdk
end ControlDB
