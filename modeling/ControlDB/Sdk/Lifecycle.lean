import ControlDB.Library.Runs
import ControlDB.Sdk.Delivery

/-!
# The end of a run

A run is over with its first terminal event.  The flags that should say so are set behind a flush
that may raise, only `commit`, `rollback` and `fail` ask for them, and `__exit__` asks for the wrong
one.  `Orderly` says which calls do no harm.
-/

namespace ControlDB
namespace Sdk

open Library Python

/-! ## Terminal events -/

def terminalTypes : List String :=
  ["agent_run.committed", "agent_run.rolled_back", "agent_run.failed"]

def EventEnvelope.isTerminal (event : EventEnvelope) : Bool :=
  decide (event.eventType ∈ terminalTypes)

/-- There is at most one terminal event, and none after it. -/
structure EndsOnce (events : List EventEnvelope) : Prop where
  once : events.countP EventEnvelope.isTerminal ≤ 1
  last : events.Pairwise fun a _ => a.isTerminal = false

theorem endsOnce_iff {events : List EventEnvelope} :
    EndsOnce events ↔ events.Pairwise fun a _ => a.isTerminal = false := by
  refine ⟨EndsOnce.last, fun h => ⟨?_, h⟩⟩
  induction h with
  | nil => exact Nat.zero_le 1
  | @cons a rest hfirst _ ih =>
      cases rest with
      | nil => exact List.countP_le_length
      | cons b rest =>
          rw [List.countP_cons_of_neg (by simp [hfirst b List.mem_cons_self])]
          exact ih

/-- The run has emitted a terminal event. -/
def RunState.terminated (s : RunState) : Prop :=
  ∃ event ∈ s.world.emitted, event.isTerminal = true

/-! ## The events of a call -/

section Events

variable (env : Env) (client : Client)

/-- The first event that a call would emit. -/
def nextEvent (s : RunState) : Call → Option Emission
  | .input userId inputHash metadata => some (.input userId inputHash metadata)
  | .modelCall model provider prompt completion usage redact success =>
      some (.modelCall model provider prompt completion usage redact success)
  | .enterTool tool => some tool.started
  | .exitTool tool exc => some (tool.ended exc)
  | .memoryRead store key value redact => some (.memoryRead store key value redact)
  | .memoryWrite store key value redact => some (.memoryWrite store key value redact)
  | .stateChange entityType entityId before after reason applied redact =>
      some (.stateChange entityType entityId before after reason applied redact)
  | .policyCheck policyId input result version hash =>
      match (Prog.exec (checkResult env policyId input result version hash) s).1 with
      | .ok (result, version, hash) => some (.policyChecked policyId version hash input result)
      | .error _ => none
  | .enforcePolicy policyId input =>
      match (Prog.exec (checkResult env policyId input none none none) s).1 with
      | .ok (result, version, hash) => some (.policyChecked policyId version hash input result)
      | .error _ => none
  | .requestApproval policyId input reason approvalId =>
      some (.approvalRequested (approvalBody env s policyId input reason approvalId))
  | .humanApproval approvalId reviewerId decision reason =>
      if decision ∈ ["approved", "rejected", "expired", "overridden"] then
        some (.humanApproval approvalId reviewerId decision reason)
      else none
  | .evidenceArtifact uri sha256 kind description =>
      some (.evidenceArtifact uri sha256 kind description)
  | .emit e => some e
  | .flush => none
  | .commit => if s.run.closed then none else some .committed
  | .rollback reason => if s.run.closed then none else some (.rolledBack reason)
  | .fail error => if s.run.closed then none else some (.failed error)
  | .exit (some exc) => if s.run.closed then none else some (.failed exc)
  | .exit none => if s.run.committed || s.run.closed then none else some .committed

end Events

section Added

variable {env : Env} {client : Client} {α : Type}

theorem silent_callApi (c : ApiCall) : Silent (callApi env c) :=
  fun _ => keeps_callApi_of_asked (fun _ hs => hs) c

theorem silent_checkResult (policyId : String) (input : PyValue)
    (result : Option (List (String × PyValue))) (version hash : Option String) :
    Silent (checkResult env policyId input result version hash) :=
  fun _ => keeps_checkResult_of_asked (fun _ hs => hs) policyId input result version hash

/-- What a call adds to the events, where `next` is the first one it would emit. -/
def Outcome (env : Env) (client : Client) (next : Option Emission) (s s' : RunState) : Prop :=
  ∃ events, s'.world.emitted = s.world.emitted ++ events ∧
    (events ≠ [] ↔ ∃ e prepared, next = some e ∧ prepare env client e = .ok prepared) ∧
    events.Pairwise fun a _ => a.isTerminal = false

theorem outcome_none {s s' : RunState} (h : s'.world.emitted = s.world.emitted) :
    Outcome env client none s s' :=
  ⟨[], by simpa using h, by simp, List.Pairwise.nil⟩

theorem outcome_refused {s s' : RunState} {e : Emission} {x : SdkError}
    (hprepared : prepare env client e = .error x) (h : s'.world.emitted = s.world.emitted) :
    Outcome env client (some e) s s' :=
  ⟨[], by simpa using h, by simp [hprepared], List.Pairwise.nil⟩

/-- An event that is prepared, and more behind it if it is not terminal. -/
theorem outcome_emitted {s s' : RunState} {e : Emission} {prepared : Prepared}
    (hprepared : prepare env client e = .ok prepared) (event : EventEnvelope)
    (rest : List EventEnvelope) (h : s'.world.emitted = s.world.emitted ++ event :: rest)
    (hrest : rest ≠ [] → event.isTerminal = false)
    (hmild : ∀ b ∈ rest, b.isTerminal = false) : Outcome env client (some e) s s' := by
  refine ⟨event :: rest, h, by simp [hprepared], List.pairwise_cons.2 ⟨fun b hb => ?_, ?_⟩⟩
  · exact hrest (List.ne_nil_of_mem hb)
  · exact List.Pairwise.imp_of_mem (fun ha _ _ => hmild _ ha) (List.pairwise_of_forall fun _ _ => trivial)

theorem outcome_emit_bind (e : Emission) {f : EventEnvelope → RunM α} (hf : ∀ event, Silent (f event))
    (s : RunState) : Outcome env client (some e) s ((emit env client e >>= f).final s) := by
  cases hprepared : prepare env client e with
  | error x =>
      refine outcome_refused hprepared ?_
      rw [Prog.final, Prog.exec_bind_error (exec_emit_error s hprepared)]
  | ok prepared =>
      rcases emitted_emit_ok s hprepared with ⟨hash, hemitted⟩
      refine outcome_emitted hprepared (eventOf env client s e prepared hash) [] ?_ (fun h => absurd rfl h)
        fun b hb => absurd hb List.not_mem_nil
      exact Prog.Keeps.final_bind (fun a => hf a _) hemitted

theorem outcome_emit (e : Emission) (s : RunState) :
    Outcome env client (some e) s ((emit env client e).final s) := by
  have hpure : Outcome env client (some e) s
      ((emit env client e >>= fun event => pure event).final s) :=
    outcome_emit_bind e (fun event => silent_pure event) s
  rwa [Prog.final_bind_pure] at hpure

/-! ## The outcome of every call -/

theorem outcome_requestApproval (policyId : Option String) (input reason : PyValue)
    (approvalId : Option String) (s : RunState) :
    Outcome env client
      (some (.approvalRequested (approvalBody env s policyId input reason approvalId))) s
      ((requestApproval env client policyId input reason approvalId).final s) := by
  rw [requestApproval, Prog.final_bind_ok (Prog.exec_get s)]
  refine outcome_emit_bind _ (fun event base => ?_) s
  refine (silent_flush base).bind fun _ => (silent_callApi _ base).bind fun answer => ?_
  exact Prog.keeps_lift _

theorem outcome_humanApproval (approvalId reviewerId decision : String) (reason : Option String)
    (s : RunState) :
    Outcome env client (nextEvent env s (.humanApproval approvalId reviewerId decision reason)) s
      ((humanApproval env client approvalId reviewerId decision reason).final s) := by
  by_cases hvalid : decision ∈ ["approved", "rejected", "expired", "overridden"]
  · rw [nextEvent, if_pos hvalid, humanApproval, if_neg (not_not_intro hvalid)]
    exact outcome_emit _ s
  · rw [nextEvent, if_neg hvalid, humanApproval, if_pos hvalid]
    exact outcome_none rfl

/-- Only events that are not terminal have been added. -/
def Mild (base : List EventEnvelope) (s : RunState) : Prop :=
  ∃ rest, s.world.emitted = base ++ rest ∧ ∀ event ∈ rest, event.isTerminal = false

theorem Silent.mild {m : RunM α} (h : Silent m) (base : List EventEnvelope) :
    Prog.Keeps (Mild base) m := by
  rintro s ⟨rest, hemitted, hmild⟩
  exact ⟨rest, (h _ s rfl).trans hemitted, hmild⟩

theorem mild_emit {e : Emission} (htype : e.eventType ∉ terminalTypes) (base : List EventEnvelope) :
    Prog.Keeps (Mild base) (emit env client e) := by
  rintro s ⟨rest, hemitted, hmild⟩
  show Mild base ((emit env client e).final s)
  cases hprepared : prepare env client e with
  | error x =>
      rw [Prog.final, exec_emit_error s hprepared]
      exact ⟨rest, hemitted, hmild⟩
  | ok prepared =>
      rcases emitted_emit_ok s hprepared with ⟨hash, hadded⟩
      refine ⟨rest ++ [eventOf env client s e prepared hash], ?_, fun b hb => ?_⟩
      · rw [hadded, hemitted, List.append_assoc]
      · rcases List.mem_append.1 hb with hold | hnew
        · exact hmild b hold
        · rw [List.mem_singleton.1 hnew]
          exact decide_eq_false htype

theorem mild_enforcement (blocked : Bool) (policyId : String) (input : PyValue)
    (result : List (String × PyValue)) (base : List EventEnvelope) :
    Prog.Keeps (Mild base) (emit env client (.enforcement blocked policyId input result)) := by
  apply mild_emit
  cases blocked <;> simp [Emission.enforcement, terminalTypes]

theorem mild_requestApproval (policyId : Option String) (input reason : PyValue)
    (approvalId : Option String) (base : List EventEnvelope) :
    Prog.Keeps (Mild base) (requestApproval env client policyId input reason approvalId) := by
  have htype : ∀ body, (Emission.approvalRequested body).eventType ∉ terminalTypes := by
    simp [Emission.approvalRequested, terminalTypes]
  refine Prog.keeps_get.bind fun s => (mild_emit (htype _) base).bind fun _ => ?_
  refine (silent_flush.mild base).bind fun _ => ((silent_callApi _).mild base).bind fun answer => ?_
  exact Prog.keeps_lift _

theorem policyChecked_mild (policyId : String) (version hash input : PyValue)
    (result : List (String × PyValue)) :
    (Emission.policyChecked policyId version hash input result).eventType ∉ terminalTypes := by
  simp only [Emission.policyChecked]
  split <;> decide

/-- `policy_check`, with what `enforce_policy` does behind it. -/
theorem outcome_policyCheck (policyId : String) (input : PyValue)
    (result : Option (List (String × PyValue))) (version hash : Option String)
    {f : List (String × PyValue) → RunM α} (hf : ∀ result base, Prog.Keeps (Mild base) (f result))
    (s : RunState) :
    Outcome env client (nextEvent env s (.policyCheck policyId input result version hash)) s
      ((policyCheck env client policyId input result version hash >>= f).final s) := by
  have hsilent := (@silent_checkResult env policyId input result version hash).final_eq s
  rcases hexec : Prog.exec (checkResult env policyId input result version hash) s with ⟨r, s₁⟩
  rw [Prog.final, hexec] at hsilent
  cases r with
  | error x =>
      have hcheck : Prog.exec (policyCheck env client policyId input result version hash) s =
          (.error x, s₁) := Prog.exec_bind_error hexec _
      rw [nextEvent, hexec, Prog.final, Prog.exec_bind_error hcheck]
      exact outcome_none hsilent
  | ok checked =>
      rcases checked with ⟨result', version', hash'⟩
      rw [nextEvent, hexec]
      have hfinal : (policyCheck env client policyId input result version hash).final s =
          ((emit env client (.policyChecked policyId version' hash' input result')) >>=
            fun _ => pure result').final s₁ := Prog.final_bind_ok hexec _
      cases hprepared : prepare env client
          (.policyChecked policyId version' hash' input result') with
      | error x =>
          have hcheck : Prog.exec (policyCheck env client policyId input result version hash) s =
              (.error (.raised x), s₁) := by
            rw [policyCheck, Prog.exec_bind, hexec]
            exact Prog.exec_bind_error (exec_emit_error s₁ hprepared) _
          refine outcome_refused hprepared ?_
          rw [Prog.final, Prog.exec_bind_error hcheck]
          exact hsilent
      | ok prepared =>
          rcases emitted_emit_ok s₁ hprepared with ⟨eventHash, hadded⟩
          generalize hevent : eventOf env client s₁
            (.policyChecked policyId version' hash' input result') prepared eventHash = event
            at hadded
          have hmild : event.isTerminal = false := by
            rw [← hevent]
            exact decide_eq_false (policyChecked_mild policyId version' hash' input result')
          have hfirst : Mild (s.world.emitted ++ [event])
              ((policyCheck env client policyId input result version hash).final s) := by
            refine ⟨[], ?_, fun b hb => absurd hb List.not_mem_nil⟩
            rw [hfinal, Prog.final_bind_pure, hadded, hsilent, List.append_nil]
          rcases Prog.Keeps.final_bind (fun a => hf a _) hfirst with ⟨rest, hrest, hall⟩
          refine outcome_emitted hprepared event rest ?_ (fun _ => hmild) hall
          rw [hrest, List.append_assoc, List.singleton_append]

theorem outcome_enforcePolicy (policyId : String) (input : PyValue) (s : RunState) :
    Outcome env client (nextEvent env s (.enforcePolicy policyId input)) s
      ((enforcePolicy env client policyId input).final s) := by
  refine outcome_policyCheck policyId input none none none (fun result base => ?_) s
  refine Prog.Keeps.ite (fun _ => ?_) fun _ => Prog.Keeps.ite (fun _ => ?_) fun _ => ?_
  · exact (mild_enforcement true _ _ _ base).bind fun _ => Prog.keeps_throw _
  · exact (mild_requestApproval _ _ _ _ base).bind fun _ => Prog.keeps_throw _
  · exact (mild_enforcement false _ _ _ base).bind fun _ => Prog.keeps_pure _

theorem outcome_commit (s : RunState) :
    Outcome env client (nextEvent env s .commit) s ((commit env client).final s) := by
  cases hclosed : s.run.closed with
  | true =>
      rw [nextEvent, hclosed, commit, Prog.final_bind_ok (Prog.exec_get s), hclosed]
      exact outcome_none rfl
  | false =>
      rw [nextEvent, hclosed, commit, Prog.final_bind_ok (Prog.exec_get s), hclosed]
      refine outcome_emit_bind _ (fun event base => ?_) s
      refine (silent_flush base).bind fun _ => Prog.Keeps.bind ?_ fun _ => silent_callApi _ base
      exact Prog.keeps_modify fun s hs => hs

theorem outcome_rollback (reason : Option String) (s : RunState) :
    Outcome env client (nextEvent env s (.rollback reason)) s
      ((rollback env client reason).final s) := by
  cases hclosed : s.run.closed with
  | true =>
      rw [nextEvent, hclosed, rollback, Prog.final_bind_ok (Prog.exec_get s), hclosed]
      exact outcome_none rfl
  | false =>
      rw [nextEvent, hclosed, rollback, Prog.final_bind_ok (Prog.exec_get s), hclosed]
      refine outcome_emit_bind _ (fun event base => ?_) s
      refine (silent_flush base).bind fun _ => Prog.Keeps.bind ?_ fun _ => silent_callApi _ base
      exact Prog.keeps_modify fun s hs => hs

theorem outcome_fail (error : PyExc) (s : RunState) :
    Outcome env client (nextEvent env s (.fail error)) s ((fail env client error).final s) := by
  cases hclosed : s.run.closed with
  | true =>
      rw [nextEvent, hclosed, fail, Prog.final_bind_ok (Prog.exec_get s), hclosed]
      exact outcome_none rfl
  | false =>
      rw [nextEvent, hclosed, fail, Prog.final_bind_ok (Prog.exec_get s), hclosed]
      refine outcome_emit_bind _ (fun event base => ?_) s
      exact (silent_flush base).bind fun _ => Prog.keeps_modify fun s hs => hs

/-- What `fail` raises is only logged. -/
theorem final_exit_some (exc : PyExc) (s : RunState) :
    (exit env client (some exc)).final s = (fail env client exc).final s := by
  rw [exit, Prog.final_bind_pure, Prog.final, Prog.exec_tryCatch, Prog.final]
  rcases Prog.exec (fail env client exc) s with ⟨_ | _, _⟩ <;> rfl

theorem outcome_exit (exc : Option PyExc) (s : RunState) :
    Outcome env client (nextEvent env s (.exit exc)) s ((exit env client exc).final s) := by
  cases exc with
  | some exc =>
      rw [final_exit_some]
      exact outcome_fail exc s
  | none =>
      rw [exit, Prog.final_bind_ok (Prog.exec_get s)]
      cases hcommitted : s.run.committed with
      | true =>
          rw [nextEvent, hcommitted]
          exact outcome_none rfl
      | false =>
          have hnext : nextEvent env s (.exit none) = nextEvent env s .commit := by
            rw [nextEvent, nextEvent, hcommitted, Bool.false_or]
          rw [hnext]
          have hcommit : ((commit env client >>= fun _ => pure false).final s) =
              (commit env client).final s := Prog.final_bind_pure _ _ s
          exact hcommit ▸ outcome_commit s

theorem outcome_call (c : Call) (s : RunState) :
    Outcome env client (nextEvent env s c) s (step env client s c) := by
  cases c with
  | policyCheck policyId input result version hash =>
      have hcheck := @outcome_policyCheck env client _ policyId input result version hash pure
        (fun _ base => (silent_pure _).mild base) s
      rw [step, call, Prog.final_discard]
      rwa [bind_pure] at hcheck
  | enforcePolicy policyId input =>
      rw [step, call, Prog.final_discard]
      exact outcome_enforcePolicy policyId input s
  | requestApproval policyId input reason approvalId =>
      rw [step, call, Prog.final_discard]
      exact outcome_requestApproval policyId input reason approvalId s
  | humanApproval approvalId reviewerId decision reason =>
      rw [step, call, Prog.final_discard]
      exact outcome_humanApproval approvalId reviewerId decision reason s
  | flush => exact outcome_none (silent_flush.final_eq s)
  | commit =>
      rw [step, call, Prog.final_discard]
      exact outcome_commit s
  | rollback reason =>
      rw [step, call, Prog.final_discard]
      exact outcome_rollback reason s
  | fail error => exact outcome_fail error s
  | exit exc =>
      rw [step, call, Prog.final_discard]
      exact outcome_exit exc s
  | _ =>
      rw [step, call, Prog.final_discard]
      exact outcome_emit _ s

end Added

/-! ## Leaving the block -/

section Leaving

variable {env : Env} {client : Client}

/-- Leaving the block without an exception, after the run was closed, neither raises nor emits. -/
def LeavesQuietly (env : Env) (client : Client) (s : RunState) (c : Call) : Prop :=
  c = .exit none → s.run.closed = true →
    (Prog.exec (call env client c) s).1 = .ok ⟨⟩ ∧
      (step env client s c).world.emitted = s.world.emitted

/-- `__exit__` asks whether the run was committed, not whether it was closed. -/
theorem leavesQuietly_iff (s : RunState) (c : Call) :
    LeavesQuietly env client s c ↔
      (c = .exit none → s.run.closed = true → s.run.committed = true) := by
  constructor
  · rintro h rfl hclosed
    by_contra hcommitted
    have hraised := (h rfl hclosed).1
    rw [Bool.not_eq_true] at hcommitted
    simp [call, exit, commit, Prog.exec_discard, Prog.exec_bind, hcommitted, hclosed,
      Except.map] at hraised
  · rintro h rfl hclosed
    have hcommitted := h rfl hclosed
    have hexec : Prog.exec (call env client (.exit none)) s = (.ok ⟨⟩, s) := by
      simp [call, exit, Prog.exec_discard, Prog.exec_bind, hcommitted, Except.map]
    rw [step, Prog.final, hexec]
    exact ⟨rfl, rfl⟩

/-- The call emits nothing behind a terminal event, and the block is not left without an exception
when the run was closed but not committed. -/
structure Orderly (env : Env) (client : Client) (s : RunState) (c : Call) : Prop where
  silent : s.terminated → ∀ e, nextEvent env s c = some e → ∃ x, prepare env client e = .error x
  left : c = .exit none → s.run.closed = true → s.run.committed = true

theorem endsOnce_step_iff {s : RunState} (h : EndsOnce s.world.emitted) (c : Call) :
    EndsOnce (step env client s c).world.emitted ↔
      (s.terminated → ∀ e, nextEvent env s c = some e → ∃ x, prepare env client e = .error x) := by
  rcases @outcome_call env client c s with ⟨events, hadded, hnext, hpairwise⟩
  rw [endsOnce_iff, hadded, List.pairwise_append]
  constructor
  · rintro ⟨_, _, hcross⟩ ⟨last, hlast, hterminal⟩ e he
    cases hprepared : prepare env client e with
    | error x => exact ⟨x, rfl⟩
    | ok prepared =>
        -- the event that follows the terminal one
        rcases List.exists_mem_of_ne_nil events (hnext.2 ⟨e, prepared, he, hprepared⟩) with
          ⟨event, hevent⟩
        rw [hcross last hlast event hevent] at hterminal
        cases hterminal
  · intro hsilent
    refine ⟨endsOnce_iff.1 h, hpairwise, fun a ha b hb => ?_⟩
    by_contra hterminal
    rcases hnext.1 (List.ne_nil_of_mem hb) with ⟨e, prepared, he, hprepared⟩
    rcases hsilent ⟨a, ha, by simpa using hterminal⟩ e he with ⟨x, hx⟩
    rw [hprepared] at hx
    cases hx

end Leaving

/-- A run ends once, and its block is left quietly, exactly when its calls are orderly. -/
theorem calls_endOnce_iff (env : Env) (client : Client) (runId agentId : String)
    (agentVersion : Option String) (environment : String) (traceId : Option String)
    (calls : List Call) :
    Throughout (step env client) (fun s => EndsOnce s.world.emitted) (LeavesQuietly env client)
        (RunState.start runId agentId agentVersion environment traceId) calls ↔
      Meets (step env client) (Orderly env client)
        (RunState.start runId agentId agentVersion environment traceId) calls := by
  have hstart : EndsOnce
      (RunState.start runId agentId agentVersion environment traceId).world.emitted :=
    ⟨Nat.zero_le 1, List.Pairwise.nil⟩
  have hstep : ∀ {s c}, True → EndsOnce s.world.emitted →
      (LeavesQuietly env client s c ∧ EndsOnce (step env client s c).world.emitted ↔
        Orderly env client s c) := by
    intro s c _ hends
    rw [leavesQuietly_iff, endsOnce_step_iff hends]
    exact ⟨fun h => ⟨h.2, h.1⟩, fun h => ⟨h.left, h.silent⟩⟩
  exact @throughout_iff_meets _ _ (step env client) (fun s => EndsOnce s.world.emitted) _ _
    (fun _ => True) (fun _ => trivial) hstep _ trivial hstart calls

/-- After a rollback, leaving the block raises `run already closed`. -/
theorem rollback_exit_raises :
    ¬ Throughout (step RunExample.env RunExample.client) (fun s => EndsOnce s.world.emitted)
      (LeavesQuietly RunExample.env RunExample.client) RunExample.start
      [.rollback none, .exit none] := by
  have hevaluated : let s := step RunExample.env RunExample.client RunExample.start (.rollback none)
      s.run.closed = true ∧ s.run.committed = false := by
    decide +kernel
  rintro ⟨_, _, _, hquiet, _⟩
  have hcommitted := (leavesQuietly_iff _ _).1 hquiet rfl hevaluated.1
  rw [hevaluated.2] at hcommitted
  cases hcommitted

end Sdk
end ControlDB
