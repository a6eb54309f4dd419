import ControlDB.Sdk.Run

/-!
# What the calls of a run do

`_build_envelope`, `_emit` and `_flush` in closed form, and the effects that every call of a run is
made of: an event is appended to the buffer, the buffer is posted or kept, or flags and counters
change.
-/

namespace ControlDB
namespace Sdk

open Library Python

section Effects

variable {env : Env} {client : Client}

/-! ## An envelope can be hashed -/

theorem encodable_of_payloadHash {v : PyValue} {hash : String} (h : payloadHash env v = .ok hash) :
    encodable v.toJson = true := by
  unfold payloadHash Python.computePayloadHash canonicalJson at h
  cases hencodable : encodable v.toJson with
  | true => rfl
  | false =>
      have hnone : v.toJson.isNone = false := by
        cases hjson : v.toJson with
        | leaf l =>
            cases l with
            | none => rw [hjson] at hencodable; cases hencodable
            | _ => rfl
        | _ => rfl
      simp [hnone, hencodable] at h

theorem encodableMembers_iff {members : List (String × PyJson)} :
    encodableMembers members = true ↔ ∀ m ∈ members, encodable m.2 = true := by
  induction members with
  | nil => simp [encodableMembers]
  | cons m rest ih =>
      rcases m with ⟨k, t⟩
      simp [encodableMembers, ih]

theorem encodable_asPayload {v : PyValue} (h : encodable v.toJson = true) :
    encodable (asPayload v) = true := by
  cases v with
  | dict members => exact h
  | _ => simpa [asPayload, encodable, encodableMembers] using h

theorem encodable_artifactUri {v : PyValue} (h : encodable v.toJson = true) :
    encodable (artifactUri v) = true := by
  cases v with
  | dict members =>
      simp only [PyValue.toJson_dict, encodable, encodableMembers_iff] at h
      cases hlookup : members.lookup "artifact_uri" with
      | none => simp [artifactUri, PyValue.getOr, hlookup, PyValue.none, encodable]
      | some uri =>
          rcases List.lookup_eq_some_iff.1 hlookup with ⟨l, r, hmembers, _⟩
          have hmem : ("artifact_uri", uri) ∈ members := by
            rw [hmembers]
            exact List.mem_append_right l List.mem_cons_self
          have huri := h _ (List.mem_map_of_mem hmem)
          simpa [artifactUri, PyValue.getOr, hlookup] using huri
  | _ => rfl

theorem encodable_captured {v w : PyValue} {mode : PayloadMode}
    (h : encodable (captured v w mode).2.toJson = true) :
    encodable (captured v w mode).1 = true := by
  cases mode with
  | metadataOnly => rfl
  | hashOnly => rfl
  | redactedPayload => exact encodable_asPayload h
  | fullPayload => exact encodable_asPayload h
  | selfHostedPayload =>
      have huri : encodable (artifactUri v) = true := encodable_artifactUri h
      simp [captured, encodable, encodableMembers, huri]

/-- A prepared payload is `None`, or what was captured of a value that has a hash. -/
theorem captured_of_prepare {e : Emission} {prepared : Prepared}
    (h : prepare env client e = .ok prepared) :
    prepared.payload = PyJson.none ∨
      ∃ redacted mode hash, prepared.payload = (captured e.payload redacted mode).1 ∧
        payloadHash env (captured e.payload redacted mode).2 = .ok hash := by
  unfold prepare at h
  split at h
  case isFalse => cases h
  case isTrue =>
      cases hmode : captureMode client e.payloadMode with
      | error x =>
          rw [hmode] at h
          cases h
      | ok mode =>
          simp only [hmode, bind, Except.bind, pure, Except.pure] at h
          split at h
          · cases h
            exact .inl rfl
          · unfold capturePayload at h
            cases hredacted : redactedPayload env client e.payload e.redact with
            | error x =>
                rw [hredacted] at h
                cases h
            | ok redacted =>
                cases hhash : payloadHash env (captured e.payload redacted mode).2 with
                | error x =>
                    simp only [hredacted, bind, Except.bind, hhash] at h
                    cases h
                | ok hash =>
                    simp only [hredacted, bind, Except.bind, hhash, pure, Except.pure] at h
                    cases h
                    exact .inr ⟨redacted, mode, hash, rfl, hhash⟩

/-- A payload that `_build_envelope` has prepared has a JSON. -/
theorem encodable_of_prepare {e : Emission} {prepared : Prepared}
    (h : prepare env client e = .ok prepared) : encodable prepared.payload = true := by
  rcases captured_of_prepare h with hnone | ⟨redacted, mode, hash, hpayload, hhash⟩
  · rw [hnone]
    rfl
  · rw [hpayload]
    exact encodable_captured (encodable_of_payloadHash hhash)

/-- An envelope whose payload has a JSON has a hash. -/
theorem exists_computeEventHash (sha256 : Sha256) {envelope : EventEnvelope}
    (h : encodable envelope.payload = true) :
    ∃ hash, Python.computeEventHash sha256 envelope.toDict = some hash := by
  have hmembers : encodableMembers envelope.toDict = true := by
    simp [EventEnvelope.toDict, encodableMembers, encodable, h, PyJson.str, Actor.toDict]
  have hkept : encodable (.obj (envelope.toDict.filter fun m => decide (m.1 ≠ "event_hash"))) =
      true := by
    rw [encodable, encodableMembers_iff]
    exact fun m hm => encodableMembers_iff.1 hmembers m (List.mem_of_mem_filter hm)
  simp only [Python.computeEventHash, canonicalJson, if_pos hkept]
  exact ⟨_, rfl⟩

theorem computeEventHash_pop (sha256 : Sha256) (event : Members) :
    Python.computeEventHash sha256 (popEventHash event) = Python.computeEventHash sha256 event := by
  rw [Python.computeEventHash, popEventHash, List.filter_filter]
  simp [Python.computeEventHash]

/-! ## Closed forms -/

@[simp] theorem exec_lift_ok {α : Type} (a : α) (s : RunState) :
    Prog.exec (lift (.ok a) : RunM α) s = (.ok a, s) := rfl

@[simp] theorem exec_lift_error {α : Type} (e : SdkError) (s : RunState) :
    Prog.exec (lift (.error e) : RunM α) s = (.error (.raised e), s) := rfl

@[simp] theorem exec_modifyRun (f : Run → Run) (s : RunState) :
    Prog.exec (modifyRun f) s = (.ok ⟨⟩, { s with run := f s.run }) := rfl

@[simp] theorem exec_modifyWorld (f : World → World) (s : RunState) :
    Prog.exec (modifyWorld f) s = (.ok ⟨⟩, { s with world := f s.world }) := rfl

@[simp] theorem exec_raise {α : Type} (kind : ErrorKind) (message : String) (s : RunState) :
    Prog.exec (raise kind message : RunM α) s =
      (.error (.raised ⟨kind, PyJson.str message⟩), s) := rfl

/-- The number of the step: the given one, or the next. -/
def Emission.index (e : Emission) (run : Run) : Int :=
  e.stepIndex.getD run.stepCounter

/-- The run behind an envelope with this hash. -/
def Run.advance (run : Run) (e : Emission) (hash : String) : Run :=
  { run with
    stepCounter := if e.stepIndex.isSome then run.stepCounter else run.stepCounter + 1
    previousEventHash := some hash }

/-- The envelope that `_build_envelope` hashes. -/
def draft (env : Env) (client : Client) (s : RunState) (e : Emission) (prepared : Prepared) :
    EventEnvelope :=
  envelopeOf client s.run (env.stamp s.world.stamps) e prepared (e.index s.run)

theorem exec_buildEnvelope_error {e : Emission} {x : SdkError} (s : RunState)
    (h : prepare env client e = .error x) :
    Prog.exec (buildEnvelope env client e) s = (.error (.raised x), s) := by
  simp [buildEnvelope, Prog.exec_bind, h]

theorem exec_buildEnvelope_ok {e : Emission} {prepared : Prepared} (s : RunState)
    (h : prepare env client e = .ok prepared) {hash : String}
    (hhash : Python.computeEventHash env.sha256 (draft env client s e prepared).toDict = some hash) :
    Prog.exec (buildEnvelope env client e) s =
      (.ok { draft env client s e prepared with eventHash := hash },
        { world := { s.world with stamps := s.world.stamps + 1 }
          run := s.run.advance e hash }) := by
  cases hindex : e.stepIndex with
  | some n =>
      have hdraft : draft env client s e prepared =
          envelopeOf client s.run (env.stamp s.world.stamps) e prepared n := by
        rw [draft, Emission.index, hindex, Option.getD_some]
      rw [hdraft] at hhash ⊢
      simp [buildEnvelope, Prog.exec_bind, h, hindex, computeEventHash_pop, hhash, Run.advance,
        Except.map]
  | none =>
      have hdraft : draft env client s e prepared =
          envelopeOf client s.run (env.stamp s.world.stamps) e prepared s.run.stepCounter := by
        rw [draft, Emission.index, hindex, Option.getD_none]
      rw [hdraft] at hhash ⊢
      simp [buildEnvelope, nextStepIndex, Prog.exec_bind, h, hindex, computeEventHash_pop, hhash,
        Run.advance, Except.map]

/-- What becomes of the buffer in `_flush`. -/
def postOutcome (env : Env) (client : Client) (s : RunState) : Except SdkError PyJson :=
  posted client
    (env.request s.world.posts s.run.runId s.run.buffer (batchKey s.run.runId s.run.buffer))
    (env.spoolWrite s.world.posts)

/-- The buffer is gone. -/
def RunState.delivered (s : RunState) : RunState :=
  { world :=
      { s.world with
        posts := s.world.posts + 1
        delivered := s.world.delivered ++ [s.run.buffer] }
    run := { s.run with buffer := [] } }

/-- The buffer is back. -/
def RunState.retained (s : RunState) : RunState :=
  { s with world := { s.world with posts := s.world.posts + 1 } }

theorem exec_flush_nil {s : RunState} (h : s.run.buffer = []) :
    Prog.exec (flush env client) s = (.ok ⟨⟩, s) := by
  simp [flush, Prog.exec_bind, h]

theorem exec_flush {s : RunState} (h : s.run.buffer ≠ []) :
    Prog.exec (flush env client) s =
      match postOutcome env client s with
      | .ok _ => (.ok ⟨⟩, s.delivered)
      | .error e => (.error (.raised e), s.retained) := by
  cases hpost : postOutcome env client s with
  | ok answer =>
      rw [postOutcome] at hpost
      simp [flush, postEvents, Prog.exec_bind, Prog.exec_tryCatch, h, hpost,
        RunState.delivered]
  | error e =>
      rw [postOutcome] at hpost
      simp [flush, postEvents, Prog.exec_bind, Prog.exec_tryCatch, h, hpost,
        RunState.retained]

/-- The event of an envelope with this hash. -/
def eventOf (env : Env) (client : Client) (s : RunState) (e : Emission) (prepared : Prepared)
    (hash : String) : EventEnvelope :=
  { draft env client s e prepared with
    eventHash := hash
    idempotencyKey := some (eventKey s.run.runId (some (e.index s.run)) e.eventType) }

/-- The event is in the buffer. -/
def RunState.appended (env : Env) (client : Client) (s : RunState) (e : Emission)
    (prepared : Prepared) (hash : String) : RunState :=
  let event := eventOf env client s e prepared hash
  { world :=
      { s.world with stamps := s.world.stamps + 1, emitted := s.world.emitted ++ [event] }
    run := { s.run.advance e hash with buffer := s.run.buffer ++ [event] } }

theorem exec_emit_error {e : Emission} {x : SdkError} (s : RunState)
    (h : prepare env client e = .error x) :
    Prog.exec (emit env client e) s = (.error (.raised x), s) := by
  simp [emit, Prog.exec_bind, exec_buildEnvelope_error s h]

/-- A prepared event is appended, and then the buffer may be full. -/
theorem emit_final_ok {e : Emission} {prepared : Prepared} (s : RunState)
    (h : prepare env client e = .ok prepared) :
    ∃ hash, Python.computeEventHash env.sha256 (draft env client s e prepared).toDict = some hash ∧
      (emit env client e).final s =
        if client.batchSize ≤ (s.run.buffer.length + 1 : Nat) then
          (flush env client).final (s.appended env client e prepared hash)
        else s.appended env client e prepared hash := by
  rcases @exists_computeEventHash env.sha256 (draft env client s e prepared)
    (encodable_of_prepare h) with ⟨hash, hhash⟩
  refine ⟨hash, hhash, ?_⟩
  have hbuilt := exec_buildEnvelope_ok s h hhash
  have hevent : (emit env client e).final s =
      (bufferEvent env client (eventOf env client s e prepared hash)).final
        { world := { s.world with stamps := s.world.stamps + 1 }
          run := s.run.advance e hash } := by
    rw [emit, Prog.final_bind_ok hbuilt, Prog.final_bind_ok (Prog.exec_get _), Prog.final_bind_pure]
    rfl
  rw [hevent, bufferEvent, Prog.final_bind_ok (exec_modifyWorld _ _),
    Prog.final_bind_ok (exec_modifyRun _ _), Prog.final_bind_ok (Prog.exec_get _)]
  simp only [Run.advance, List.length_append, List.length_singleton]
  split
  case isTrue hfull => rfl
  case isFalse hfull => rfl

end Effects

/-! ## Effects -/

/-- What a call does to the state of a run, one thing at a time. -/
inductive Effect (env : Env) (client : Client) : RunState → RunState → Prop
  | appended {s : RunState} {e : Emission} {prepared : Prepared} {hash : String} :
      prepare env client e = .ok prepared →
      Python.computeEventHash env.sha256 (draft env client s e prepared).toDict = some hash →
      Effect env client s (s.appended env client e prepared hash)
  | delivered {s : RunState} : s.run.buffer ≠ [] → Effect env client s s.delivered
  | retained {s : RunState} : s.run.buffer ≠ [] → Effect env client s s.retained
  | asked {s : RunState} :
      Effect env client s { s with world := { s.world with apis := s.world.apis + 1 } }
  | marked {s : RunState} (status : String) (committed closed : Bool) :
      Effect env client s { s with run := { s.run with status, committed, closed } }

section Asking

variable {env : Env} {P : RunState → Prop}
  (hasked : ∀ s, P s → P { s with world := { s.world with apis := s.world.apis + 1 } })

include hasked

theorem keeps_callApi_of_asked (c : ApiCall) : Prog.Keeps P (callApi env c) := by
  refine Prog.keeps_get.bind fun s => Prog.Keeps.bind ?_ fun _ => Prog.keeps_lift _
  exact Prog.keeps_modify hasked

theorem keeps_checkResult_of_asked (policyId : String) (input : PyValue)
    (result : Option (List (String × PyValue))) (version hash : Option String) :
    Prog.Keeps P (checkResult env policyId input result version hash) := by
  cases result with
  | some result => exact Prog.keeps_pure _
  | none =>
      refine Prog.keeps_get.bind fun s => (keeps_callApi_of_asked hasked _).bind fun answer => ?_
      refine (Prog.keeps_lift _).bind fun response => (Prog.keeps_lift _).bind fun result => ?_
      exact Prog.keeps_pure _

end Asking

/-- The property is kept by every effect that posts nothing, and by `_flush`. -/
structure Steady (env : Env) (client : Client) (P : RunState → Prop) : Prop where
  work : ∀ {s s'}, P s → Effect env client s s' → s'.world.posts = s.world.posts → P s'
  flush : Prog.Keeps P (flush env client)

theorem steady_of_effect {env : Env} {client : Client} {P : RunState → Prop}
    (hP : ∀ {s s'}, P s → Effect env client s s' → P s') : Steady env client P := by
  refine ⟨fun hs heffect _ => hP hs heffect, fun s hs => ?_⟩
  by_cases hbuffer : s.run.buffer = []
  · rw [exec_flush_nil hbuffer]
    exact hs
  · rw [exec_flush hbuffer]
    cases postOutcome env client s with
    | ok answer => exact hP hs (.delivered hbuffer)
    | error e => exact hP hs (.retained hbuffer)

section Kept

variable {env : Env} {client : Client} {P : RunState → Prop} (hP : Steady env client P)

include hP

theorem keeps_emit (e : Emission) : Prog.Keeps P (emit env client e) := by
  intro s hs
  show P ((emit env client e).final s)
  cases hprepared : prepare env client e with
  | error x =>
      rw [Prog.final, exec_emit_error s hprepared]
      exact hs
  | ok prepared =>
      rcases emit_final_ok s hprepared with ⟨hash, hhash, hfinal⟩
      have happended := hP.work hs (.appended hprepared hhash) rfl
      rw [hfinal]
      split
      · exact hP.flush _ happended
      · exact happended

theorem keeps_callApi (c : ApiCall) : Prog.Keeps P (callApi env c) :=
  keeps_callApi_of_asked (fun _ hs => hP.work hs .asked rfl) c

theorem keeps_checkResult (policyId : String) (input : PyValue)
    (result : Option (List (String × PyValue))) (version hash : Option String) :
    Prog.Keeps P (checkResult env policyId input result version hash) :=
  keeps_checkResult_of_asked (fun _ hs => hP.work hs .asked rfl) policyId input result version hash

theorem keeps_policyCheck (policyId : String) (input : PyValue)
    (result : Option (List (String × PyValue))) (version hash : Option String) :
    Prog.Keeps P (policyCheck env client policyId input result version hash) := by
  refine (keeps_checkResult hP _ _ _ _ _).bind fun checked => ?_
  exact (keeps_emit hP _).bind fun _ => Prog.keeps_pure _

theorem keeps_requestApproval (policyId : Option String) (input reason : PyValue)
    (approvalId : Option String) :
    Prog.Keeps P (requestApproval env client policyId input reason approvalId) := by
  refine Prog.keeps_get.bind fun s => (keeps_emit hP _).bind fun _ => ?_
  refine hP.flush.bind fun _ => (keeps_callApi hP _).bind fun answer => ?_
  exact Prog.keeps_lift _

theorem keeps_enforcePolicy (policyId : String) (input : PyValue) :
    Prog.Keeps P (enforcePolicy env client policyId input) := by
  refine (keeps_policyCheck hP _ _ _ _ _).bind fun result => ?_
  refine Prog.Keeps.ite (fun _ => ?_) fun _ => Prog.Keeps.ite (fun _ => ?_) fun _ => ?_
  · exact (keeps_emit hP _).bind fun _ => Prog.keeps_throw _
  · exact (keeps_requestApproval hP _ _ _ _).bind fun _ => Prog.keeps_throw _
  · exact (keeps_emit hP _).bind fun _ => Prog.keeps_pure _

theorem keeps_close (e : Emission) (status : String) (committed : Bool → Bool)
    {α : Type} {next : RunM α} (hnext : Prog.Keeps P next) :
    Prog.Keeps P (do
      let _ ← emit env client e
      flush env client
      modifyRun fun run =>
        { run with status := status, committed := committed run.committed, closed := true }
      next) := by
  refine (keeps_emit hP _).bind fun _ => hP.flush.bind fun _ => ?_
  exact (Prog.keeps_modify fun s hs => hP.work hs (.marked status _ true) rfl).bind fun _ => hnext

theorem keeps_commit : Prog.Keeps P (commit env client) := by
  refine Prog.keeps_get.bind fun s => Prog.Keeps.ite (fun _ => ?_) fun _ => ?_
  · exact Prog.Keeps.bind (Prog.keeps_throw _) fun _ =>
      keeps_close hP _ "committed" (fun _ => true) (keeps_callApi hP _)
  · exact keeps_close hP _ "committed" (fun _ => true) (keeps_callApi hP _)

theorem keeps_rollback (reason : Option String) : Prog.Keeps P (rollback env client reason) := by
  refine Prog.keeps_get.bind fun s => Prog.Keeps.ite (fun _ => ?_) fun _ => ?_
  · exact Prog.Keeps.bind (Prog.keeps_throw _) fun _ =>
      keeps_close hP _ "rolled_back" id (keeps_callApi hP _)
  · exact keeps_close hP _ "rolled_back" id (keeps_callApi hP _)

theorem keeps_fail (error : PyExc) : Prog.Keeps P (fail env client error) := by
  refine Prog.keeps_get.bind fun s => Prog.Keeps.ite (fun _ => Prog.keeps_pure _) fun _ => ?_
  refine (keeps_emit hP _).bind fun _ => hP.flush.bind fun _ => ?_
  exact Prog.keeps_modify fun s hs => hP.work hs (.marked "failed" s.run.committed true) rfl

theorem keeps_exit (exc : Option PyExc) : Prog.Keeps P (exit env client exc) := by
  cases exc with
  | some exc =>
      exact ((keeps_fail hP exc).tryCatch fun _ => Prog.keeps_pure _).bind fun _ => Prog.keeps_pure _
  | none =>
      refine Prog.keeps_get.bind fun s => Prog.Keeps.ite (fun _ => ?_) fun _ => Prog.keeps_pure _
      exact (keeps_commit hP).bind fun _ => Prog.keeps_pure _

theorem keeps_call (c : Call) : Prog.Keeps P (call env client c) := by
  cases c with
  | policyCheck policyId input result version hash =>
      exact (keeps_policyCheck hP _ _ _ _ _).discard
  | enforcePolicy policyId input => exact (keeps_enforcePolicy hP _ _).discard
  | requestApproval policyId input reason approvalId =>
      exact (keeps_requestApproval hP _ _ _ _).discard
  | humanApproval approvalId reviewerId decision reason =>
      refine Prog.Keeps.discard (Prog.Keeps.ite (fun _ => ?_) fun _ => keeps_emit hP _)
      exact Prog.Keeps.bind (Prog.keeps_throw _) fun _ => keeps_emit hP _
  | flush => exact hP.flush
  | commit => exact (keeps_commit hP).discard
  | rollback reason => exact (keeps_rollback hP reason).discard
  | fail error => exact keeps_fail hP error
  | exit exc => exact (keeps_exit hP exc).discard
  | _ => exact (keeps_emit hP _).discard

end Kept

/-- What every effect keeps, every run keeps. -/
theorem keeps_calls {env : Env} {client : Client} {P : RunState → Prop}
    (hP : ∀ {s s'}, P s → Effect env client s s' → P s') {s : RunState} (hs : P s)
    (calls : List Call) : P (calls.foldl (step env client) s) := by
  induction calls generalizing s with
  | nil => exact hs
  | cons c rest ih => exact ih (keeps_call (steady_of_effect hP) c s hs)

/-! ## What is emitted -/

section Emitted

variable {env : Env} {client : Client} {α : Type}

/-- The program emits nothing. -/
def Silent (m : RunM α) : Prop :=
  ∀ base, Prog.Keeps (fun s => s.world.emitted = base) m

theorem Silent.final_eq {m : RunM α} (h : Silent m) (s : RunState) :
    (m.final s).world.emitted = s.world.emitted :=
  h _ s rfl

theorem silent_pure (a : α) : Silent (pure a : RunM α) :=
  fun _ => Prog.keeps_pure a

theorem silent_flush : Silent (flush env client) := by
  intro base s hs
  by_cases hbuffer : s.run.buffer = []
  · rw [exec_flush_nil hbuffer]
    exact hs
  · rw [exec_flush hbuffer]
    cases postOutcome env client s with
    | ok answer => exact hs
    | error e => exact hs

/-- An event that is prepared is emitted, whatever becomes of the buffer. -/
theorem emitted_emit_ok {e : Emission} {prepared : Prepared} (s : RunState)
    (h : prepare env client e = .ok prepared) :
    ∃ hash, ((emit env client e).final s).world.emitted =
      s.world.emitted ++ [eventOf env client s e prepared hash] := by
  rcases emit_final_ok s h with ⟨hash, _, hfinal⟩
  refine ⟨hash, ?_⟩
  rw [hfinal]
  split
  · rw [silent_flush.final_eq]
    rfl
  · rfl

end Emitted

end Sdk
end ControlDB
