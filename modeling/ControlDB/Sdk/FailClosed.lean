import ControlDB.Sdk.Enforce

/-!
# When enforcement fails closed

What `enforce_policy` does set against what the policy engine decided.  The two read the same result
mapping: the engine through `bool`, the SDK through `is False`, after the endpoint has laid the raw
result over the computed one.
-/

namespace ControlDB
namespace Sdk

open Library Python Http Collector

/-! ## What enforcing should come to -/

/-- The engine's decision on a policy and an input; there is none where the input is no mapping or
`evaluate` raises. -/
def decisionFor (app : App) (policyId : String) : PyJson → Option PolicyDecision
  | .obj input => (app.engine.evaluate app.text policyId input).toOption
  | _ => none

/-- The outcome of `enforce_policy` follows the decision. -/
structure Follows (decision : Option PolicyDecision) (outcome : Except EnforceError PyJson) :
    Prop where
  /-- It returns normally only where the decision allows it without an approval. -/
  returns : ∀ doc, outcome = .ok doc →
    ∃ d, decision = some d ∧ d.allowed = true ∧ d.requiresApproval = false
  approval : ∀ d, decision = some d → d.requiresApproval = true →
    ∃ message approvalId policyId, outcome = .error (.approvalRequired message approvalId policyId)
  denied : ∀ d, decision = some d → d.allowed = false → d.requiresApproval = false →
    ∃ message policyId reason, outcome = .error (.denied message policyId reason)

/-- A reason that the model of an approval request takes. -/
def isText : Yaml → Bool
  | .leaf (.json .none) => true
  | .leaf (.json (.str _)) => true
  | .leaf (.timestamp _) => true
  | .leaf (.binary _) => true
  | _ => false

/-- The check reaches the SDK: an attempt is made, the input can be sent, the key may read policies,
the answer can be encoded, and the event that follows it is recorded. -/
structure Checked (session : Session) (policyId : String) (input : PyJson) (d : PolicyDecision)
    (eventType : String) (response result : Members) : Prop where
  attempts : 0 < session.maxRetries
  sendable : encodable input = true
  mayRead : requireScope session.app.scopes "policies" "read" = none
  encoded : policyCheckResponse d = some response
  holdsResult : response.lookup "result" = some (.obj result)
  recorded : session.emit 0 eventType (Session.checkedPayload policyId input response result) = .ok ()

/-- Where the decision refuses without an approval: `allowed` is `False` itself in the result
mapping, and the check and the events of a refusal go through. -/
def Refusable (session : Session) (policyId : String) (input : PyJson) (d : PolicyDecision) : Prop :=
  Yaml.get d.raw "allowed" = some (Yaml.bool false) ∧
    ∃ response result, Checked session policyId input d "policy.check.failed" response result ∧
      session.emit 1 "policy.enforcement.blocked" (Session.enforcedPayload policyId input result) =
        .ok ()

/-- Where the decision asks for an approval: the reason in the result mapping is a text, if there is
one, the key may review approvals, and the check, the events and the flush go through. -/
def Approvable (session : Session) (policyId : String) (input : PyJson) (d : PolicyDecision) :
    Prop :=
  (∀ reason, Yaml.get d.raw "reason" = some reason → isText reason = true) ∧
    requireScope session.app.scopes "approvals" "review" = none ∧
    ∃ response result, Checked session policyId input d "policy.check.passed" response result ∧
      session.emit 1 "approval.requested"
          (session.approvalBody policyId input
            (getOr result "reason" (PyJson.str "approval required"))) = .ok () ∧
      session.flush = .ok ()

/-! ## The decision and its answer -/

theorem evaluate_eq_bool {engine : PolicyEngine} {text : Yaml → String} {policyId : String}
    {input : Members} {d : PolicyDecision} (h : engine.evaluate text policyId input = .ok d) :
    d.allowed = PolicyEngine.isAllowed d.raw ∧
      d.requiresApproval = PolicyEngine.needsApproval d.raw := by
  unfold PolicyEngine.evaluate at h
  cases hpolicy : engine.get policyId with
  | none =>
      simp only [hpolicy, Except.ok.injEq] at h
      subst h
      -- an unknown policy is refused with its own raw result
      exact ⟨rfl, rfl⟩
  | some policy =>
      cases hraw : PolicyEngine.appliedResult policy input with
      | error e => simp [hpolicy, hraw, Except.map] at h
      | ok raw =>
          simp only [hpolicy, hraw, Except.map, Except.ok.injEq] at h
          subst h
          exact ⟨rfl, rfl⟩

theorem decisionFor_eq_bool {app : App} {policyId : String} {input : PyJson} {d : PolicyDecision}
    (h : decisionFor app policyId input = some d) :
    d.allowed = PolicyEngine.isAllowed d.raw ∧
      d.requiresApproval = PolicyEngine.needsApproval d.raw := by
  cases input with
  | leaf l => simp [decisionFor] at h
  | arr items => simp [decisionFor] at h
  | obj members =>
      cases hdecision : app.engine.evaluate app.text policyId members with
      | error e => simp [decisionFor, hdecision, Except.toOption] at h
      | ok d' =>
          simp only [decisionFor, hdecision, Except.toOption, Option.some.injEq] at h
          exact evaluate_eq_bool (h ▸ hdecision)

/-- A computed member of the result is overridden by the raw one. -/
theorem lookup_mergeMembers {base raw : RuleResult} {key : Scalar} {value : Yaml}
    (h : base.lookup key = some value) :
    (mergeMembers base raw).lookup key = some ((raw.lookup key).getD value) := by
  -- a member of the computed result is replaced by the raw one, or stays
  have hbase : (base.map fun m => (m.1, (raw.lookup m.1).getD m.2)).lookup key =
      some ((raw.lookup key).getD value) := by
    induction base with
    | nil => simp at h
    | cons m rest ih =>
        rcases m with ⟨k, v⟩
        simp only [List.lookup_cons] at h
        cases hkey : key == k with
        | true =>
            simp only [hkey, Option.some.injEq] at h
            have hk : key = k := eq_of_beq hkey
            simp [← hk, h]
        | false =>
            simp only [hkey] at h
            simpa [List.lookup_cons, hkey] using ih h
  simp [mergeMembers, List.lookup_append, hbase]

section Answer

variable {d : PolicyDecision} {response result : Members}

theorem jsonable_responseResult (hresponse : policyCheckResponse d = some response) :
    ∃ result, response.lookup "result" = some (.obj result) ∧
      jsonableMembers (responseResult d) = some result := by
  have hlookup := lookup_jsonableMembers (by decide : isName "result" = true) hresponse
  have hget : Yaml.get
      [(.str "policy_id", d.policyId), (.str "policy_version", d.policyVersion),
       (.str "policy_hash", d.policyHash), (.str "result", .obj (responseResult d))] "result" =
      some (.obj (responseResult d)) := rfl
  rcases jsonable_of_get hresponse hget with ⟨doc, hdoc⟩
  rw [hget, Option.bind_some, hdoc] at hlookup
  simp only [jsonable, Option.map_eq_some_iff] at hdoc
  rcases hdoc with ⟨result, hresult, rfl⟩
  exact ⟨result, hlookup, hresult⟩

/-- What the SDK reads of a computed member is the raw one, where there is one. -/
theorem lookup_result {k : String} {value : Yaml} (hk : isName k = true)
    (hresult : jsonableMembers (responseResult d) = some result)
    (hvalue : [(Scalar.str "allowed", Yaml.bool d.allowed),
      (.str "requires_approval", Yaml.bool d.requiresApproval),
      (.str "reason", Yaml.str d.reason)].lookup (.str k) = some value) :
    ∃ doc, result.lookup k = some doc ∧
      jsonable ((Yaml.get d.raw k).getD value) = some doc := by
  have hget : Yaml.get (responseResult d) k = some ((Yaml.get d.raw k).getD value) :=
    lookup_mergeMembers hvalue
  rcases jsonable_of_get hresult hget with ⟨doc, hdoc⟩
  have hlookup := lookup_jsonableMembers hk hresult
  rw [hget, Option.bind_some, hdoc] at hlookup
  exact ⟨doc, hlookup, hdoc⟩

variable (hresult : jsonableMembers (responseResult d) = some result)

include hresult

/-- Both sides agree on whether an approval is needed. -/
theorem truthy_requiresApproval
    (hbool : d.requiresApproval = PolicyEngine.needsApproval d.raw) :
    (PyJson.get result "requires_approval").truthy = PolicyEngine.needsApproval d.raw := by
  rcases lookup_result (by decide : isName "requires_approval" = true) hresult rfl with
    ⟨doc, hlookup, hdoc⟩
  have htruthy := jsonable_truthy hdoc
  simp only [PyJson.get, hlookup, Option.getD_some, htruthy]
  cases hraw : Yaml.get d.raw "requires_approval" with
  | none => simp [hbool, PolicyEngine.needsApproval, hraw, Yaml.truthy, Yaml.bool, PyJson.truthy]
  | some value => simp [PolicyEngine.needsApproval, hraw]

theorem truthy_allowed (hbool : d.allowed = PolicyEngine.isAllowed d.raw) :
    (getOr result "allowed" (PyJson.bool true)).truthy = PolicyEngine.isAllowed d.raw := by
  rcases lookup_result (by decide : isName "allowed" = true) hresult rfl with ⟨doc, hlookup, hdoc⟩
  have htruthy := jsonable_truthy hdoc
  simp only [getOr, hlookup, Option.getD_some, htruthy]
  cases hraw : Yaml.get d.raw "allowed" with
  | none => simp [hbool, PolicyEngine.isAllowed, hraw, Yaml.truthy, Yaml.bool, PyJson.truthy]
  | some value => simp [PolicyEngine.isAllowed, hraw]

/-- The SDK finds `False` exactly where the rule says `False`, not where it says another value that
counts as false. -/
theorem isFalse_allowed (hbool : d.allowed = PolicyEngine.isAllowed d.raw) :
    isFalse (PyJson.get result "allowed") = true ↔
      Yaml.get d.raw "allowed" = some (Yaml.bool false) := by
  rcases lookup_result (by decide : isName "allowed" = true) hresult rfl with ⟨doc, hlookup, hdoc⟩
  have hfalse := jsonable_eq_false_iff hdoc
  -- `is False` holds of the one value only
  have hdoc' : isFalse doc = true ↔ doc = PyJson.bool false := by
    constructor
    · intro h
      unfold isFalse at h
      split at h
      · rfl
      · simp at h
    · rintro rfl
      rfl
  simp only [PyJson.get, hlookup, Option.getD_some, hdoc', hfalse]
  cases hraw : Yaml.get d.raw "allowed" with
  | none =>
      -- without a member of its own, the raw result allows
      have hallowed : d.allowed = true := by
        simp [hbool, PolicyEngine.isAllowed, hraw, Yaml.truthy, Yaml.bool, PyJson.truthy]
      simp [hallowed, Yaml.bool]
  | some value => simp

end Answer

/-! ## Calls that come through -/

theorem requireScope_status {scopes : List (String × String)} {resource action : String}
    {resp : Response} (h : requireScope scopes resource action = some resp) : 400 ≤ resp.status := by
  unfold requireScope at h
  split at h
  · simp only [Option.some.injEq] at h
    subst h
    simp [Response.exception]
  · split at h
    · simp at h
    · split at h
      · simp at h
      · simp only [Option.some.injEq] at h
        subst h
        simp [Response.exception]

section Calls

variable (session : Session) {policyId : String} {input : PyJson}

/-- The answer to a check that makes the request return. -/
theorem judge_policyCheck_iff {doc : PyJson} :
    Py.judge session.text false
        (.answered (session.app.policyCheck (session.checkBody policyId input))) = .returned doc ↔
      requireScope session.app.scopes "policies" "read" = none ∧
        ∃ d response, decisionFor session.app policyId input = some d ∧
          policyCheckResponse d = some response ∧ doc = .obj response := by
  cases hscope : requireScope session.app.scopes "policies" "read" with
  | some refusal =>
      simp [App.policyCheck, hscope, Py.judge_refusal session.text false (requireScope_status hscope)]
  | none =>
      -- an error status is raised by the SDK, whatever its detail
      have hinvalid : ∀ detail, Py.judge session.text false
          (.answered (.exception 422 detail)) ≠ .returned doc := fun detail =>
        Py.judge_refusal session.text false (by simp [Response.exception]) doc
      have hserver : Py.judge session.text false (.answered .serverError) ≠ .returned doc :=
        Py.judge_refusal session.text false (by decide) doc
      cases input with
      | leaf l =>
          simp [App.policyCheck, hscope, PolicyCheckRequest.validate, Session.checkBody, strField,
            dictField, decisionFor, List.lookup, hinvalid, PyJson.str]
      | arr items =>
          simp [App.policyCheck, hscope, PolicyCheckRequest.validate, Session.checkBody, strField,
            dictField, decisionFor, List.lookup, hinvalid, PyJson.str]
      | obj members =>
          -- only a mapping passes as the input of the check
          have hvalid : PolicyCheckRequest.validate (session.checkBody policyId (.obj members)) =
              .ok { policyId := policyId, input := members, runId := some session.runId } := rfl
          cases hdecision : session.app.engine.evaluate session.app.text policyId members with
          | error e =>
              simp [App.policyCheck, hscope, hvalid, hdecision, decisionFor, Except.toOption, hserver]
          | ok d =>
              cases hresponse : policyCheckResponse d with
              | none =>
                  simp [App.policyCheck, hscope, hvalid, hdecision, decisionFor, Except.toOption,
                    hresponse, hserver]
              | some response =>
                  simp [App.policyCheck, hscope, hvalid, hdecision, decisionFor, Except.toOption,
                    hresponse, eq_comm]

theorem post_check_iff {doc : PyJson} :
    session.post "/v1/policy/check" (session.checkBody policyId input) = .ok doc ↔
      0 < session.maxRetries ∧ encodable input = true ∧
        requireScope session.app.scopes "policies" "read" = none ∧
        ∃ d response, decisionFor session.app policyId input = some d ∧
          policyCheckResponse d = some response ∧ doc = .obj response := by
  have hsend : encodable (session.checkBody policyId input) = encodable input := by
    simp [Session.checkBody, encodable, encodableMembers, PyJson.str]
  rw [Session.post, Py.request_const_iff]
  cases hinput : encodable input with
  | false => simp [App.answer, Py.httpRequest, hsend, hinput, Py.judge]
  | true => simp [App.answer, Py.httpRequest, hsend, hinput, judge_policyCheck_iff]

/-- `policy_check` returns the result of a check that reaches the SDK. -/
theorem policyCheck_ok_iff {result : Members} :
    session.policyCheck policyId input = .ok result ↔
      ∃ d response, decisionFor session.app policyId input = some d ∧
        Checked session policyId input d (Session.checkedType result) response result := by
  constructor
  · intro hcheck
    cases hpost : session.post "/v1/policy/check" (session.checkBody policyId input) with
    | error e => simp [Session.policyCheck, bind, Except.bind, hpost] at hcheck
    | ok doc =>
        rcases (post_check_iff session).1 hpost with
          ⟨hattempts, hsend, hread, d, response, hdecision, hresponse, rfl⟩
        rcases jsonable_responseResult hresponse with ⟨result', hlookup, _⟩
        -- the result is there, but recording the check may still raise
        cases hemit : session.emit 0 (Session.checkedType result')
            (Session.checkedPayload policyId input response result') with
        | error e =>
            simp [Session.policyCheck, bind, Except.bind, hpost, asDict, getOr, hlookup, hemit]
              at hcheck
        | ok done =>
            simp only [Session.policyCheck, bind, Except.bind, hpost, asDict, getOr, hlookup,
              Option.getD_some, hemit, pure, Except.pure, Except.ok.injEq] at hcheck
            subst hcheck
            exact ⟨d, response, hdecision, hattempts, hsend, hread, hresponse, hlookup, hemit⟩
  · rintro ⟨d, response, hdecision, hchecked⟩
    have hpost : session.post "/v1/policy/check" (session.checkBody policyId input) =
        .ok (.obj response) :=
      (post_check_iff session).2 ⟨hchecked.attempts, hchecked.sendable, hchecked.mayRead, d,
        response, hdecision, hchecked.encoded, rfl⟩
    simp [Session.policyCheck, bind, Except.bind, hpost, asDict, getOr, hchecked.holdsResult,
      hchecked.recorded, pure, Except.pure]

/-- A reason the endpoint takes: `null` or a text. -/
def isOptionalStr : PyJson → Bool
  | .leaf .none => true
  | .leaf (.str _) => true
  | _ => false

theorem approvalsRequest_ok (policyId : String) (members : Members) {reason : PyJson}
    (hreview : requireScope session.app.scopes "approvals" "review" = none)
    (hreason : isOptionalStr reason = true) :
    ∃ approval, session.app.approvalsRequest
      (session.approvalBody policyId (.obj members) reason) = .ok (.obj approval) := by
  -- the service itself never raises
  have hservice : ∀ body, ∃ db' d, Collector.requestApproval session.app.env session.app.moment
      session.app.db session.app.principal body = .ok (db', d) := by
    intro body
    unfold Collector.requestApproval
    dsimp only
    split <;> exact ⟨_, _, rfl⟩
  -- the body is valid: the policy id and the reason are texts
  have hvalid : ∃ body, ApprovalBody.validate
      (session.approvalBody policyId (.obj members) reason) = .ok body := by
    unfold isOptionalStr at hreason
    split at hreason
    · exact ⟨_, rfl⟩
    · exact ⟨_, rfl⟩
    · simp at hreason
  rcases hvalid with ⟨body, hbody⟩
  rcases hservice body with ⟨db', d, hd⟩
  exact ⟨approvalMembers d, by simp [App.approvalsRequest, hreview, hbody, hd]⟩

theorem approvalsRequest_refused (policyId : String) (members : Members) {reason : PyJson}
    (h : ¬ (requireScope session.app.scopes "approvals" "review" = none ∧
      isOptionalStr reason = true)) :
    400 ≤ (session.app.approvalsRequest
      (session.approvalBody policyId (.obj members) reason)).status := by
  cases hreview : requireScope session.app.scopes "approvals" "review" with
  | some refusal => simpa [App.approvalsRequest, hreview] using requireScope_status hreview
  | none =>
      have hreason : isOptionalStr reason = false := by simpa [hreview] using h
      -- a reason that is no text fails the validation
      have hinvalid : ∃ fields, ApprovalBody.validate
          (session.approvalBody policyId (.obj members) reason) = .error fields := by
        cases reason with
        | leaf l => cases l <;> first | exact ⟨_, rfl⟩ | simp [isOptionalStr] at hreason
        | arr items => exact ⟨_, rfl⟩
        | obj fields => exact ⟨_, rfl⟩
      rcases hinvalid with ⟨fields, hfields⟩
      simp [App.approvalsRequest, hreview, hfields, Response.exception]

/-- `request_approval` returns where the events go through and the endpoint takes the body. -/
theorem requestApproval_ok_iff {members : Members} {reason : PyJson} :
    (∃ approval, session.requestApproval policyId (.obj members) reason = .ok approval) ↔
      session.emit 1 "approval.requested" (session.approvalBody policyId (.obj members) reason) =
          .ok () ∧
        session.flush = .ok () ∧ 0 < session.maxRetries ∧
        encodable (.obj members) = true ∧ encodable reason = true ∧
        requireScope session.app.scopes "approvals" "review" = none ∧
        isOptionalStr reason = true := by
  -- the body can be sent exactly if the input and the reason can
  have hsend : encodable (session.approvalBody policyId (.obj members) reason) =
      (encodable (.obj members) && encodable reason) := by
    simp [Session.approvalBody, encodable, encodableMembers, PyJson.str]
  have hpost : ∀ doc, session.post "/v1/approvals/request"
      (session.approvalBody policyId (.obj members) reason) = .ok doc ↔
        0 < session.maxRetries ∧ Py.judge session.text false (session.app.answer
          (Py.httpRequest "POST" "/v1/approvals/request"
            (some (session.approvalBody policyId (.obj members) reason)) PyJson.none)) =
          .returned doc := by
    intro doc
    rw [Session.post, Py.request_const_iff]
  constructor
  · rintro ⟨approval, hrequest⟩
    cases hemit : session.emit 1 "approval.requested"
        (session.approvalBody policyId (.obj members) reason) with
    | error e => simp [Session.requestApproval, bind, Except.bind, hemit] at hrequest
    | ok done =>
        cases hflush : session.flush with
        | error e => simp [Session.requestApproval, bind, Except.bind, hemit, hflush] at hrequest
        | ok done =>
            cases hanswer : session.post "/v1/approvals/request"
                (session.approvalBody policyId (.obj members) reason) with
            | error e =>
                simp [Session.requestApproval, bind, Except.bind, hemit, hflush, hanswer]
                  at hrequest
            | ok doc =>
                rcases (hpost doc).1 hanswer with ⟨hattempts, hjudge⟩
                have hencodable : encodable (session.approvalBody policyId (.obj members) reason) =
                    true := by
                  by_contra hnot
                  simp [App.answer, Py.httpRequest, hnot, Py.judge] at hjudge
                -- the endpoint has answered with a status below 400
                have htaken : requireScope session.app.scopes "approvals" "review" = none ∧
                    isOptionalStr reason = true := by
                  by_contra hnot
                  have hrefused := approvalsRequest_refused session policyId members hnot
                  refine Py.judge_refusal session.text false hrefused doc ?_
                  simpa [App.answer, Py.httpRequest, hencodable] using hjudge
                rw [hsend, Bool.and_eq_true] at hencodable
                exact ⟨rfl, rfl, hattempts, hencodable.1, hencodable.2, htaken⟩
  · rintro ⟨hemit, hflush, hattempts, hinput, hreason, hreview, htext⟩
    rcases approvalsRequest_ok session policyId members hreview htext with ⟨approval, happroval⟩
    have hanswer : session.post "/v1/approvals/request"
        (session.approvalBody policyId (.obj members) reason) = .ok (.obj approval) := by
      refine (hpost _).2 ⟨hattempts, ?_⟩
      simp [App.answer, Py.httpRequest, hsend, hinput, hreason, happroval]
    exact ⟨approval, by
      simp [Session.requestApproval, bind, Except.bind, hemit, hflush, hanswer, asDict]⟩

end Calls

/-- A raw reason is taken by the endpoint where it is a text or nothing. -/
theorem isOptionalStr_jsonable {value : Yaml} {doc : PyJson} (h : jsonable value = some doc) :
    isOptionalStr doc = isText value := by
  cases value with
  | leaf l =>
      cases l with
      | json s => cases s <;> simp [jsonable] at h <;> subst h <;> rfl
      | timestamp text =>
          simp only [jsonable, Option.some.injEq] at h
          subst h
          rfl
      | binary bytes =>
          simp only [jsonable, Option.map_eq_some_iff] at h
          rcases h with ⟨s, _, rfl⟩
          rfl
  | arr items =>
      simp only [jsonable, Option.map_eq_some_iff] at h
      rcases h with ⟨js, _, rfl⟩
      rfl
  | obj members =>
      simp only [jsonable, Option.map_eq_some_iff] at h
      rcases h with ⟨js, _, rfl⟩
      rfl

/-! ## Enforcing -/

theorem decisionFor_input {app : App} {policyId : String} {input : PyJson} {d : PolicyDecision}
    (h : decisionFor app policyId input = some d) : ∃ members, input = .obj members := by
  cases input with
  | leaf l => simp [decisionFor] at h
  | arr items => simp [decisionFor] at h
  | obj members => exact ⟨members, rfl⟩

section Enforce

variable {session : Session} {policyId : String} {input : PyJson} {d : PolicyDecision}

/-- The result that a check brings to the SDK is that of the decision. -/
theorem Checked.jsonable_result {eventType : String} {response result : Members}
    (h : Checked session policyId input d eventType response result) :
    jsonableMembers (responseResult d) = some result := by
  rcases jsonable_responseResult h.encoded with ⟨result', hlookup, hresult⟩
  have heq : result = result' := by
    simpa using h.holdsResult.symm.trans hlookup
  exact heq ▸ hresult

theorem checkedType_eq {result : Members} (hdecision : decisionFor session.app policyId input = some d)
    (hresult : jsonableMembers (responseResult d) = some result) :
    Session.checkedType result =
      if PolicyEngine.isAllowed d.raw || PolicyEngine.needsApproval d.raw then "policy.check.passed"
      else "policy.check.failed" := by
  rcases decisionFor_eq_bool hdecision with ⟨hallowed, hrequires⟩
  simp only [Session.checkedType, truthy_allowed hresult hallowed,
    truthy_requiresApproval hresult hrequires]

/-- A decision that asks for an approval. -/
theorem enforcePolicy_approval_iff (hdecision : decisionFor session.app policyId input = some d)
    (hneeds : PolicyEngine.needsApproval d.raw = true) :
    (∃ message approvalId id, session.enforcePolicy policyId input =
        .error (.approvalRequired message approvalId id)) ↔
      Approvable session policyId input d := by
  rcases decisionFor_eq_bool hdecision with ⟨hallowed, hrequires⟩
  rcases decisionFor_input hdecision with ⟨members, rfl⟩
  constructor
  · rintro ⟨message, approvalId, id, houtcome⟩
    cases hcheck : session.policyCheck policyId (.obj members) with
    | error e => simp [Session.enforcePolicy, hcheck] at houtcome
    | ok result =>
        rcases (policyCheck_ok_iff session).1 hcheck with ⟨d', response, hd', hchecked⟩
        obtain rfl : d = d' := by simpa using hdecision.symm.trans hd'
        have hresult := hchecked.jsonable_result
        have htruthy : (PyJson.get result "requires_approval").truthy = true :=
          (truthy_requiresApproval hresult hrequires).trans hneeds
        -- a decision that needs approval is recorded as passed
        have hevent : Session.checkedType result = "policy.check.passed" := by
          simp [checkedType_eq hdecision hresult, hneeds]
        cases hrequest : session.requestApproval policyId (.obj members)
            (getOr result "reason" (PyJson.str "approval required")) with
        | error e =>
            simp [Session.enforcePolicy, hcheck, Session.enforceResult, htruthy, hrequest]
              at houtcome
        | ok approval =>
            rcases (requestApproval_ok_iff session).1 ⟨approval, hrequest⟩ with
              ⟨hemit, hflush, _, _, _, hreview, htext⟩
            refine ⟨fun reason hreason => ?_, hreview, response, result, hevent ▸ hchecked, hemit,
              hflush⟩
            rcases lookup_result (by decide : isName "reason" = true) hresult rfl with
              ⟨doc, hlookup, hdoc⟩
            rw [hreason, Option.getD_some] at hdoc
            rw [getOr, hlookup, Option.getD_some, isOptionalStr_jsonable hdoc] at htext
            exact htext
  · rintro ⟨hreason, hreview, response, result, hchecked, hemit, hflush⟩
    have hresult := hchecked.jsonable_result
    have htruthy : (PyJson.get result "requires_approval").truthy = true :=
      (truthy_requiresApproval hresult hrequires).trans hneeds
    have hevent : Session.checkedType result = "policy.check.passed" := by
      simp [checkedType_eq hdecision hresult, hneeds]
    have hcheck : session.policyCheck policyId (.obj members) = .ok result :=
      (policyCheck_ok_iff session).2 ⟨d, response, hdecision, hevent.symm ▸ hchecked⟩
    rcases lookup_result (by decide : isName "reason" = true) hresult rfl with
      ⟨doc, hlookup, hdoc⟩
    have hgetOr : getOr result "reason" (PyJson.str "approval required") = doc := by
      simp [getOr, hlookup]
    have htext : isOptionalStr doc = true := by
      rw [isOptionalStr_jsonable hdoc]
      cases hraw : Yaml.get d.raw "reason" with
      | none => rfl
      | some reason => exact hreason reason hraw
    have hgranted : ∃ approval, session.requestApproval policyId (.obj members)
        (getOr result "reason" (PyJson.str "approval required")) = .ok approval :=
      (requestApproval_ok_iff session).2 ⟨hemit, hflush, hchecked.attempts, hchecked.sendable,
        hgetOr ▸ jsonable_encodable _ hdoc, hreview, hgetOr ▸ htext⟩
    rcases hgranted with ⟨approval, hrequest⟩
    refine ⟨getOr result "reason" (PyJson.str "approval required"),
      getOr approval "approval_id" (PyJson.str ""), policyId, ?_⟩
    simp [Session.enforcePolicy, hcheck, Session.enforceResult, htruthy, hrequest]

/-- A decision that refuses without an approval. -/
theorem enforcePolicy_denied_iff (hdecision : decisionFor session.app policyId input = some d)
    (hneeds : PolicyEngine.needsApproval d.raw = false)
    (hrefuses : PolicyEngine.isAllowed d.raw = false) :
    (∃ message id reason, session.enforcePolicy policyId input =
        .error (.denied message id reason)) ↔
      Refusable session policyId input d := by
  rcases decisionFor_eq_bool hdecision with ⟨hallowed, hrequires⟩
  constructor
  · rintro ⟨message, id, reason, houtcome⟩
    cases hcheck : session.policyCheck policyId input with
    | error e => simp [Session.enforcePolicy, hcheck] at houtcome
    | ok result =>
        rcases (policyCheck_ok_iff session).1 hcheck with ⟨d', response, hd', hchecked⟩
        obtain rfl : d = d' := by simpa using hdecision.symm.trans hd'
        have hresult := hchecked.jsonable_result
        have htruthy : (PyJson.get result "requires_approval").truthy = false :=
          (truthy_requiresApproval hresult hrequires).trans hneeds
        have hevent : Session.checkedType result = "policy.check.failed" := by
          simp [checkedType_eq hdecision hresult, hneeds, hrefuses]
        cases hfalse : isFalse (PyJson.get result "allowed") with
        | false =>
            -- a value that only counts as false is let through
            cases hemit : session.emit 1 "policy.enforcement.allowed"
                (Session.enforcedPayload policyId input result) <;>
              simp [Session.enforcePolicy, hcheck, Session.enforceResult, htruthy, hfalse, hemit]
                at houtcome
        | true =>
            cases hemit : session.emit 1 "policy.enforcement.blocked"
                (Session.enforcedPayload policyId input result) with
            | error e =>
                simp [Session.enforcePolicy, hcheck, Session.enforceResult, htruthy, hfalse, hemit]
                  at houtcome
            | ok done =>
                exact ⟨(isFalse_allowed hresult hallowed).1 hfalse, response, result,
                  hevent ▸ hchecked, hemit⟩
  · rintro ⟨hfalse, response, result, hchecked, hemit⟩
    have hresult := hchecked.jsonable_result
    have htruthy : (PyJson.get result "requires_approval").truthy = false :=
      (truthy_requiresApproval hresult hrequires).trans hneeds
    have hevent : Session.checkedType result = "policy.check.failed" := by
      simp [checkedType_eq hdecision hresult, hneeds, hrefuses]
    have hcheck : session.policyCheck policyId input = .ok result :=
      (policyCheck_ok_iff session).2 ⟨d, response, hdecision, hevent.symm ▸ hchecked⟩
    have hisFalse := (isFalse_allowed hresult hallowed).2 hfalse
    refine ⟨getOr result "reason" (PyJson.str "policy denied"), policyId,
      getOr result "reason" (PyJson.str ""), ?_⟩
    simp [Session.enforcePolicy, hcheck, Session.enforceResult, htruthy, hisFalse, hemit]

/-- A call that returns normally had a decision that asks for no approval. -/
theorem enforcePolicy_returns {doc : PyJson} (h : session.enforcePolicy policyId input = .ok doc) :
    ∃ d, decisionFor session.app policyId input = some d ∧
      PolicyEngine.needsApproval d.raw = false := by
  cases hcheck : session.policyCheck policyId input with
  | error e => simp [Session.enforcePolicy, hcheck] at h
  | ok result =>
      rcases (policyCheck_ok_iff session).1 hcheck with ⟨d, response, hdecision, hchecked⟩
      refine ⟨d, hdecision, ?_⟩
      by_contra hneeds
      have htruthy : (PyJson.get result "requires_approval").truthy = true := by
        rw [truthy_requiresApproval hchecked.jsonable_result (decisionFor_eq_bool hdecision).2]
        simpa using hneeds
      cases hrequest : session.requestApproval policyId input
          (getOr result "reason" (PyJson.str "approval required")) <;>
        simp [Session.enforcePolicy, hcheck, Session.enforceResult, htruthy, hrequest] at h

end Enforce

/-! ## A refusal that is left empty -/

namespace EnforceExample

/-- A policy whose one rule has `allowed:` without a value. -/
def wirePolicy : Yaml :=
  .obj
    [(.str "policy_id", Yaml.str "wire"),
     (.str "rules", .arr
       [.obj [(.str "default", Yaml.none), (.str "result", .obj [(.str "allowed", Yaml.none)])]])]

def canonicalHash (_ : Yaml) : Except PyException String :=
  .ok "sha256:bbbbfdfc755e0a1ce2324bf08fadfac61f20833338b3bb1f6c32ba8de7c42bc1"

def engine : PolicyEngine :=
  match PolicyEngine.load canonicalHash [wirePolicy] with
  | .ok engine => engine
  | .error _ => {}

def session : Session :=
  { app :=
      { env := CollectorExample.env
        moment := CollectorExample.moment
        db := {}
        principal := CollectorExample.owner
        scopes := [("runs", "write"), ("events", "write"), ("policies", "read"),
          ("approvals", "review"), ("exports", "create")]
        engine := engine
        text := fun _ => ""
        validationDetail := fun _ => .arr [] }
    maxRetries := 4
    text := fun _ => ""
    runId := "run_1"
    approvalId := "appr_1"
    emit := fun _ _ _ => .ok ()
    flush := .ok () }

end EnforceExample

end Sdk
end ControlDB
