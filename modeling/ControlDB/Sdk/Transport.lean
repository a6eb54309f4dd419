import ControlDB.Python.Http

/-!
# Requests of the SDKs

`request` and `_raise_for_status` of `transport.py` in the Python SDK, and `request` and
`raiseForStatus` of `transport.ts`.  What the network and the HTTP client make of an attempt is the
parameter `exchange`; the waiting between two attempts is left out.  `text` is `str` in Python and
`String` in TypeScript, on a value that is not a text.
-/

namespace ControlDB
namespace Sdk

open Library Python Http

/-! ## Errors -/

/-- The classes of `errors.py` that the transport raises, `httpx.HTTPError`, the failed assertion of
a request without attempts, and any other exception. -/
inductive ErrorKind
  | authentication
  | authorization
  | validation
  | idempotencyConflict
  | payloadTooLarge
  | collectorUnavailable
  | http
  | assertion
  | other
  deriving DecidableEq

/-- An exception with the message it is built from. -/
structure SdkError where
  kind : ErrorKind
  message : PyJson

/-- The class raised for a status from 400 on. -/
def statusKind (status : Nat) : ErrorKind :=
  if status = 401 then .authentication
  else if status = 403 then .authorization
  else if status = 409 then .idempotencyConflict
  else if status = 413 then .payloadTooLarge
  else if status = 422 then .validation
  else .collectorUnavailable

/-! ## The loop over the attempts -/

/-- How `request` goes on after an attempt. -/
inductive Verdict
  | returned (doc : PyJson)
  | retry (lastError : SdkError)
  | raised (error : SdkError)

def Verdict.isReturned : Verdict → Bool
  | .returned _ => true
  | _ => false

def Verdict.isRetry : Verdict → Bool
  | .retry _ => true
  | _ => false

section Loop

-- The SDKs differ in how they judge an attempt, which may depend on its being the last one, and in
-- what they raise when no attempt is left.
variable (judge : Bool → Exchange → Verdict) (exhausted : Option SdkError → SdkError)
  (exchange : Nat → Exchange)

/-- The loop from attempt `attempt` on, with `left` attempts to go. -/
def attemptLoop : (left attempt : Nat) → (lastError : Option SdkError) → Except SdkError PyJson
  | 0, _, lastError => .error (exhausted lastError)
  | left + 1, attempt, _ =>
      match judge (decide (left = 0)) (exchange attempt) with
      | .returned doc => .ok doc
      | .retry e => attemptLoop left (attempt + 1) (some e)
      | .raised e => .error e

/-- One of the `left` attempts from `attempt` on is answered well, and all before it are worth
another try. -/
def Delivers (left attempt : Nat) : Prop :=
  ∃ k < left,
    (judge (decide (k + 1 = left)) (exchange (attempt + k))).isReturned = true ∧
      ∀ j < k, (judge false (exchange (attempt + j))).isRetry = true

variable {judge exhausted exchange}

theorem not_delivers_zero (attempt : Nat) : ¬ Delivers judge exchange 0 attempt := by
  rintro ⟨k, hk, _⟩
  exact absurd hk (Nat.not_lt_zero k)

theorem delivers_succ_iff (left attempt : Nat) :
    Delivers judge exchange (left + 1) attempt ↔
      (judge (decide (left = 0)) (exchange attempt)).isReturned = true ∨
        (judge (decide (left = 0)) (exchange attempt)).isRetry = true ∧
          Delivers judge exchange left (attempt + 1) := by
  constructor
  · rintro ⟨k, hk, hreturned, hretry⟩
    cases k with
    | zero =>
        left
        simpa using hreturned
    | succ k =>
        -- more attempts follow the first one, so it is not the last
        have hnotLast : left ≠ 0 := by omega
        have hfirst := hretry 0 (Nat.succ_pos k)
        refine .inr ⟨by simpa [hnotLast] using hfirst, k, by omega, ?_, fun j hj => ?_⟩
        · simpa [Nat.add_assoc, Nat.add_comm 1 k] using hreturned
        · simpa [Nat.add_assoc, Nat.add_comm 1 j] using hretry (j + 1) (by omega)
  · rintro (hreturned | ⟨hfirst, k, hk, hreturned, hretry⟩)
    · exact ⟨0, Nat.succ_pos left, by simpa using hreturned, fun j hj => absurd hj (Nat.not_lt_zero j)⟩
    · have hnotLast : left ≠ 0 := by omega
      refine ⟨k + 1, by omega, ?_, fun j hj => ?_⟩
      · simpa [Nat.add_assoc, Nat.add_comm 1 k] using hreturned
      · cases j with
        | zero => simpa [hnotLast] using hfirst
        | succ j => simpa [Nat.add_assoc, Nat.add_comm 1 j] using hretry j (by omega)

/-- A request returns exactly when one of its attempts is answered well. -/
theorem attemptLoop_ok_iff (left attempt : Nat) (lastError : Option SdkError) :
    (∃ doc, attemptLoop judge exhausted exchange left attempt lastError = .ok doc) ↔
      Delivers judge exchange left attempt := by
  induction left generalizing attempt lastError with
  | zero => simp [attemptLoop, not_delivers_zero]
  | succ left ih =>
      rw [delivers_succ_iff]
      cases hverdict : judge (decide (left = 0)) (exchange attempt) with
      | returned doc => simp [attemptLoop, hverdict, Verdict.isReturned]
      | retry e => simp [attemptLoop, hverdict, Verdict.isReturned, Verdict.isRetry, ih]
      | raised e => simp [attemptLoop, hverdict, Verdict.isReturned, Verdict.isRetry]

/-- Where every attempt has the same outcome, the first one settles the request. -/
theorem attemptLoop_const_iff {exchanged : Exchange} (hlast : ∀ last, judge last = judge false)
    (left attempt : Nat) (lastError : Option SdkError) (doc : PyJson) :
    attemptLoop judge exhausted (fun _ => exchanged) left attempt lastError = .ok doc ↔
      0 < left ∧ judge false exchanged = .returned doc := by
  induction left generalizing attempt lastError with
  | zero => simp [attemptLoop]
  | succ left ih =>
      cases hverdict : judge false exchanged with
      | returned doc' => simp [attemptLoop, hlast, hverdict]
      | retry e => simp [attemptLoop, hlast, hverdict, ih]
      | raised e => simp [attemptLoop, hlast, hverdict]

end Loop

/-! ## Python -/

namespace Py

variable (text : PyJson → String)

/-- `str(value)` and the replacement field of an f-string. -/
def format : PyJson → String
  | .leaf (.str s) => s
  | value => text value

/-- `message or default`. -/
def messageOr (message : PyJson) (default : String) : PyJson :=
  if message.truthy then message else .str default

/-- The `message` of `_raise_for_status`: the `detail` of a JSON object, else the body's text. -/
def errorMessage : Content → PyJson
  | .json (.obj members) => PyJson.get members "detail"
  | .json doc => .str (format text doc)
  | .text s => .str s
  | .empty => .str ""

/-- What is said where the response has no message. -/
def defaultMessage (status : Nat) : String :=
  if status = 401 then "unauthenticated"
  else if status = 403 then "forbidden"
  else if status = 409 then "conflict"
  else if status = 413 then "payload too large"
  else if status = 422 then "validation error"
  else if status ≥ 500 then s!"collector status {status}"
  else s!"unexpected status {status}"

/-- `_raise_for_status`. -/
def raiseForStatus (resp : Response) : Except SdkError Unit :=
  if resp.status < 400 then .ok ()
  else
    .error
      { kind := statusKind resp.status
        message := messageOr (errorMessage text resp.content) (defaultMessage resp.status) }

/-- The body of the loop in `request`: only a `CollectorUnavailableError` and an `httpx.HTTPError`
are tried again, and a body that is no JSON document raises. -/
def judge (_last : Bool) : Exchange → Verdict
  | .httpError reason => .retry ⟨.http, .str reason⟩
  | .raised reason => .raised ⟨.other, .str reason⟩
  | .answered resp =>
      match raiseForStatus text resp with
      | .error e => if e.kind = .collectorUnavailable then .retry e else .raised e
      | .ok () =>
          if resp.status = 204 then .returned (.obj [])
          else
            match resp.content with
            | .empty => .returned (.obj [])
            | .json doc => .returned doc
            | .text s => .raised ⟨.other, .str s⟩

/-- `assert last_error is not None; raise last_error`. -/
def exhausted (lastError : Option SdkError) : SdkError :=
  lastError.getD ⟨.assertion, .str ""⟩

/-- What `request` hands to `httpx`. -/
def httpRequest (method path : String) (jsonBody : Option PyJson) (idempotencyKey : PyJson) :
    HttpRequest :=
  { method := method
    path := path
    jsonBody := jsonBody
    idempotencyKey := if idempotencyKey.truthy then some idempotencyKey else none }

/-- `Transport.request`; `range(attempts)` is empty for a negative `max_retries`. -/
def request (maxRetries : Int) (exchange : Nat → HttpRequest → Exchange) (req : HttpRequest)
    (retry : Bool) : Except SdkError PyJson :=
  let attempts := if retry then maxRetries else 1
  attemptLoop (judge text) exhausted (fun attempt => exchange attempt req) attempts.toNat 0 none

/-- A request to a peer that always answers alike. -/
theorem request_const_iff {maxRetries : Int} {answer : HttpRequest → Exchange} {req : HttpRequest}
    {doc : PyJson} :
    request text maxRetries (fun _ => answer) req true = .ok doc ↔
      0 < maxRetries ∧ judge text false (answer req) = .returned doc := by
  simp only [request, if_true]
  rw [attemptLoop_const_iff fun _ => rfl]
  constructor <;> rintro ⟨hattempts, hjudge⟩ <;> exact ⟨by omega, hjudge⟩

@[simp] theorem judge_ok (last : Bool) (doc : PyJson) :
    judge text last (.answered (.ok doc)) = .returned doc := by
  simp [judge, raiseForStatus, Response.ok]

/-- A status from 400 on never makes a request return. -/
theorem judge_refusal (last : Bool) {resp : Response} (hstatus : 400 ≤ resp.status)
    (doc : PyJson) : judge text last (.answered resp) ≠ .returned doc := by
  simp only [judge, raiseForStatus, Nat.not_lt.2 hstatus, if_false]
  split <;> simp

end Py

/-! ## TypeScript -/

namespace Ts

/-- A value in a condition: `[]` and `{}` count as true here. -/
def truthy : PyJson → Bool
  | .arr _ => true
  | .obj _ => true
  | value => value.truthy

/-- The `message` of `raiseForStatus`: a `detail` that is a text, else the status text. -/
def errorMessage (resp : Response) : String :=
  match resp.content with
  | .json (.obj members) =>
      match PyJson.get members "detail" with
      | .leaf (.str s) => s
      | _ => resp.statusText
  -- a document that is `null` has no members to read, so the `catch` branch is taken
  | .json (.leaf .none) => if resp.statusText ≠ "" then resp.statusText else toString resp.status
  | .json _ => resp.statusText
  | .text _ => if resp.statusText ≠ "" then resp.statusText else toString resp.status
  | .empty => if resp.statusText ≠ "" then resp.statusText else toString resp.status

/-- `raiseForStatus`; only the last class has a message of its own for an empty one. -/
def raiseForStatus (resp : Response) : Except SdkError Unit :=
  let message := errorMessage resp
  if resp.status < 400 then .ok ()
  else if statusKind resp.status = .collectorUnavailable ∧ message = "" then
    .error ⟨.collectorUnavailable, .str s!"collector status {resp.status}"⟩
  else .error ⟨statusKind resp.status, .str message⟩

/-- The body of the loop in `request`: a 5xx answer is tried again before it is thrown, and what is
thrown is tried again unless it is one of the five classes of the `catch` branch. -/
def judge (last : Bool) : Exchange → Verdict
  | .httpError reason => .retry ⟨.http, .str reason⟩
  | .raised reason => .retry ⟨.other, .str reason⟩
  | .answered resp =>
      if resp.status ≥ 500 ∧ last = false then
        .retry ⟨.collectorUnavailable, .str s!"collector status {resp.status}"⟩
      else
        match raiseForStatus resp with
        | .error e => if e.kind = .collectorUnavailable then .retry e else .raised e
        | .ok () =>
            if resp.status = 204 then .returned (.obj [])
            else
              match resp.content with
              | .empty => .returned (.obj [])
              | .json doc => .returned doc
              | .text _ => .returned (.obj [])

/-- `throw lastError instanceof Error ? lastError : new CollectorUnavailableError(...)`. -/
def exhausted (lastError : Option SdkError) : SdkError :=
  lastError.getD ⟨.collectorUnavailable, .str "undefined"⟩

/-- What `request` hands to `fetch`. -/
def httpRequest (method path : String) (body : Option PyJson) (idempotencyKey : PyJson) :
    HttpRequest :=
  { method := method
    path := path
    jsonBody := body
    idempotencyKey := if truthy idempotencyKey then some idempotencyKey else none }

/-- `Transport.request`. -/
def request (maxRetries : Int) (exchange : Nat → HttpRequest → Exchange) (req : HttpRequest)
    (retry : Bool) : Except SdkError PyJson :=
  let attempts := if retry then maxRetries else 1
  attemptLoop judge exhausted (fun attempt => exchange attempt req) attempts.toNat 0 none

end Ts
end Sdk
end ControlDB
