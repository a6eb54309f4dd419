import ControlDB.Library.Decimal
import ControlDB.Core.Types

/-!
# Canonical JSON and the SHA-256 hash chain

The hand-written encoder of `hash_chain.cpp`, the event hash and `verify_chain`.  The digest is
OpenSSL's `SHA256`, here the parameter `sha256`; everything around it is the source's own code.

`gmtime_r` and the `printf` conversions are the C library's: the proleptic Gregorian calendar and
zero-padded decimals.
-/

namespace ControlDB

open Library

/-! ## `json_escape` -/

/-- A lower-case hex digit, as `%x` and `std::hex` print it. -/
def hexDigit (n : UInt8) : UInt8 :=
  if n < 10 then 0x30 + n else 0x57 + n

/-- One iteration of the `json_escape` loop. -/
def escapeByte (c : UInt8) : Bytes :=
  if c = 0x22 then bytes "\\\""
  else if c = 0x5c then bytes "\\\\"
  else if c = 0x0a then bytes "\\n"
  else if c = 0x0d then bytes "\\r"
  else if c = 0x09 then bytes "\\t"
  else if c < 0x20 then bytes "\\u00" ++ [hexDigit (c / 16), hexDigit (c % 16)]
  else [c]

def jsonEscape (s : Bytes) : Bytes :=
  0x22 :: (s.flatMap escapeByte ++ [0x22])

/-! ## Decimal conversions -/

/-- `std::to_string(int64_t)`. -/
def toDecimal (v : Int) : Bytes :=
  if v < 0 then 0x2d :: decimal v.natAbs else decimal v.toNat

/-- `snprintf` with `%0<w>d`. -/
def padded (w : Nat) (v : Int) : Bytes :=
  if v < 0 then 0x2d :: zeroPadded (w - 1) v.natAbs else zeroPadded w v.toNat

/-! ## `gmtime_r` and `ms_to_iso` -/

/-- The members of `struct tm` that `ms_to_iso` prints. -/
structure Tm where
  tmYear : Int
  tmMon : Int
  tmMday : Int
  tmHour : Int
  tmMin : Int
  tmSec : Int
  deriving DecidableEq, Repr

/-- Broken-down UTC time.  Days are counted from 1 March of year 0 in eras of 400 years, so that
the leap day is the last day of its year. -/
def gmtime (sec : Int) : Tm :=
  let z := sec / 86400 + 719468
  let era := z / 146097
  let doe := z % 146097
  let yoe := (doe - doe / 1460 + doe / 36524 - doe / 146096) / 365
  let doy := doe - (365 * yoe + yoe / 4 - yoe / 100)
  let mp := (5 * doy + 2) / 153
  let month := if mp < 10 then mp + 3 else mp - 9
  { tmYear := yoe + era * 400 + (if month ≤ 2 then 1 else 0) - 1900
    tmMon := month - 1
    tmMday := doy - (153 * mp + 2) / 5 + 1
    tmHour := sec % 86400 / 3600
    tmMin := sec % 3600 / 60
    tmSec := sec % 60 }

/-- The lambda `ms_to_iso` of `canonical_json_event`; `char buf[32]` keeps 31 characters. -/
def msToIso (ms : Int) : Bytes :=
  let sec := ms.tdiv 1000
  let millis := ms.tmod 1000
  let t := gmtime sec
  (padded 4 (t.tmYear + 1900) ++ bytes "-" ++ padded 2 (t.tmMon + 1) ++ bytes "-" ++
    padded 2 t.tmMday ++ bytes "T" ++ padded 2 t.tmHour ++ bytes ":" ++ padded 2 t.tmMin ++
    bytes ":" ++ padded 2 t.tmSec ++ bytes "." ++ padded 3 millis ++ bytes "Z").take 31

example : msToIso 1714521600000 = bytes "2024-05-01T00:00:00.000Z" := by decide +kernel

/-! ## `canonical_json_event` -/

def kvStr (k : String) (v : Bytes) : Bytes :=
  jsonEscape (bytes k) ++ bytes ":" ++ jsonEscape v

def kvInt (k : String) (v : Int) : Bytes :=
  jsonEscape (bytes k) ++ bytes ":" ++ toDecimal v

def kvNull (k : String) : Bytes :=
  jsonEscape (bytes k) ++ bytes ":null"

/-- The raw text is spliced in as it is. -/
def kvRaw (k : String) (raw : Bytes) : Bytes :=
  jsonEscape (bytes k) ++ bytes ":" ++ raw

/-- The pattern `if (v.empty()) kv_null(k) else kv_str(k, v)`. -/
def kvNullable (k : String) (v : Bytes) : Bytes :=
  if v = [] then kvNull k else kvStr k v

def actorJson (ev : AuditEvent) : Bytes :=
  bytes "\x7b" ++ jsonEscape (bytes "id") ++ bytes ":" ++ jsonEscape ev.actorId ++ bytes "," ++
    jsonEscape (bytes "type") ++ bytes ":" ++ jsonEscape ev.actorType ++ bytes "\x7d"

/-- The vector `pairs`, one element per envelope key in alphabetical order. -/
def canonicalPairs (ev : AuditEvent) : List Bytes :=
  [ if ev.actorType = [] ∧ ev.actorId = [] then kvNull "actor" else kvRaw "actor" (actorJson ev),
    kvStr "environment" ev.environment,
    kvStr "event_id" ev.eventId,
    kvStr "event_type" ev.eventType,
    kvNullable "idempotency_key" ev.idempotencyKey,
    kvStr "ingested_at" (msToIso ev.ingestedAtMs),
    kvStr "occurred_at" (msToIso ev.occurredAtMs),
    kvStr "org_id" ev.orgId,
    kvNullable "parent_span_id" ev.parentSpanId,
    if ev.payload = [] ∨ ev.payload = bytes "null" then kvNull "payload"
      else kvRaw "payload" ev.payload,
    kvNullable "payload_hash" ev.payloadHash,
    kvStr "payload_mode" ev.payloadMode,
    kvNullable "previous_event_hash" ev.previousEventHash,
    kvStr "project_id" ev.projectId,
    kvStr "run_id" ev.runId,
    kvStr "schema_version" ev.schemaVersion,
    kvNullable "span_id" ev.spanId,
    kvNullable "step_id" ev.stepId,
    if ev.stepIndex < 0 then kvNull "step_index" else kvInt "step_index" ev.stepIndex,
    kvNullable "trace_id" ev.traceId ]

def canonicalJsonEvent (ev : AuditEvent) : Bytes :=
  bytes "\x7b" ++ (bytes ",").intercalate (canonicalPairs ev) ++ bytes "\x7d"

/-! ## SHA-256 -/

/-- OpenSSL's `SHA256`: any data to a digest of `SHA256_DIGEST_LENGTH` bytes. -/
abbrev Sha256 := Bytes → Vector UInt8 32

variable (sha256 : Sha256)

def sha256Hex (data : Bytes) : HashStr :=
  bytes "sha256:" ++ (sha256 data).toList.flatMap fun b => [hexDigit (b / 16), hexDigit (b % 16)]

def computeEventHash (ev : AuditEvent) : HashStr :=
  sha256Hex sha256 (canonicalJsonEvent ev)

def computePayloadHash (payloadJson : Bytes) : HashStr :=
  sha256Hex sha256 (if payloadJson = [] ∨ payloadJson = bytes "null" then bytes "\x7b\x7d" else payloadJson)

/-! ## Chain verification -/

/-- The loop of `verify_chain`: the id of the first event that breaks the chain, if any. -/
def verifyLoop (expectedPrev : HashStr) : List AuditEvent → Option Bytes
  | [] => none
  | ev :: rest =>
      if ev.previousEventHash ≠ expectedPrev then some ev.eventId
      else if computeEventHash sha256 ev ≠ ev.eventHash then some ev.eventId
      else verifyLoop ev.eventHash rest

def verifyChain (events : List AuditEvent) (runId : Bytes) : VerificationResult :=
  match verifyLoop sha256 [] events with
  | none => { runId := runId, valid := true, eventCount := events.length }
  | some eventId =>
      { runId := runId, valid := false, eventCount := events.length, brokenAtEventId := eventId }

/-! ### Specification of the loop -/

/-- `ChainFrom h events`: the events continue a chain whose last hash is `h`. -/
def ChainFrom (h : HashStr) : List AuditEvent → Prop
  | [] => True
  | ev :: rest =>
      ev.previousEventHash = h ∧ computeEventHash sha256 ev = ev.eventHash ∧
        ChainFrom ev.eventHash rest

/-- The hash of the last event of a chain that continues from `h`. -/
def lastHash (h : HashStr) : List AuditEvent → HashStr
  | [] => h
  | ev :: rest => lastHash ev.eventHash rest

@[simp] theorem lastHash_nil (h : HashStr) : lastHash h [] = h := rfl

@[simp] theorem lastHash_cons (h : HashStr) (ev : AuditEvent) (rest : List AuditEvent) :
    lastHash h (ev :: rest) = lastHash ev.eventHash rest := rfl

theorem lastHash_append (h : HashStr) (es fs : List AuditEvent) :
    lastHash h (es ++ fs) = lastHash (lastHash h es) fs := by
  induction es generalizing h with
  | nil => rfl
  | cons e es ih => exact ih e.eventHash

theorem getLast?_eventHash (h : HashStr) (es : List AuditEvent) :
    (es.getLast?.map AuditEvent.eventHash).getD h = lastHash h es := by
  induction es generalizing h with
  | nil => rfl
  | cons e es ih =>
      have hrest := ih e.eventHash
      cases hlast : es.getLast? with
      | none => simpa [List.getLast?_cons, hlast] using hrest
      | some last => simpa [List.getLast?_cons, hlast] using hrest

variable {sha256}

theorem verifyLoop_eq_none_iff {h : HashStr} {events : List AuditEvent} :
    verifyLoop sha256 h events = none ↔ ChainFrom sha256 h events := by
  induction events generalizing h with
  | nil => simp [verifyLoop, ChainFrom]
  | cons ev rest ih =>
      by_cases hprev : ev.previousEventHash = h
      · by_cases hhash : computeEventHash sha256 ev = ev.eventHash
        · simp [verifyLoop, ChainFrom, hprev, hhash, ih]
        · simp [verifyLoop, ChainFrom, hprev, hhash]
      · simp [verifyLoop, ChainFrom, hprev]

/-- `verify_chain` accepts exactly the chains that start from the empty hash. -/
theorem verifyChain_valid_iff {events : List AuditEvent} {runId : Bytes} :
    (verifyChain sha256 events runId).valid = true ↔ ChainFrom sha256 [] events := by
  rw [← verifyLoop_eq_none_iff]
  cases hloop : verifyLoop sha256 [] events with
  | none => simp [verifyChain, hloop]
  | some eventId => simp [verifyChain, hloop]

theorem chainFrom_append {h : HashStr} {es fs : List AuditEvent} :
    ChainFrom sha256 h (es ++ fs) ↔
      ChainFrom sha256 h es ∧ ChainFrom sha256 (lastHash h es) fs := by
  induction es generalizing h with
  | nil => simp [ChainFrom]
  | cons e es ih => simp [ChainFrom, ih, and_assoc]

/-- Every stored hash of a chain is the event's own hash. -/
theorem ChainFrom.eventHash_eq {h : HashStr} {events : List AuditEvent}
    (hchain : ChainFrom sha256 h events) {ev : AuditEvent} (hev : ev ∈ events) :
    computeEventHash sha256 ev = ev.eventHash := by
  induction events generalizing h with
  | nil => simp at hev
  | cons e es ih =>
      rcases List.mem_cons.1 hev with rfl | hmem
      · exact hchain.2.1
      · exact ih hchain.2.2 hmem

theorem sha256Hex_ne_nil (sha256 : Sha256) (data : Bytes) : sha256Hex sha256 data ≠ [] := by
  simp [sha256Hex, bytes]

end ControlDB
