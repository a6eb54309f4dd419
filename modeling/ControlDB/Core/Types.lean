import Mathlib

/-!
# Core domain types of the C++ engine

The records of `controldb/types.hpp`.  A `std::string` is a list of bytes: ids, payloads and keys
are caller-chosen and need not be text.  The `int64_t` and `int32_t` members are `Int`; a
sequence number (`Seq`), a counter that starts at `0` and is only incremented, is a `Nat`.
-/

namespace ControlDB

/-- A `std::string`. -/
abbrev Bytes := List UInt8

/-- The bytes of an ASCII literal. -/
def bytes (s : String) : Bytes :=
  s.toList.map fun c => UInt8.ofNat c.toNat

/-- Bytes in numeric order; strings then compare as `memcmp` and RocksDB's default comparator do. -/
instance instLinearOrderUInt8 : LinearOrder UInt8 where
  le_refl := UInt8.le_refl
  le_trans _ _ _ := UInt8.le_trans
  le_antisymm _ _ := UInt8.le_antisymm
  le_total := UInt8.le_total
  lt_iff_le_not_ge a b := by simp [UInt8.lt_iff_toNat_lt, UInt8.le_iff_toNat_le]; omega
  toDecidableLE := inferInstance
  toDecidableEq := inferInstance
  toDecidableLT := inferInstance

/-- SHA-256 hash string in `sha256:<hex>` format. -/
abbrev HashStr := Bytes

structure AgentRun where
  runId : Bytes := []
  orgId : Bytes := []
  projectId : Bytes := []
  environment : Bytes := []
  agentId : Bytes := []
  agentVersion : Bytes := []
  status : Bytes := []
  metadataJson : Bytes := []
  startedAtMs : Int := 0
  endedAtMs : Int := 0
  lastEventHash : HashStr := []
  eventCount : Int := 0
  deriving DecidableEq, Repr

structure AuditEvent where
  sequence : Nat := 0
  eventId : Bytes := []
  orgId : Bytes := []
  projectId : Bytes := []
  environment : Bytes := []
  runId : Bytes := []
  stepId : Bytes := []
  stepIndex : Int := -1
  eventType : Bytes := []
  schemaVersion : Bytes := []
  actorType : Bytes := []
  actorId : Bytes := []
  traceId : Bytes := []
  spanId : Bytes := []
  parentSpanId : Bytes := []
  payloadMode : Bytes := []
  payload : Bytes := []
  payloadHash : HashStr := []
  previousEventHash : HashStr := []
  eventHash : HashStr := []
  occurredAtMs : Int := 0
  ingestedAtMs : Int := 0
  idempotencyKey : Bytes := []
  deriving DecidableEq, Repr

structure Approval where
  approvalId : Bytes := []
  runId : Bytes := []
  orgId : Bytes := []
  projectId : Bytes := []
  policyId : Bytes := []
  requestedBy : Bytes := []
  reviewerId : Bytes := []
  status : Bytes := []
  reason : Bytes := []
  inputJson : Bytes := []
  createdAtMs : Int := 0
  decidedAtMs : Int := 0
  deriving DecidableEq, Repr

structure EvidenceExport where
  exportId : Bytes := []
  runId : Bytes := []
  orgId : Bytes := []
  projectId : Bytes := []
  bundleUri : Bytes := []
  bundleHash : HashStr := []
  eventCount : Int := 0
  hashChainValid : Bool := true
  generatedBy : Bytes := []
  generatedAtMs : Int := 0
  deriving DecidableEq, Repr

structure VerificationResult where
  runId : Bytes := []
  valid : Bool := true
  eventCount : Int := 0
  brokenAtEventId : Bytes := []
  deriving DecidableEq, Repr

structure QueryFilter where
  orgId : Bytes := []
  projectId : Bytes := []
  runId : Option Bytes := none
  eventTypes : List Bytes := []
  limit : Int := 200
  cursor : Option Nat := none
  deriving DecidableEq, Repr

end ControlDB
