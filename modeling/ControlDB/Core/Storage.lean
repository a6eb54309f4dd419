import ControlDB.Library.BigEndian
import ControlDB.Library.SortedMap
import ControlDB.Core.HashChain
import ControlDB.Core.Json

/-!
# The three stores under an `EventStore`

The RocksDB column families, the write-ahead log of `wal.cpp` with its applied marker, and the
in-memory counters.  An operation is described by the effects it has on them, in order, so that an
exception or a crash leaves the effects before it.

A value that is JSON text is kept as the document it was dumped from, which is what parsing the
text gives back.  A `WriteBatch` is atomic and durable.  The events column is keyed by the sequence
number, whose eight big-endian bytes sort as the numbers do; the index keys carry those bytes.
-/

namespace ControlDB

open Library

/-- What the engine links against: OpenSSL's digest, and `dump` and `parse` of the JSON library,
which throw where they give `none` (`dump` on a string that is not UTF-8). -/
structure Env where
  sha256 : Sha256
  dump : Json → Option Bytes
  parse : Bytes → Option Json

/-! ## Sequence keys -/

/-- 8-byte big-endian encode for sequence keys. -/
def seqToKey (seq : Nat) : Bytes :=
  toBigEndian 8 seq

/-- Reads eight bytes; past the end of the key there are only NULs. -/
def keyToSeq (key : Bytes) : Nat :=
  ofBigEndian ((key ++ List.replicate 8 0).take 8)

@[simp] theorem length_seqToKey (seq : Nat) : (seqToKey seq).length = 8 :=
  length_toBigEndian 8 seq

theorem keyToSeq_seqToKey {seq : Nat} (h : seq < 2 ^ 64) : keyToSeq (seqToKey seq) = seq := by
  have htake : (seqToKey seq ++ List.replicate 8 0).take 8 = seqToKey seq :=
    List.take_left' (length_seqToKey seq)
  calc keyToSeq (seqToKey seq)
      = ofBigEndian (seqToKey seq) := by rw [keyToSeq, htake]
    _ = seq := ofBigEndian_toBigEndian_of_lt (by simpa using h)

/-! ## RocksDB -/

/-- One `Put` of a `WriteBatch`, by column family. -/
inductive Put
  | globalSeq (seq : Nat)
  | runs (runId : Bytes) (doc : Json)
  | runsByOrg (key : Bytes) (runId : Bytes)
  | events (seq : Nat) (doc : Json)
  | evByRun (key : Bytes)
  | evByType (key : Bytes)
  | idempotency (key : Bytes) (value : Bytes)
  | approvals (approvalId : Bytes) (doc : Json)
  | exports (exportId : Bytes) (doc : Option Json)

/-- The column families the operations use.  `batches` is a history variable: the batches written
so far, which no operation reads. -/
structure Rocks where
  globalSeq : Option Nat := none
  runs : SortedMap Bytes Json := .empty
  runsByOrg : SortedMap Bytes Bytes := .empty
  events : SortedMap Nat Json := .empty
  evByRun : SortedMap Bytes Unit := .empty
  evByType : SortedMap Bytes Unit := .empty
  idempotency : SortedMap Bytes Bytes := .empty
  approvals : SortedMap Bytes Json := .empty
  exports : SortedMap Bytes (Option Json) := .empty
  batches : List (List Put) := []

namespace Rocks

def put (db : Rocks) : Put → Rocks
  | .globalSeq seq => { db with globalSeq := some seq }
  | .runs runId doc => { db with runs := db.runs.put runId doc }
  | .runsByOrg key runId => { db with runsByOrg := db.runsByOrg.put key runId }
  | .events seq doc => { db with events := db.events.put seq doc }
  | .evByRun key => { db with evByRun := db.evByRun.put key () }
  | .evByType key => { db with evByType := db.evByType.put key () }
  | .idempotency key value => { db with idempotency := db.idempotency.put key value }
  | .approvals approvalId doc => { db with approvals := db.approvals.put approvalId doc }
  | .exports exportId doc => { db with exports := db.exports.put exportId doc }

/-- `db->Write`. -/
def write (db : Rocks) (batch : List Put) : Rocks :=
  { batch.foldl put db with batches := db.batches ++ [batch] }

/-- `get("idempotency", key)`; a missing key reads as the empty string. -/
def getIdempotency (db : Rocks) (key : Bytes) : Bytes :=
  (db.idempotency.get key).getD []

end Rocks

/-! ## The write-ahead log -/

inductive WalOpType
  | insertRun
  | updateRun
  | insertEvent
  | insertApproval
  | updateApproval
  | insertExport
  deriving DecidableEq, Repr

/-- A record of `wal.log`; the payload text is the dump of the document. -/
structure WalEntry where
  walSeq : Nat
  opType : WalOpType
  payload : Json

/-- `wal.log`, the text of `applied.seq`, and the two counters kept in memory. -/
structure Wal where
  records : List WalEntry := []
  appliedFile : Bytes := []
  lastSeq : Nat := 0
  appliedSeq : Nat := 0

namespace Wal

/-- The applied marker as the next opening will read it. -/
def persistedApplied (w : Wal) : Nat :=
  ofDecimal w.appliedFile

def append (w : Wal) (e : WalEntry) : Wal :=
  { w with records := w.records ++ [e], lastSeq := e.walSeq }

def markApplied (w : Wal) (walSeq : Nat) : Wal :=
  if walSeq > w.appliedSeq then
    { w with appliedSeq := walSeq, appliedFile := decimal walSeq }
  else w

/-- `Wal::Impl::open`: the counters come from the files. -/
def reopen (w : Wal) : Wal :=
  { w with
    appliedSeq := w.persistedApplied
    lastSeq := w.records.foldl (fun last e => max last e.walSeq) 0 }

end Wal

/-! ## Stores and effects -/

structure Store where
  rocks : Rocks := {}
  wal : Wal := {}
  /-- `global_seq_`. -/
  globalSeq : Nat := 0

inductive Effect
  | nextSeq
  | walAppend (e : WalEntry)
  | markApplied (walSeq : Nat)
  | write (batch : List Put)

namespace Store

def apply (s : Store) : Effect → Store
  | .nextSeq => { s with globalSeq := s.globalSeq + 1 }
  | .walAppend e => { s with wal := s.wal.append e }
  | .markApplied walSeq => { s with wal := s.wal.markApplied walSeq }
  | .write batch => { s with rocks := s.rocks.write batch }

def applyAll (s : Store) (effects : List Effect) : Store :=
  effects.foldl apply s

/-- Constructing an `EventStore` on the files of an earlier one. -/
def reopen (s : Store) : Store :=
  { s with wal := s.wal.reopen, globalSeq := s.rocks.globalSeq.getD 0 }

end Store

/-- Where a call stopped early: after `done` of its effects, and inside the next one if that is a
`mark_applied` that had written `digits` bytes of its marker. -/
structure Stop where
  done : Nat
  digits : Option Nat := none

/-- The `mark_applied` a call stopped inside of, with the number of bytes it had written. -/
def Stop.tornMark (stop : Stop) (effects : List Effect) : Option (Nat × Nat) :=
  match stop.digits, effects.drop stop.done with
  | some digits, .markApplied walSeq :: _ => some (walSeq, digits)
  | _, _ => none

namespace Store

/-- The marker file is truncated first and then written. -/
def tearMark (s : Store) (walSeq digits : Nat) : Store :=
  if walSeq > s.wal.appliedSeq then
    { s with wal := { s.wal with
      appliedSeq := walSeq
      appliedFile := (decimal walSeq).take digits } }
  else s

def applyUntil (s : Store) (effects : List Effect) (stop : Stop) : Store :=
  let s' := s.applyAll (effects.take stop.done)
  match stop.tornMark effects with
  | some (walSeq, digits) => s'.tearMark walSeq digits
  | none => s'

end Store
end ControlDB
