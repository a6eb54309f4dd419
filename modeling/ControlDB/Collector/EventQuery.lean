import ControlDB.Collector.RocksBackend
import ControlDB.Collector.RocksKeys
import ControlDB.Library.AssocList
import ControlDB.Library.IndexScan
import ControlDB.Python.Dumps

/-!
# The event query of the RocksDB backend

`_execute_query` of `storage/rocksdb_backend.py` for events by ascending sequence.  With a run id it
walks the entries of that run in `ev_by_run` and asks for no tenant; without one it walks the entries
of the tenant in `ev_by_type`, which are ordered by event type before sequence.  In both cases it
stops at the limit, and sorts what it has by then.

`EventQuery.executeQuery_iff` says for which stored events the result is that of the statement of
`QueryService.query`.
-/

namespace ControlDB
namespace Collector
namespace EventQuery

open Library Python
open PyObject (dumps dumpsMembers loadsMembers isJson isJsonMembers)

/-! ## Rows -/

/-- A text or `None`. -/
def optional : Option String → PyObject
  | none => .none
  | some s => .str s

/-- `AuditEventRow.to_dict`. -/
def eventDict (row : AuditEvent) : List (String × PyObject) :=
  [("sequence", .int row.sequence), ("event_id", .str row.eventId), ("org_id", .str row.orgId),
    ("project_id", .str row.projectId), ("environment", .str row.environment),
    ("run_id", .str row.runId), ("step_id", optional row.stepId),
    ("step_index", (row.stepIndex.map PyObject.int).getD .none), ("event_type", .str row.eventType),
    ("schema_version", .str row.schemaVersion), ("actor_type", optional row.actorType),
    ("actor_id", optional row.actorId), ("trace_id", optional row.traceId),
    ("span_id", optional row.spanId), ("parent_span_id", optional row.parentSpanId),
    ("payload_mode", .str row.payloadMode), ("payload", PyObject.loads row.payload),
    ("payload_hash", optional row.payloadHash),
    ("previous_event_hash", optional row.previousEventHash), ("event_hash", .str row.eventHash),
    ("occurred_at", .datetime row.occurredAt), ("ingested_at", .datetime row.ingestedAt),
    ("idempotency_key", optional row.idempotencyKey)]

/-- The attributes of a row that was loaded. -/
abbrev LoadedEvent := List (String × PyObject)

/-- `AuditEventRow.from_dict(json.loads(v))`, where `v` is what `_write_event` stores of a row: all
attributes are in the text, datetimes as `str` has them. -/
def loadEvent (row : AuditEvent) : LoadedEvent :=
  loadsMembers ((dumpsMembers (some DateTime.str) (eventDict row)).getD [])

/-- `ev.name`. -/
def getattr (ev : LoadedEvent) (name : String) : PyObject :=
  (ev.lookup name).getD .none

/-- `getattr(x, "sequence", 0) or 0`. -/
def sortKey (ev : LoadedEvent) : Int :=
  match getattr ev "sequence" with
  | .leaf (.int n) => n
  | _ => 0

/-! ## Stored events -/

/-- The columns after these events were written, each with its sequence. -/
def storeEvents (events : List AuditEvent) : RocksColumns :=
  events.foldl (fun columns e => columns.write 0 (writeEvent e.sequence e)) {}

/-- The row under a sequence. -/
def getEvent (columns : RocksColumns) (seq : Int) : Option LoadedEvent :=
  if 0 ≤ seq then (columns.events.get seq.toNat).map fun stored => loadEvent stored.row else none

/-! ## The query -/

/-- The filters `org_id`, `project_id`, `run_id`, `event_type_in` and `sequence_gt`, and the limit;
a cursor or a limit that is not given is 0. -/
structure Query where
  orgId : String
  projectId : String
  runId : Option String := none
  eventTypes : Option (List String) := none
  cursor : Nat := 0
  limit : Nat := 0

/-- Without event types, or with none, all are asked for. -/
def Query.allows (q : Query) (eventType : PyObject) : Bool :=
  match q.eventTypes.getD [], eventType with
  | [], _ => true
  | types, .leaf (.str s) => decide (s ∈ types)
  | _, _ => false

/-- What a loop makes of a key. -/
inductive KeyRead
  | raises
  | skip
  | seq (n : Int)

/-- `_key_seq(k[len(prefix):len(prefix)+8])`. -/
def readRunKey (keyPrefix key : Bytes) : KeyRead :=
  match keySeq ((key.drop keyPrefix.length).take 8) with
  | none => .raises
  | some n => .seq n

/-- `_key_seq(k[-8:])`, for a key of at least four parts, if it is behind the cursor. -/
def readTypeKey (cursor : Nat) (key : Bytes) : KeyRead :=
  if key.count 0x3a + 1 < 4 then .skip
  else
    match keySeq (key.drop (key.length - 8)) with
    | none => .raises
    | some n => if cursor ≠ 0 ∧ n ≤ cursor then .skip else .seq n

/-- The loops of `_query_events`, or `none` where they raise. -/
def scanLoop (columns : RocksColumns) (q : Query) (limit : Nat) (keyPrefix : Bytes)
    (read : Bytes → KeyRead) : List Bytes → List LoadedEvent → Option (List LoadedEvent)
  | [], rows => some rows
  | key :: rest, rows =>
      if ¬ keyPrefix <+: key then some rows
      else
        match read key with
        | .raises => none
        | .skip => scanLoop columns q limit keyPrefix read rest rows
        | .seq n =>
            match getEvent columns n with
            | none => scanLoop columns q limit keyPrefix read rest rows
            | some ev =>
                if q.allows (getattr ev "event_type") then
                  if limit ≤ (rows ++ [ev]).length then some (rows ++ [ev])
                  else scanLoop columns q limit keyPrefix read rest (rows ++ [ev])
                else scanLoop columns q limit keyPrefix read rest rows

/-- The keys that an iterator walks after `seek`. -/
def keysFrom (index : SortedMap Bytes Unit) (start : Bytes) : List Bytes :=
  (index.seek start).map Prod.fst

/-- `_query_events`, or `none` where it raises. -/
def queryEvents (columns : RocksColumns) (q : Query) (limit : Nat) : Option (List LoadedEvent) :=
  match truthy q.runId with
  | some runId =>
      let keyPrefix := idPrefix runId
      let start := if q.cursor = 0 then some keyPrefix
        else (seqKey (q.cursor + 1)).map fun seqB => keyPrefix ++ seqB
      start.bind fun start => scanLoop columns q limit keyPrefix (readRunKey keyPrefix)
        (keysFrom columns.evByRun start) []
  | none =>
      let keyPrefix := tenantPrefix q.orgId q.projectId
      scanLoop columns q limit keyPrefix (readTypeKey q.cursor)
        (keysFrom columns.evByType keyPrefix) []

/-- `_execute_query` for events, with `order_by(sequence.asc())`. -/
def executeQuery (columns : RocksColumns) (q : Query) : Option (List LoadedEvent) :=
  (queryEvents columns q (if q.limit = 0 then 1000 else q.limit)).map fun rows =>
    let result := rows.insertionSort fun a b => sortKey a ≤ sortKey b
    if q.limit = 0 then result else result.take q.limit

/-! ## The statement -/

/-- The filters other than the tenant. -/
def Query.selects (q : Query) (e : AuditEvent) : Bool :=
  q.allows (.str e.eventType) && (truthy q.runId).all (fun runId => decide (e.runId = runId)) &&
    decide (q.cursor < e.sequence)

def Query.ofTenant (q : Query) (e : AuditEvent) : Bool :=
  decide (e.orgId = q.orgId ∧ e.projectId = q.projectId)

/-- The first events by sequence of those that the filters select. -/
def statement (events : List AuditEvent) (q : Query) : List AuditEvent :=
  (((bySequence events).filter q.selects).filter q.ofTenant).take q.limit

/-! ## When they agree -/

/-- Events with sequences of their own, and ids without `:`. -/
structure EventSet (events : List AuditEvent) : Prop where
  distinct : events.Pairwise fun a b => a.sequence ≠ b.sequence
  range : ∀ e ∈ events, 1 ≤ e.sequence ∧ e.sequence < 2 ^ 63
  clear : ∀ e ∈ events, ∀ id ∈ [e.orgId, e.projectId, e.runId], ':' ∉ id.toList

/-- A query with a limit, and ids without `:`. -/
structure Query.Valid (q : Query) : Prop where
  limit : 1 ≤ q.limit
  clear : ∀ id ∈ [q.orgId, q.projectId, q.runId.getD ""], ':' ∉ id.toList

/-- The key of an event in `ev_by_run`. -/
def runKey (e : AuditEvent) : Bytes :=
  idPrefix e.runId ++ seqToKey e.sequence

/-- The key of an event in `ev_by_type`. -/
def typeKey (e : AuditEvent) : Bytes :=
  encodeUtf8 (e.orgId ++ ":" ++ e.projectId ++ ":" ++ e.eventType ++ ":").toList ++
    seqToKey e.sequence

/-- The selected events of the tenant by event type, and by sequence in a type. -/
def byType (events : List AuditEvent) (q : Query) : List AuditEvent :=
  inKeyOrder typeKey ((events.filter q.selects).filter q.ofTenant)

/-- With a run id: the first events that the other filters select are of the tenant, and the cursor
is not the last number that fits in eight bytes.  Without one: no event beyond the first ones by type
has a smaller sequence than one of these. -/
def Agrees (events : List AuditEvent) (q : Query) : Prop :=
  match truthy q.runId with
  | some _ => (q.cursor = 0 ∨ q.cursor + 1 < 2 ^ 63) ∧
      ∀ e ∈ ((bySequence events).filter q.selects).take q.limit, q.ofTenant e = true
  | none => ∀ e ∈ (byType events q).take q.limit, ∀ e' ∈ (byType events q).drop q.limit,
      e.sequence < e'.sequence

/-! ## What is stored -/

section Stored

variable {row : AuditEvent} {events : List AuditEvent} {columns : RocksColumns}

/-- An attribute that is neither a datetime nor a tuple is loaded as it was. -/
theorem getattr_loadEvent {name : String} {v : PyObject}
    (hname : (eventDict row).lookup name = some v) (hv : isJson v = true) :
    getattr (loadEvent row) name = v := by
  rcases Option.isSome_iff_exists.1 (PyObject.isSome_dumpsMembers DateTime.str (eventDict row)) with
    ⟨doc, hdoc⟩
  rw [getattr, loadEvent, hdoc, Option.getD_some, PyObject.lookup_loadsMembers hdoc hname hv]
  rfl

theorem eventType_loadEvent (row : AuditEvent) :
    getattr (loadEvent row) "event_type" = .str row.eventType :=
  getattr_loadEvent rfl (by rw [PyObject.str, isJson])

theorem sortKey_loadEvent (row : AuditEvent) : sortKey (loadEvent row) = row.sequence := by
  have hsequence : getattr (loadEvent row) "sequence" = .int row.sequence :=
    getattr_loadEvent rfl (by rw [PyObject.int, isJson])
  rw [sortKey, hsequence]
  rfl

/-- An event is put into three columns. -/
theorem write_writeEvent (columns : RocksColumns) (row : AuditEvent) :
    (columns.write 0 (writeEvent row.sequence row)).events =
        columns.events.put row.sequence ⟨0, row⟩ ∧
      (columns.write 0 (writeEvent row.sequence row)).evByRun =
        columns.evByRun.put (runKey row) () ∧
      (columns.write 0 (writeEvent row.sequence row)).evByType =
        columns.evByType.put (typeKey row) () := by
  unfold writeEvent
  by_cases hkey : row.idempotencyKey.getD "" = "" <;>
    simp [hkey, RocksColumns.write, RocksColumns.put, runKey, typeKey, idPrefix]

theorem isSome_put {index : SortedMap Bytes Unit} {key k : Bytes} :
    ((index.put key ()).get k).isSome ↔ key = k ∨ (index.get k).isSome := by
  rw [SortedMap.get_put]
  by_cases hk : k = key
  · simp [hk]
  · have hne : ¬ key = k := fun h => hk h.symm
    simp [hk, hne]

/-- The indexes have the keys of the events. -/
theorem index_foldl (events : List AuditEvent) (columns : RocksColumns) (k : Bytes) :
    (((events.foldl (fun columns e => columns.write 0 (writeEvent e.sequence e)) columns).evByRun.get
      k).isSome ↔ (columns.evByRun.get k).isSome ∨ ∃ e ∈ events, runKey e = k) ∧
    (((events.foldl (fun columns e => columns.write 0 (writeEvent e.sequence e)) columns).evByType.get
      k).isSome ↔ (columns.evByType.get k).isSome ∨ ∃ e ∈ events, typeKey e = k) := by
  induction events generalizing columns with
  | nil => simp
  | cons e events ih =>
      rcases write_writeEvent columns e with ⟨_, hrun, htype⟩
      rcases ih (columns.write 0 (writeEvent e.sequence e)) with ⟨ihrun, ihtype⟩
      rw [hrun, isSome_put] at ihrun
      rw [htype, isSome_put] at ihtype
      simp only [List.foldl_cons, ihrun, ihtype, List.mem_cons, exists_eq_or_imp]
      exact ⟨by rw [or_assoc, or_left_comm], by rw [or_assoc, or_left_comm]⟩

theorem evByRun_storeEvents (k : Bytes) :
    ((storeEvents events).evByRun.get k).isSome ↔ ∃ e ∈ events, runKey e = k := by
  rw [storeEvents, (index_foldl events {} k).1]
  simp

theorem evByType_storeEvents (k : Bytes) :
    ((storeEvents events).evByType.get k).isSome ↔ ∃ e ∈ events, typeKey e = k := by
  rw [storeEvents, (index_foldl events {} k).2]
  simp

/-- Events of other sequences do not replace a row. -/
theorem events_foldl_of_ne {seq : Nat} (h : ∀ e ∈ events, e.sequence ≠ seq) :
    (events.foldl (fun columns e => columns.write 0 (writeEvent e.sequence e)) columns).events.get seq =
      columns.events.get seq := by
  induction events generalizing columns with
  | nil => rfl
  | cons e events ih =>
      rw [List.foldl_cons, ih fun e' he' => h e' (List.mem_cons_of_mem e he'),
        (write_writeEvent columns e).1, SortedMap.get_put_of_ne _ _ (h e List.mem_cons_self).symm]

theorem events_foldl (hdistinct : events.Pairwise fun a b => a.sequence ≠ b.sequence)
    {e : AuditEvent} (he : e ∈ events) :
    (events.foldl (fun columns e => columns.write 0 (writeEvent e.sequence e)) columns).events.get
      e.sequence = some ⟨0, e⟩ := by
  induction events generalizing columns with
  | nil => cases he
  | cons e' events ih =>
      rcases List.pairwise_cons.1 hdistinct with ⟨hfirst, hrest⟩
      rcases List.mem_cons.1 he with rfl | htail
      · rw [List.foldl_cons, events_foldl_of_ne fun e' he' => (hfirst e' he').symm,
          (write_writeEvent columns e).1, SortedMap.get_put_self]
      · exact ih hrest htail

theorem getEvent_storeEvents (h : EventSet events) {e : AuditEvent} (he : e ∈ events) :
    getEvent (storeEvents events) e.sequence = some (loadEvent e) := by
  have hget : (storeEvents events).events.get (Int.toNat e.sequence) = some ⟨0, e⟩ :=
    events_foldl h.distinct he
  rw [getEvent, if_pos (Int.natCast_nonneg _), hget, Option.map_some]

end Stored

/-! ## The loops -/

section Loop

variable {columns : RocksColumns} {q : Query} {limit : Nat} {keyPrefix : Bytes}
  {read : Bytes → KeyRead}

/-- A loop ends at the first key without the prefix. -/
theorem scanLoop_takeWhile (keys : List Bytes) (rows : List LoadedEvent) :
    scanLoop columns q limit keyPrefix read keys rows =
      scanLoop columns q limit keyPrefix read (keys.takeWhile fun k => decide (keyPrefix <+: k))
        rows := by
  induction keys generalizing rows with
  | nil => rfl
  | cons key keys ih =>
      by_cases hpre : keyPrefix <+: key
      · rw [List.takeWhile_cons_of_pos (by simpa using hpre), scanLoop, scanLoop]
        simp only [ih]
      · rw [List.takeWhile_cons_of_neg (by simpa using hpre), scanLoop, scanLoop, if_pos hpre]

/-- A loop over the keys of events takes those that it keeps and the types allow, up to the limit. -/
theorem scanLoop_map {key : AuditEvent → Bytes} {keep : AuditEvent → Bool} {items : List AuditEvent}
    (hpre : ∀ e ∈ items, keyPrefix <+: key e)
    (hread : ∀ e ∈ items, read (key e) = if keep e then .seq e.sequence else .skip)
    (hget : ∀ e ∈ items, getEvent columns e.sequence = some (loadEvent e))
    {rows : List LoadedEvent} (hroom : rows.length < limit) :
    scanLoop columns q limit keyPrefix read (items.map key) rows =
      some (rows ++ ((items.filter fun e => keep e && q.allows (.str e.eventType)).take
        (limit - rows.length)).map loadEvent) := by
  induction items generalizing rows with
  | nil => simp [scanLoop]
  | cons e items ih =>
      have hrest := fun {rows : List LoadedEvent} (h : rows.length < limit) =>
        ih (fun e' he' => hpre e' (List.mem_cons_of_mem e he'))
          (fun e' he' => hread e' (List.mem_cons_of_mem e he'))
          (fun e' he' => hget e' (List.mem_cons_of_mem e he')) h
      rw [List.map_cons, scanLoop, if_neg (not_not.2 (hpre e List.mem_cons_self)),
        hread e List.mem_cons_self]
      cases hkeep : keep e with
      | false =>
          rw [List.filter_cons_of_neg (by simp [hkeep])]
          exact hrest hroom
      | true =>
          simp only [if_true, hget e List.mem_cons_self, eventType_loadEvent]
          cases hallows : q.allows (.str e.eventType) with
          | false =>
              rw [List.filter_cons_of_neg (by simp [hallows])]
              simpa using hrest hroom
          | true =>
              -- one place fewer for the rest
              have hlength : (rows ++ [loadEvent e]).length = rows.length + 1 := by simp
              have hleft : limit - rows.length = limit - (rows ++ [loadEvent e]).length + 1 := by
                omega
              rw [List.filter_cons_of_pos (by simp [hkeep, hallows]), hleft, List.take_succ_cons,
                List.map_cons, if_pos rfl]
              by_cases hfull : limit ≤ (rows ++ [loadEvent e]).length
              · rw [if_pos hfull, Nat.sub_eq_zero_of_le hfull, List.take_zero, List.map_nil]
              · rw [if_neg hfull, hrest (Nat.lt_of_not_le hfull), List.append_assoc,
                  List.singleton_append]

end Loop

/-! ## Keys of events -/

section Keys

variable {events : List AuditEvent} {q : Query} {e : AuditEvent}

theorem typeKey_eq (e : AuditEvent) : typeKey e =
    tenantPrefix e.orgId e.projectId ++ (idPrefix e.eventType ++ seqToKey e.sequence) := by
  simp only [typeKey, tenantPrefix, idPrefix, String.toList_append, encodeUtf8_append,
    List.append_assoc]

theorem EventSet.fit (h : EventSet events) (he : e ∈ events) : e.sequence < 2 ^ 64 :=
  Nat.lt_trans (h.range e he).2 (by decide)

theorem EventSet.distinct_runKey (h : EventSet events) :
    events.Pairwise fun a b => runKey a ≠ runKey b :=
  h.distinct.imp_of_mem fun ha hb hne hkeys =>
    hne (seq_of_key_eq (h.fit ha) (h.fit hb) hkeys)

theorem EventSet.distinct_typeKey (h : EventSet events) :
    events.Pairwise fun a b => typeKey a ≠ typeKey b :=
  h.distinct.imp_of_mem fun ha hb hne hkeys =>
    hne (seq_of_key_eq (h.fit ha) (h.fit hb) hkeys)

/-- The entries of a run are those that have its prefix. -/
theorem idPrefix_isPrefix_iff (h : EventSet events) (he : e ∈ events) {runId : String}
    (hclear : ':' ∉ runId.toList) : idPrefix runId <+: runKey e ↔ e.runId = runId := by
  constructor
  · rintro ⟨t, ht⟩
    exact (idPrefix_append_inj hclear (h.clear e he _ (by simp)) ht).1.symm
  · rintro rfl
    exact List.prefix_append _ _

theorem tenantPrefix_isPrefix_iff (h : EventSet events) (hq : q.Valid) (he : e ∈ events) :
    tenantPrefix q.orgId q.projectId <+: typeKey e ↔ q.ofTenant e = true := by
  rw [typeKey_eq, Query.ofTenant, decide_eq_true_eq]
  constructor
  · rintro ⟨t, ht⟩
    rcases tenantPrefix_append_inj (hq.clear _ (by simp)) (h.clear e he _ (by simp))
      (hq.clear _ (by simp)) (h.clear e he _ (by simp)) ht with ⟨⟨horg, hproject⟩, _⟩
    exact ⟨horg.symm, hproject.symm⟩
  · rintro ⟨horg, hproject⟩
    rw [horg, hproject]
    exact List.prefix_append _ _

/-- In a run the keys are in the order of the sequences. -/
theorem runKey_lt_iff (h : EventSet events) {a b : AuditEvent} (ha : a ∈ events) (hb : b ∈ events)
    (hrun : a.runId = b.runId) : runKey a < runKey b ↔ a.sequence < b.sequence := by
  rw [runKey, runKey, hrun, append_lt_append_iff, seqToKey_lt_iff (h.range a ha).2 (h.range b hb).2]

/-- A key of the run is read as the sequence of its event. -/
theorem readRunKey_runKey (h : EventSet events) (he : e ∈ events) {runId : String}
    (hrun : e.runId = runId) : readRunKey (idPrefix runId) (runKey e) = .seq e.sequence := by
  have hkey : ((runKey e).drop (idPrefix runId).length).take 8 = seqToKey e.sequence := by
    rw [runKey, hrun, List.drop_left]
    exact List.take_of_length_le (length_toBigEndian 8 e.sequence).le
  rw [readRunKey, hkey, keySeq_seqToKey (h.range e he).2]

/-- A key by type has its four parts, and is read as the sequence of its event. -/
theorem readTypeKey_typeKey (h : EventSet events) (he : e ∈ events) (cursor : Nat) :
    readTypeKey cursor (typeKey e) =
      if decide (cursor < e.sequence) then .seq e.sequence else .skip := by
  have hcolon : bytes ":" = [0x3a] := by decide
  have hparts : ¬ (typeKey e).count 0x3a + 1 < 4 := by
    simp only [typeKey_eq, tenantPrefix_eq, idPrefix_eq, hcolon, List.count_append,
      List.count_singleton_self]
    omega
  have hlength : (seqToKey e.sequence).length = 8 := length_toBigEndian 8 e.sequence
  have hkey : (typeKey e).drop ((typeKey e).length - 8) = seqToKey e.sequence := by
    have hsplit : (typeKey e).length - 8 = (encodeUtf8 (e.orgId ++ ":" ++ e.projectId ++ ":" ++
        e.eventType ++ ":").toList).length := by
      rw [typeKey, List.length_append, hlength, Nat.add_sub_cancel]
    rw [hsplit, typeKey, List.drop_left]
  have hpositive := (h.range e he).1
  rw [readTypeKey, if_neg hparts, hkey, keySeq_seqToKey (h.range e he).2]
  by_cases hafter : cursor < e.sequence
  · simp [hafter]
  · have hskip : cursor ≠ 0 ∧ (e.sequence : Int) ≤ cursor := by omega
    simp [hafter, hskip]

end Keys

/-! ## What the query finds -/

section Found

variable {events : List AuditEvent} {q : Query} {limit : Nat}

theorem bySequence_eq (events : List AuditEvent) :
    bySequence events = inKeyOrder AuditEvent.sequence events := rfl

/-- A loop over the entries of an index takes the selected events that have the prefix, in the order
of their keys. -/
theorem scanLoop_index (h : EventSet events) {index : SortedMap Bytes Unit}
    {key : AuditEvent → Bytes} {start keyPrefix : Bytes} {read : Bytes → KeyRead}
    (keep : AuditEvent → Bool) (hdistinct : events.Pairwise fun a b => key a ≠ key b)
    (hindex : ∀ k, (index.get k).isSome ↔ ∃ e ∈ events, key e = k) (hstart : keyPrefix <+: start)
    (hread : ∀ e ∈ events, keyPrefix <+: key e →
      read (key e) = if keep e then .seq e.sequence else .skip)
    (hlimit : 0 < limit) :
    scanLoop (storeEvents events) q limit keyPrefix read (keysFrom index start) [] =
      some (((inKeyOrder key (events.filter fun e => decide (¬ key e < start ∧ keyPrefix <+: key e) &&
        (keep e && q.allows (.str e.eventType)))).take limit).map loadEvent) := by
  have hmem : ∀ e ∈ inKeyOrder key (events.filter fun e =>
      decide (¬ key e < start ∧ keyPrefix <+: key e)), e ∈ events ∧ keyPrefix <+: key e := by
    intro e he
    rcases List.mem_filter.1 (mem_inKeyOrder.1 he) with ⟨hevent, hpre⟩
    exact ⟨hevent, (of_decide_eq_true hpre).2⟩
  calc scanLoop (storeEvents events) q limit keyPrefix read (keysFrom index start) []
      = scanLoop (storeEvents events) q limit keyPrefix read (prefixScan index start keyPrefix) [] :=
        scanLoop_takeWhile _ _
    _ = scanLoop (storeEvents events) q limit keyPrefix read ((inKeyOrder key (events.filter fun e =>
          decide (¬ key e < start ∧ keyPrefix <+: key e))).map key) [] := by
        rw [prefixScan_eq hdistinct hindex hstart]
    _ = some (((inKeyOrder key (events.filter fun e => decide (¬ key e < start ∧ keyPrefix <+: key e) &&
          (keep e && q.allows (.str e.eventType)))).take limit).map loadEvent) := by
        rw [scanLoop_map (fun e he => (hmem e he).2)
          (fun e he => hread e (hmem e he).1 (hmem e he).2)
          (fun e he => getEvent_storeEvents h (hmem e he).1) hlimit,
          filter_inKeyOrder (hdistinct.filter _), List.filter_filter, List.nil_append]
        simp only [List.length_nil, Nat.sub_zero, Bool.and_comm]

theorem selects_run {e : AuditEvent} {runId : String} (hrun : truthy q.runId = some runId)
    (h : q.selects e = true) : e.runId = runId := by
  simp only [Query.selects, hrun, Option.all_some, Bool.and_eq_true, decide_eq_true_eq] at h
  exact h.1.2

/-- The first key of a run behind the cursor. -/
theorem exists_start (hcursor : q.cursor = 0 ∨ q.cursor + 1 < 2 ^ 63) (runId : String) :
    ∃ start, (if q.cursor = 0 then some (idPrefix runId)
        else (seqKey (q.cursor + 1)).map fun seqB => idPrefix runId ++ seqB) = some start ∧
      idPrefix runId <+: start ∧
      ∀ e : AuditEvent, e.runId = runId → 1 ≤ e.sequence ∧ e.sequence < 2 ^ 63 →
        (¬ runKey e < start ↔ q.cursor < e.sequence) := by
  by_cases hzero : q.cursor = 0
  · refine ⟨idPrefix runId, if_pos hzero, List.prefix_rfl, fun e hsame hrange => ?_⟩
    rw [runKey, hsame, hzero]
    exact iff_of_true (not_append_lt _ _) hrange.1
  · have hfit : q.cursor + 1 < 2 ^ 63 := hcursor.resolve_left hzero
    have hkey : seqKey (q.cursor + 1) = some (seqToKey (q.cursor + 1)) := seqKey_natCast hfit
    refine ⟨idPrefix runId ++ seqToKey (q.cursor + 1), ?_, List.prefix_append _ _,
      fun e hsame hrange => ?_⟩
    · rw [if_neg hzero, hkey, Option.map_some]
    · rw [runKey, hsame, append_lt_append_iff, seqToKey_lt_iff hrange.2 hfit, not_lt,
        Nat.succ_le_iff]

/-- With a run id the first selected events of all tenants are found. -/
theorem queryEvents_run (h : EventSet events) (hq : q.Valid) {runId : String}
    (hrun : truthy q.runId = some runId) (hcursor : q.cursor = 0 ∨ q.cursor + 1 < 2 ^ 63)
    (hlimit : 0 < limit) : queryEvents (storeEvents events) q limit =
      some ((((bySequence events).filter q.selects).take limit).map loadEvent) := by
  have hclear : ':' ∉ runId.toList := by
    cases hid : q.runId with
    | none => simp [hid, truthy] at hrun
    | some id =>
        have hsame : id = runId := by
          rw [hid, truthy] at hrun
          split_ifs at hrun
          exact Option.some.inj hrun
        exact hq.clear runId (by simp [hid, hsame])
  -- the walk starts at the first key behind the cursor
  rcases exists_start hcursor runId with ⟨start, hstart, hpre, hafter⟩
  have hloop := scanLoop_index (q := q) h (fun _ => true) h.distinct_runKey evByRun_storeEvents
    hpre (fun e he hkey => readRunKey_runKey h he ((idPrefix_isPrefix_iff h he hclear).1 hkey)) hlimit
  have hselects : ∀ e ∈ events, (decide (¬ runKey e < start ∧ idPrefix runId <+: runKey e) &&
      (true && q.allows (.str e.eventType))) = q.selects e := by
    intro e he
    have hrunKey := idPrefix_isPrefix_iff h he hclear
    by_cases hsame : e.runId = runId
    · have hbehind := hafter e hsame (h.range e he)
      simp [Query.selects, hrun, hrunKey, hsame, hbehind, Bool.and_comm]
    · simp [Query.selects, hrun, hrunKey, hsame]
  simp only [queryEvents, hrun]
  rw [hstart, Option.bind_some, hloop, List.filter_congr hselects, bySequence_eq,
    filter_inKeyOrder h.distinct]
  -- the keys of one run are in the order of the sequences
  have hsame : ∀ a ∈ events.filter q.selects, ∀ b ∈ events.filter q.selects,
      runKey a < runKey b → a.sequence < b.sequence := by
    intro a ha b hb
    rcases List.mem_filter.1 ha with ⟨ha, hasel⟩
    rcases List.mem_filter.1 hb with ⟨hb, hbsel⟩
    exact (runKey_lt_iff h ha hb ((selects_run hrun hasel).trans (selects_run hrun hbsel).symm)).1
  rw [inKeyOrder_congr (h.distinct_runKey.filter _) hsame]

/-- Without a run id the first selected events of the tenant by type are found. -/
theorem queryEvents_type (h : EventSet events) (hq : q.Valid) (hrun : truthy q.runId = none)
    (hlimit : 0 < limit) : queryEvents (storeEvents events) q limit =
      some (((byType events q).take limit).map loadEvent) := by
  have hloop := scanLoop_index (q := q) h (fun e => decide (q.cursor < e.sequence))
    h.distinct_typeKey evByType_storeEvents (List.prefix_rfl : tenantPrefix q.orgId q.projectId <+: _)
    (fun e he _ => readTypeKey_typeKey h he q.cursor) hlimit
  have hselects : ∀ e ∈ events, (decide (¬ typeKey e < tenantPrefix q.orgId q.projectId ∧
      tenantPrefix q.orgId q.projectId <+: typeKey e) &&
        (decide (q.cursor < e.sequence) && q.allows (.str e.eventType))) =
      (q.ofTenant e && q.selects e) := by
    intro e he
    have htenant := tenantPrefix_isPrefix_iff h hq he
    by_cases hof : q.ofTenant e = true
    · have hpre := htenant.2 hof
      have hnot : ¬ typeKey e < tenantPrefix q.orgId q.projectId := by
        rcases hpre with ⟨t, ht⟩
        exact ht ▸ not_append_lt _ _
      simp [Query.selects, hrun, hof, hpre, hnot, Bool.and_comm]
    · have hpre : ¬ tenantPrefix q.orgId q.projectId <+: typeKey e := fun hpre => hof (htenant.1 hpre)
      simp [hof, hpre]
  simp only [queryEvents, hrun]
  rw [hloop, List.filter_congr hselects, byType, List.filter_filter]

end Found

/-! ## Query and statement -/

section Execute

variable {events : List AuditEvent} {q : Query}

theorem limit_pos (hq : q.Valid) : (if q.limit = 0 then 1000 else q.limit) = q.limit :=
  if_neg (Nat.one_le_iff_ne_zero.1 hq.limit)

/-- Rows are sorted as the events that they were loaded from. -/
theorem insertionSort_loadEvent (items : List AuditEvent) :
    (items.map loadEvent).insertionSort (fun a b => sortKey a ≤ sortKey b) =
      (inKeyOrder AuditEvent.sequence items).map loadEvent := by
  refine (List.map_insertionSort _ _ loadEvent items fun a _ b _ => ?_).symm
  rw [sortKey_loadEvent, sortKey_loadEvent]
  exact Int.ofNat_le.symm

/-- What is found up to the limit is sorted and returned. -/
theorem executeQuery_of_queryEvents (hq : q.Valid) {items : List AuditEvent}
    (h : queryEvents (storeEvents events) q q.limit = some ((items.take q.limit).map loadEvent)) :
    executeQuery (storeEvents events) q =
      some ((inKeyOrder AuditEvent.sequence (items.take q.limit)).map loadEvent) := by
  have hlimit : ¬ q.limit = 0 := Nat.one_le_iff_ne_zero.1 hq.limit
  have hlength : ((inKeyOrder AuditEvent.sequence (items.take q.limit)).map loadEvent).length ≤
      q.limit := by
    rw [List.length_map, (inKeyOrder_perm _ _).length_eq]
    exact List.length_take_le _ _
  rw [executeQuery, limit_pos hq, h, Option.map_some, insertionSort_loadEvent, if_neg hlimit,
    List.take_of_length_le hlength]

/-- Stored events are told apart by what is loaded. -/
theorem loadEvent_injOn (h : EventSet events) {a b : AuditEvent} (ha : a ∈ events) (hb : b ∈ events)
    (heq : loadEvent a = loadEvent b) : a = b := by
  have hseq : a.sequence = b.sequence := by
    have hkeys := congrArg sortKey heq
    rw [sortKey_loadEvent, sortKey_loadEvent] at hkeys
    exact Int.ofNat_inj.1 hkeys
  by_contra hne
  have hsymm : Std.Symm fun a b : AuditEvent => a.sequence ≠ b.sequence := ⟨fun _ _ h => h.symm⟩
  exact h.distinct.forall ha hb hne hseq

theorem map_loadEvent_inj (h : EventSet events) {l m : List AuditEvent} (hl : ∀ e ∈ l, e ∈ events)
    (hm : ∀ e ∈ m, e ∈ events) : l.map loadEvent = m.map loadEvent ↔ l = m := by
  refine ⟨fun heq => ?_, fun heq => by rw [heq]⟩
  induction l generalizing m with
  | nil => exact (List.map_eq_nil_iff.1 heq.symm).symm
  | cons a l ih =>
      cases m with
      | nil => cases heq
      | cons b m =>
          rw [List.map_cons, List.map_cons, List.cons.injEq] at heq
          rw [loadEvent_injOn h (hl a List.mem_cons_self) (hm b List.mem_cons_self) heq.1,
            ih (fun e he => hl e (List.mem_cons_of_mem a he))
              (fun e he => hm e (List.mem_cons_of_mem b he)) heq.2]

theorem mem_of_statement {e : AuditEvent} (he : e ∈ statement events q) : e ∈ events :=
  mem_inKeyOrder.1 (List.mem_filter.1 (List.mem_filter.1 (List.mem_of_mem_take he)).1).1

/-- The query returns the events of the statement exactly if the condition holds. -/
theorem executeQuery_iff (h : EventSet events) (hq : q.Valid) :
    executeQuery (storeEvents events) q = some ((statement events q).map loadEvent) ↔
      Agrees events q := by
  have hsorted : ((bySequence events).filter q.selects).Pairwise fun a b => a.sequence < b.sequence :=
    (insertionSort_ordered h.distinct).filter _
  cases hrun : truthy q.runId with
  | some runId =>
      simp only [Agrees, hrun]
      by_cases hcursor : q.cursor = 0 ∨ q.cursor + 1 < 2 ^ 63
      · -- the events found are in order
        have hfound := executeQuery_of_queryEvents hq (queryEvents_run h hq hrun hcursor hq.limit)
        rw [inKeyOrder_of_sorted (hsorted.sublist (List.take_sublist _ _))] at hfound
        have hmem : ∀ e ∈ ((bySequence events).filter q.selects).take q.limit, e ∈ events :=
          fun e he => mem_inKeyOrder.1 (List.mem_filter.1 (List.mem_of_mem_take he)).1
        calc executeQuery (storeEvents events) q = some ((statement events q).map loadEvent)
            ↔ (((bySequence events).filter q.selects).take q.limit).map loadEvent =
                (statement events q).map loadEvent := by rw [hfound, Option.some.injEq]
          _ ↔ ((bySequence events).filter q.selects).take q.limit = statement events q :=
              map_loadEvent_inj h hmem fun e he => mem_of_statement he
          _ ↔ ∀ e ∈ ((bySequence events).filter q.selects).take q.limit, q.ofTenant e = true := by
              rw [← filter_take_iff, statement, eq_comm]
          _ ↔ (q.cursor = 0 ∨ q.cursor + 1 < 2 ^ 63) ∧
                ∀ e ∈ ((bySequence events).filter q.selects).take q.limit, q.ofTenant e = true :=
              (and_iff_right hcursor).symm
      · have hraises : executeQuery (storeEvents events) q = none := by
          rw [not_or] at hcursor
          have hkey : seqKey ((q.cursor : Int) + 1) = none := if_neg (by omega)
          simp [executeQuery, queryEvents, hrun, hcursor.1, hkey]
        rw [hraises]
        exact iff_of_false (by simp) fun hagrees => hcursor hagrees.1
  | none =>
      simp only [Agrees, hrun]
      have hfound := executeQuery_of_queryEvents hq (queryEvents_type h hq hrun hq.limit)
      have hselected : ((events.filter q.selects).filter q.ofTenant).Pairwise
          fun a b => a.sequence ≠ b.sequence := (h.distinct.filter _).filter _
      have hperm := inKeyOrder_perm typeKey ((events.filter q.selects).filter q.ofTenant)
      have hdistinct : (byType events q).Pairwise fun a b => a.sequence ≠ b.sequence :=
        hperm.symm.pairwise hselected fun hab => hab.symm
      have hstatement : statement events q =
          (inKeyOrder AuditEvent.sequence (byType events q)).take q.limit := by
        rw [statement, bySequence_eq, filter_inKeyOrder h.distinct,
          filter_inKeyOrder (h.distinct.filter _), byType, inKeyOrder_of_perm hperm.symm hselected]
      have hmem : ∀ e ∈ inKeyOrder AuditEvent.sequence ((byType events q).take q.limit),
          e ∈ events := by
        intro e he
        have hfiltered := hperm.mem_iff.1 (List.mem_of_mem_take (mem_inKeyOrder.1 he))
        exact (List.mem_filter.1 (List.mem_filter.1 hfiltered).1).1
      calc executeQuery (storeEvents events) q = some ((statement events q).map loadEvent)
          ↔ (inKeyOrder AuditEvent.sequence ((byType events q).take q.limit)).map loadEvent =
              (statement events q).map loadEvent := by rw [hfound, Option.some.injEq]
        _ ↔ inKeyOrder AuditEvent.sequence ((byType events q).take q.limit) = statement events q :=
            map_loadEvent_inj h hmem fun e he => mem_of_statement he
        _ ↔ ∀ e ∈ (byType events q).take q.limit, ∀ e' ∈ (byType events q).drop q.limit,
              e.sequence < e'.sequence := by rw [hstatement, inKeyOrder_take_iff hdistinct]

end Execute

/-! ### Two event types -/

def exampleEvent (sequence : Nat) (eventType : String) : AuditEvent :=
  { RocksBackend.exampleRow "e_1" with sequence := sequence, eventType := eventType }

/-- A run that was started and called a tool, with these sequences. -/
def exampleEvents (started called : Nat) : List AuditEvent :=
  [exampleEvent started "run.started", exampleEvent called "tool.called"]

/-- The first event of the tenant. -/
def exampleQuery : Query where
  orgId := "org_test"
  projectId := "proj_test"
  limit := 1

theorem eventSet_exampleEvents {started called : Nat} (hne : started ≠ called)
    (hstarted : 1 ≤ started ∧ started < 2 ^ 63) (hcalled : 1 ≤ called ∧ called < 2 ^ 63) :
    EventSet (exampleEvents started called) where
  distinct := List.pairwise_pair.2 hne
  range := by
    intro e he
    rcases List.mem_pair.1 he with rfl | rfl
    · exact hstarted
    · exact hcalled
  clear := by
    intro e he
    rcases List.mem_pair.1 he with rfl | rfl
    · exact (by decide : ∀ id ∈ ["org_test", "proj_test", "run_1"], ':' ∉ id.toList)
    · exact (by decide : ∀ id ∈ ["org_test", "proj_test", "run_1"], ':' ∉ id.toList)

theorem valid_exampleQuery : exampleQuery.Valid where
  limit := by decide
  clear := by decide

theorem executeQuery_in_order :
    executeQuery (storeEvents (exampleEvents 1 2)) exampleQuery =
      some ((statement (exampleEvents 1 2) exampleQuery).map loadEvent) := by
  refine (executeQuery_iff (eventSet_exampleEvents (by decide) (by decide) (by decide))
    valid_exampleQuery).2 ?_
  have hordered : ∀ e ∈ (byType (exampleEvents 1 2) exampleQuery).take 1,
      ∀ e' ∈ (byType (exampleEvents 1 2) exampleQuery).drop 1, e.sequence < e'.sequence := by
    decide +kernel
  exact hordered

/-- The event that comes first by type is returned, though another one has a smaller sequence. -/
theorem executeQuery_ne_statement :
    ¬ ∀ (events : List AuditEvent) (q : Query), EventSet events → q.Valid →
      executeQuery (storeEvents events) q = some ((statement events q).map loadEvent) := by
  intro hall
  have heq := hall (exampleEvents 2 1) exampleQuery
    (eventSet_exampleEvents (by decide) (by decide) (by decide)) valid_exampleQuery
  have hfound : (executeQuery (storeEvents (exampleEvents 2 1)) exampleQuery).map
      (List.map sortKey) = some [2] := by decide +kernel
  have hstated : (statement (exampleEvents 2 1) exampleQuery).map AuditEvent.sequence = [1] := by
    decide +kernel
  have hkeys : ∀ items : List AuditEvent, (items.map loadEvent).map sortKey =
      (items.map AuditEvent.sequence).map Int.ofNat := by
    intro items
    rw [List.map_map, List.map_map]
    exact List.map_congr_left fun e _ => sortKey_loadEvent e
  rw [heq, Option.map_some, hkeys, hstated] at hfound
  exact absurd hfound (by decide)

end EventQuery
end Collector
end ControlDB
