import ControlDB.Core.EventStore

/-!
# The records a store holds

The decoded contents of the runs, events and approvals columns, and what the batch of an
`append_events` call makes of every column.
-/

namespace ControlDB

open Library

/-- The stored run under a key. -/
def storedRun (db : Rocks) (runId : Bytes) : Option AgentRun :=
  (db.runs.get runId).bind fun doc => (jsonToRun doc).toOption

/-- The stored events, ordered by sequence. -/
def storedEvents (db : Rocks) : List AuditEvent :=
  db.events.entries.filterMap fun entry => (jsonToEvent entry.2).toOption

/-- The stored events of a run, ordered by sequence. -/
def runEvents (db : Rocks) (runId : Bytes) : List AuditEvent :=
  (storedEvents db).filter fun e => decide (e.runId = runId)

/-- The stored approval under a key. -/
def storedApproval (db : Rocks) (approvalId : Bytes) : Option Approval :=
  (db.approvals.get approvalId).bind fun doc => (jsonToApproval doc).toOption

theorem mem_runEvents {db : Rocks} {runId : Bytes} {e : AuditEvent} :
    e ∈ runEvents db runId ↔ e ∈ storedEvents db ∧ e.runId = runId := by
  simp [runEvents]

/-! ## Replaying an accepted event on the columns -/

def putEvent (m : SortedMap Nat Json) (e : AuditEvent) : SortedMap Nat Json :=
  m.put e.sequence (eventToJson e)

def putIdempotency (m : SortedMap Bytes Bytes) (e : AuditEvent) : SortedMap Bytes Bytes :=
  if e.idempotencyKey = [] then m
  else (m.put e.idempotencyKey e.eventId).put (hashKey e.idempotencyKey) e.eventHash

/-- The events of a batch reach four columns and leave the others alone. -/
theorem foldl_eventPuts (db : Rocks) (es : List AuditEvent) :
    (es.flatMap eventPuts).foldl Rocks.put db =
      { db with
        events := es.foldl putEvent db.events
        evByRun := es.foldl (fun m e => m.put (evByRunKey e) ()) db.evByRun
        evByType := es.foldl (fun m e => m.put (evByTypeKey e) ()) db.evByType
        idempotency := es.foldl putIdempotency db.idempotency } := by
  induction es generalizing db with
  | nil => rfl
  | cons e es ih =>
      -- an event without a key leaves the idempotency column alone
      have hstep : (eventPuts e).foldl Rocks.put db =
          { db with
            events := putEvent db.events e
            evByRun := db.evByRun.put (evByRunKey e) ()
            evByType := db.evByType.put (evByTypeKey e) ()
            idempotency := putIdempotency db.idempotency e } := by
        by_cases hkey : e.idempotencyKey = []
        · simp [eventPuts, idempotencyPuts, putIdempotency, putEvent, Rocks.put, hkey]
        · simp [eventPuts, idempotencyPuts, putIdempotency, putEvent, Rocks.put, hkey]
      simp only [List.flatMap_cons, List.foldl_append, hstep, ih, List.foldl_cons]

/-- The batch of an `append_events` call: the accepted events, the run, the counter. -/
def appendBatch (es : List AuditEvent) (runId : Bytes) (run : AgentRun) (seq : Nat) : List Put :=
  es.flatMap eventPuts ++ [.runs runId (runToJson run), .globalSeq seq]

theorem write_appendBatch (db : Rocks) (es : List AuditEvent) (runId : Bytes) (run : AgentRun)
    (seq : Nat) :
    db.write (appendBatch es runId run seq) =
      { db with
        globalSeq := some seq
        runs := db.runs.put runId (runToJson run)
        events := es.foldl putEvent db.events
        evByRun := es.foldl (fun m e => m.put (evByRunKey e) ()) db.evByRun
        evByType := es.foldl (fun m e => m.put (evByTypeKey e) ()) db.evByType
        idempotency := es.foldl putIdempotency db.idempotency
        batches := db.batches ++ [appendBatch es runId run seq] } := by
  simp [Rocks.write, appendBatch, List.foldl_append, foldl_eventPuts, Rocks.put]

/-! ## How the decoded views change -/

theorem storedRun_put (db : Rocks) {db' : Rocks} {k : Bytes} {run : AgentRun}
    (hruns : db'.runs = db.runs.put k (runToJson run)) (runId : Bytes) :
    storedRun db' runId = if runId = k then some run else storedRun db runId := by
  unfold storedRun
  rw [hruns, SortedMap.get_put]
  split_ifs with h
  · simp [Except.toOption]
  · rfl

/-- Events numbered above all stored ones go to the end of the column, in order. -/
theorem entries_foldl_putEvent {m : SortedMap Nat Json} {es : List AuditEvent}
    (hnew : ∀ entry ∈ m.entries, ∀ e ∈ es, entry.1 < e.sequence)
    (hes : es.Pairwise fun a b => a.sequence < b.sequence) :
    (es.foldl putEvent m).entries =
      m.entries ++ es.map fun e => (e.sequence, eventToJson e) := by
  induction es generalizing m with
  | nil => simp
  | cons e es ih =>
      rcases List.pairwise_cons.1 hes with ⟨he, hes'⟩
      -- the number is above all in the column, so the entry goes to its end
      have hput : (putEvent m e).entries = m.entries ++ [(e.sequence, eventToJson e)] :=
        SortedMap.entries_put_of_forall_lt fun entry hentry =>
          hnew entry hentry e List.mem_cons_self
      have hnew' : ∀ entry ∈ (putEvent m e).entries, ∀ e' ∈ es, entry.1 < e'.sequence := by
        intro entry hentry e' he'
        rcases List.mem_append.1 (hput ▸ hentry) with hold | hlast
        · exact hnew entry hold e' (List.mem_cons_of_mem _ he')
        · rcases List.mem_singleton.1 hlast with rfl
          exact he e' he'
      simp [ih hnew' hes', hput]

theorem storedEvents_append {db db' : Rocks} {es : List AuditEvent}
    (hevents : db'.events.entries =
      db.events.entries ++ es.map fun e => (e.sequence, eventToJson e)) :
    storedEvents db' = storedEvents db ++ es := by
  have hdecode : (es.map fun e => (e.sequence, eventToJson e)).filterMap
      (fun entry => (jsonToEvent entry.2).toOption) = es := by
    simp [List.filterMap_map, Function.comp_def, Except.toOption]
  simp only [storedEvents, hevents, List.filterMap_append, hdecode]

end ControlDB
