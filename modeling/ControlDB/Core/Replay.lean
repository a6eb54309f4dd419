import ControlDB.Core.Idempotency

/-!
# Sending a batch again

What `append_events` does with a batch all of whose idempotency keys are in the column.  The loop
skips what it recognises, but the status loop that follows goes over the whole input, so a replayed
`agent_run.*` event sets the status of the run once more.
-/

namespace ControlDB

open Library

/-- The runs, the events and every index are as they were. -/
structure SameContents (db db' : Rocks) : Prop where
  runs : db'.runs = db.runs
  runsByOrg : db'.runsByOrg = db.runsByOrg
  events : db'.events = db.events
  evByRun : db'.evByRun = db.evByRun
  evByType : db'.evByType = db.evByType
  idempotency : db'.idempotency = db.idempotency

/-- The idempotency column has a record under the (non-empty) key of `ev`. -/
def KeyStored (db : Rocks) (ev : AuditEvent) : Prop :=
  ev.idempotencyKey ≠ [] ∧ (db.idempotency.get ev.idempotencyKey).isSome

instance (db : Rocks) (ev : AuditEvent) : Decidable (KeyStored db ev) :=
  inferInstanceAs (Decidable (_ ∧ _))

/-! ## What the status loop comes to -/

/-- The status that an event of this type sets. -/
def namedStatus (eventType : Bytes) : Option Bytes :=
  if eventType = bytes "agent_run.committed" then some (bytes "committed")
  else if eventType = bytes "agent_run.failed" then some (bytes "failed")
  else if eventType = bytes "agent_run.started" then some (bytes "running")
  else none

/-- The types that end a run. -/
def EndsRun (eventType : Bytes) : Prop :=
  eventType = bytes "agent_run.committed" ∨ eventType = bytes "agent_run.failed"

instance (eventType : Bytes) : Decidable (EndsRun eventType) :=
  inferInstanceAs (Decidable (_ ∨ _))

/-- The statuses a batch names, in order. -/
def namedStatuses (events : List AuditEvent) : List Bytes :=
  events.filterMap fun ev => namedStatus ev.eventType

/-- The clock readings at the events that end a run; the first event is number `i`. -/
def endTimes (now : Nat → Int) : Nat → List AuditEvent → List Int
  | _, [] => []
  | i, ev :: rest =>
      if EndsRun ev.eventType then now i :: endTimes now (i + 1) rest
      else endTimes now (i + 1) rest

/-- The last status the batch names, if any, is that of the run, and the clock reads the end of the
run at the last event that ends it, if any. -/
structure Settled (now : Nat → Int) (events : List AuditEvent) (run : AgentRun) : Prop where
  status : ∀ status, (namedStatuses events).getLast? = some status → status = run.status
  ended : ∀ time, (endTimes now 0 events).getLast? = some time → time = run.endedAtMs

/-- The status loop leaves the last status named and the last reading taken. -/
theorem updateStatus_eq (now : Nat → Int) (i : Nat) (events : List AuditEvent) (run : AgentRun) :
    updateStatus now i events run =
      { run with
        status := (namedStatuses events).getLast?.getD run.status
        endedAtMs := (endTimes now i events).getLast?.getD run.endedAtMs } := by
  induction events generalizing i run with
  | nil => rfl
  | cons ev rest ih =>
      have hfailed : bytes "agent_run.failed" ≠ bytes "agent_run.committed" := by decide
      have hstarted : bytes "agent_run.started" ≠ bytes "agent_run.committed" ∧
          bytes "agent_run.started" ≠ bytes "agent_run.failed" := by decide
      simp only [updateStatus, ih]
      split_ifs with hc hf hs
      · simp [namedStatuses, namedStatus, endTimes, EndsRun, hc, List.getLast?_cons]
      · simp [namedStatuses, namedStatus, endTimes, EndsRun, hf, hfailed, List.getLast?_cons]
      · simp [namedStatuses, namedStatus, endTimes, EndsRun, hs, hstarted, List.getLast?_cons]
      · simp [namedStatuses, namedStatus, endTimes, EndsRun, hc, hf, hs]

theorem settled_iff {now : Nat → Int} {events : List AuditEvent} {run : AgentRun} :
    Settled now events run ↔ updateStatus now 0 events run = run := by
  rw [updateStatus_eq]
  constructor
  · intro h
    have hstatus : (namedStatuses events).getLast?.getD run.status = run.status := by
      cases hlast : (namedStatuses events).getLast? with
      | none => rfl
      | some status => exact h.status status hlast
    have hended : (endTimes now 0 events).getLast?.getD run.endedAtMs = run.endedAtMs := by
      cases hlast : (endTimes now 0 events).getLast? with
      | none => rfl
      | some time => exact h.ended time hlast
    rw [hstatus, hended]
  · intro h
    have hstatus := congrArg AgentRun.status h
    have hended := congrArg AgentRun.endedAtMs h
    exact ⟨fun status hlast => by simpa [hlast] using hstatus,
      fun time hlast => by simpa [hlast] using hended⟩

/-! ## The call -/

theorem SameContents.refl (db : Rocks) : SameContents db db :=
  ⟨rfl, rfl, rfl, rfl, rfl, rfl⟩

theorem SameContents.storedRun {db db' : Rocks} (h : SameContents db db') (runId : Bytes) :
    storedRun db' runId = ControlDB.storedRun db runId := by
  simp only [ControlDB.storedRun, h.runs]

theorem storedRun_appendBatch (db : Rocks) (es : List AuditEvent) (runId : Bytes) (run : AgentRun)
    (seq : Nat) : storedRun (db.write (appendBatch es runId run seq)) runId = some run := by
  have hruns : (db.write (appendBatch es runId run seq)).runs =
      db.runs.put runId (runToJson run) := by rw [write_appendBatch]
  rw [storedRun_put db hruns, if_pos rfl]

/-- The key of a stored event is in the column. -/
theorem Known.keyStored {db : Rocks} {ev : AuditEvent} (hdb : Represents db) (h : Known db ev) :
    KeyStored db ev := by
  rcases h with ⟨hkey, e, he, hsame⟩
  refine ⟨hkey, ?_⟩
  have hput : ∀ (es : List AuditEvent) (m : SortedMap Bytes Bytes),
      ((m.get ev.idempotencyKey).isSome ∨ e ∈ es) →
        ((es.foldl putIdempotency m).get ev.idempotencyKey).isSome := by
    intro es
    induction es with
    | nil => intro m h; simpa using h
    | cons a es ih =>
        intro m h
        refine ih _ ?_
        rcases h with hsome | hmem
        · left
          unfold putIdempotency
          split_ifs with hempty
          · exact hsome
          · simp only [SortedMap.get_put]
            split_ifs <;> simp [hsome]
        · rcases List.mem_cons.1 hmem with rfl | htail
          · left
            unfold putIdempotency
            rw [if_neg (hsame ▸ hkey), hsame]
            simp only [SortedMap.get_put]
            split_ifs <;> simp
          · exact .inr htail
  rw [hdb.idempotency]
  exact hput _ _ (.inr he)

section Call

variable {env : Env} {now : Nat → Int} {s : Store} {runId orgId projectId : Bytes}
  {events : List AuditEvent}

theorem appendLoop_of_duplicates {db : Rocks} {run : AgentRun} {i : Nat} {st : AppendState}
    (hdup : ∀ ev ∈ events, isDuplicate db ev) :
    appendLoop env now db run runId orgId projectId i events st =
      .ok { st with results := st.results ++ events.map (duplicateResult db) } := by
  induction events generalizing i st with
  | nil => simp [appendLoop]
  | cons ev rest ih =>
      have hrest := fun ev' hmem => hdup ev' (List.mem_cons_of_mem _ hmem)
      simp [appendLoop, hdup ev List.mem_cons_self, ih hrest]

/-- A batch of duplicates only rewrites the run, with the status loop applied to it. -/
theorem write_of_duplicates {run : AgentRun} {results : List InsertEventResult}
    (hfetch : fetchRun s.rocks runId orgId projectId = .ok run)
    (hdup : ∀ ev ∈ events, isDuplicate s.rocks ev)
    (hok : (appendEvents env now s runId orgId projectId events).result = .ok results) :
    (s.applyAll (appendEvents env now s runId orgId projectId events).effects).rocks =
      s.rocks.write (appendBatch [] runId
        (updateStatus (fun i => now (events.length + i)) 0 events run) s.globalSeq) := by
  have hcount : (events.map (duplicateResult s.rocks)).countP (fun r => !r.wasDuplicate) = 0 := by
    simp [List.countP_eq_zero, duplicateResult]
  have hrun : { run with
      lastEventHash := run.lastEventHash
      eventCount := run.eventCount + (0 : Nat) } = run := by
    cases run
    simp
  simp only [appendEvents, hfetch, appendLoop_of_duplicates hdup, List.nil_append, hcount,
    hrun] at hok ⊢
  cases hdump : env.dump (runToJson
      (updateStatus (fun i => now (events.length + i)) 0 events run)) with
  | none => simp [hdump] at hok
  | some text => simp [Store.applyAll, Store.apply, appendBatch]

/-- A call that throws leaves every record in place. -/
theorem sameContents_of_throw {e : StoreError}
    (hthrow : (appendEvents env now s runId orgId projectId events).result = .error e) :
    SameContents s.rocks
      (s.applyAll (appendEvents env now s runId orgId projectId events).effects).rocks := by
  rcases appendEvents_cases env now s runId orgId projectId events with
    ⟨run, r, hreturned⟩ | ⟨_, es, tail, htail, heffects⟩
  · cases hreturned.result.symm.trans hthrow
  · have hquiet : (eventEffects s.wal.lastSeq es ++ tail).all Effect.quiet = true := by
      rcases htail with rfl | rfl <;> simp [eventEffects_quiet, Effect.quiet]
    rw [heffects, (Store.applyAll_quiet hquiet).1]
    exact .refl _

/-- If the run record is as it was, the call accepted no event. -/
theorem duplicates_of_sameContents (hs : Consistent s) {results : List InsertEventResult}
    (hok : (appendEvents env now s runId orgId projectId events).result = .ok results)
    (hsame : SameContents s.rocks
      (s.applyAll (appendEvents env now s runId orgId projectId events).effects).rocks) :
    ∀ ev ∈ events, isDuplicate s.rocks ev := by
  rcases appendReturned_of_ok hok with ⟨run, r, hreturned, _⟩
  have hrun : r = run := by
    have hbefore := (fetchRun_spec hs.represents hreturned.fetch).1
    have hafter := hsame.storedRun runId
    rw [hreturned.rocks, storedRun_appendBatch, hbefore] at hafter
    exact Option.some.inj hafter
  -- the count has not moved, so nothing was accepted
  have hnone : s.accepted env now run runId orgId projectId events = [] := by
    have hcount := hreturned.count
    rw [hrun] at hcount
    exact List.length_eq_zero_iff.1 (by omega)
  have hkeys : (s.accepted env now run runId orgId projectId events).map keyAndId =
      (events.filter fun ev => decide (¬ isDuplicate s.rocks ev)).map keyAndId :=
    acceptedEvents_keys 0 events s.globalSeq run.lastEventHash
  rw [hnone] at hkeys
  intro ev hev
  have hfilter : (events.filter fun ev => decide (¬ isDuplicate s.rocks ev)) = [] := by
    simpa using hkeys.symm
  simpa using List.filter_eq_nil_iff.1 hfilter ev hev

end Call

/-- Each record found is not empty, as it is when the event was stored without an id, and the
status loop has nothing to change. -/
structure ReplaySettled (now : Nat → Int) (db : Rocks) (runId : Bytes) (events : List AuditEvent) :
    Prop where
  named : ∀ ev ∈ events, db.getIdempotency ev.idempotencyKey ≠ []
  settled : ∀ run, storedRun db runId = some run →
    Settled (fun i => now (events.length + i)) events run

theorem replay_sameContents_iff {env : Env} {now : Nat → Int} {s : Store}
    {runId orgId projectId : Bytes} {events : List AuditEvent} {results : List InsertEventResult}
    (hs : Consistent s) (hkeys : ∀ ev ∈ events, KeyStored s.rocks ev)
    (hok : (appendEvents env now s runId orgId projectId events).result = .ok results) :
    SameContents s.rocks
        (s.applyAll (appendEvents env now s runId orgId projectId events).effects).rocks ↔
      ReplaySettled now s.rocks runId events := by
  rcases appendReturned_of_ok hok with ⟨run, _, hreturned, _⟩
  have hfetch := hreturned.fetch
  rcases fetchRun_spec hs.represents hfetch with ⟨hstored, hid, _⟩
  constructor
  · intro hsame
    -- an accepted event would be stored, so all were duplicates
    have hdup := duplicates_of_sameContents hs hok hsame
    refine ⟨fun ev hev => (hdup ev hev).2, fun run' hrun' => ?_⟩
    rw [hstored] at hrun'
    cases hrun'
    have hafter := hsame.storedRun runId
    rw [write_of_duplicates hfetch hdup hok, storedRun_appendBatch, hstored] at hafter
    exact settled_iff.2 (Option.some.inj hafter)
  · intro hsettled
    have hdup : ∀ ev ∈ events, isDuplicate s.rocks ev :=
      fun ev hev => ⟨(hkeys ev hev).1, hsettled.named ev hev⟩
    have hrun : updateStatus (fun i => now (events.length + i)) 0 events run = run :=
      settled_iff.1 (hsettled.settled run hstored)
    -- the document of the run is the one the call writes again
    have hget : s.rocks.runs.get runId = some (runToJson run) := by
      rcases Option.bind_eq_some_iff.1 hstored with ⟨doc, hdoc, hdecode⟩
      rcases hs.represents.runDoc hdoc with ⟨r, rfl, _⟩
      have hsame : r = run := by simpa [Except.toOption] using hdecode
      rw [hdoc, hsame]
    rw [write_of_duplicates hfetch hdup hok, write_appendBatch, hrun]
    exact ⟨SortedMap.put_eq_self hget, rfl, rfl, rfl, rfl, rfl⟩

/-! ## Histories -/

/-- In a reachable store, sending a batch whose keys are all stored leaves every record in place if
the call throws, and otherwise exactly when the batch is settled. -/
theorem replay_noop_iff (env : Env) (actions : List Action) (now : Nat → Int)
    (runId orgId projectId : Bytes) (events : List AuditEvent)
    (hkeys : ∀ ev ∈ events, KeyStored (runActions env {} actions).rocks ev) :
    let s := runActions env {} actions
    let s' := (Action.call now (.appendEvents runId orgId projectId events)).run env s
    (∀ e, (appendEvents env now s runId orgId projectId events).result = .error e →
      SameContents s.rocks s'.rocks) ∧
    (∀ results, (appendEvents env now s runId orgId projectId events).result = .ok results →
      (SameContents s.rocks s'.rocks ↔ ReplaySettled now s.rocks runId events)) := by
  intro s s'
  refine ⟨fun e hthrow => sameContents_of_throw hthrow, fun results hok => ?_⟩
  exact replay_sameContents_iff (consistent_runActions env actions) hkeys hok

namespace ReplayExample

open IdempotencyExample (run clock event actions)

/-- The event that commits the run, sent with a key. -/
def committed : AuditEvent :=
  { event with eventType := bytes "agent_run.committed" }

def env : Env :=
  tableEnv [
    (canonicalJsonEvent { IdempotencyExample.stamped 1 [] with eventType := committed.eventType },
      #v[34, 223, 7, 188, 11, 2, 215, 92, 23, 0, 164, 110, 110, 48, 94, 108,
        207, 30, 1, 211, 46, 250, 117, 6, 118, 217, 144, 13, 119, 39, 200, 241])]

/-- The run is committed by the event and then rolled back. -/
def rolledBack : List Action :=
  actions [[committed]] ++ [.call clock (.rollbackRun run.runId run.orgId run.projectId [])]

end ReplayExample

open ReplayExample IdempotencyExample in
/-- Sending the event again right away changes nothing. -/
theorem replay_noop_at_once :
    let s := runActions ReplayExample.env {} (actions [[committed]])
    SameContents s.rocks ((Action.call clock (.appendEvents run.runId run.orgId run.projectId
      [committed])).run ReplayExample.env s).rocks := by
  intro s
  have hkeys : ∀ ev ∈ [committed], KeyStored s.rocks ev := by decide +kernel
  have hnoop := replay_noop_iff ReplayExample.env (actions [[committed]]) clock run.runId run.orgId
    run.projectId [committed] hkeys
  cases hresult : (appendEvents ReplayExample.env clock s run.runId run.orgId run.projectId
      [committed]).result with
  | error e => exact hnoop.1 e hresult
  | ok results =>
      refine (hnoop.2 results hresult).2 ⟨by decide +kernel, fun r hr => ?_⟩
      have hrun : ∀ r ∈ storedRun s.rocks run.runId,
          r.status = bytes "committed" ∧ r.endedAtMs = 1714521600000 := by decide +kernel
      have hstatus : ∀ status ∈ (namedStatuses [committed]).getLast?,
          status = bytes "committed" := by decide +kernel
      have hended : ∀ time ∈ (endTimes (fun i => clock ([committed].length + i)) 0
          [committed]).getLast?, time = 1714521600000 := by decide +kernel
      exact ⟨fun status hlast => (hstatus status hlast).trans (hrun r hr).1.symm,
        fun time hlast => (hended time hlast).trans (hrun r hr).2.symm⟩

open ReplayExample IdempotencyExample in
/-- Sent again after the rollback, the event commits the run a second time. -/
theorem replay_undoes_rollback :
    let s := runActions ReplayExample.env {} rolledBack
    (∀ ev ∈ [committed], KeyStored s.rocks ev) ∧
      ¬ SameContents s.rocks ((Action.call clock (.appendEvents run.runId run.orgId run.projectId
        [committed])).run ReplayExample.env s).rocks := by
  refine ⟨by decide +kernel, fun hsame => ?_⟩
  have hstatus := hsame.storedRun run.runId
  revert hstatus
  decide +kernel

end ControlDB
