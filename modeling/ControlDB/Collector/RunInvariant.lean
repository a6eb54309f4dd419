import ControlDB.Collector.Sound

/-!
# The run record and its chain

`append_events` adds the number of all answers to `event_count` and continues the chain from the
last answer's hash, whether the answer is a new row or an old one.  Run and events therefore agree
exactly as long as no batch repeats an event: then every answer is a new row.
-/

namespace ControlDB
namespace Collector

open Library Python

/-! ## The law -/

/-- The events of a run are one chain, and its record has the chain's last hash and length. -/
structure RunLawful (db : Database) (runId : String) (run : AgentRun) : Prop where
  linked : Linked AuditEvent.previousEventHash AuditEvent.eventHash none (runEvents db runId)
  lastHash : run.lastEventHash = (runEvents db runId).getLast?.map AuditEvent.eventHash
  count : run.eventCount = (runEvents db runId).length

def RunInvariant (db : Database) : Prop :=
  ∀ runId run, db.agentRuns.get runId = some run → RunLawful db runId run

/-! ## Batches that repeat nothing -/

/-- Event number `i` of a batch has the id or the key of a stored event, or the key of an event
before it in the batch. -/
def Repeats (m : Moment) (rows : List AuditEvent) (earlier : List EventInput) (i : Nat)
    (event : EventInput) : Prop :=
  (∃ e ∈ rows, e.eventId = resolvedEventId m i event ∨
    SameKey event.idempotencyKey e.idempotencyKey) ∨
    ∃ ev ∈ earlier, SameKey event.idempotencyKey ev.idempotencyKey

instance (m : Moment) (rows : List AuditEvent) (earlier : List EventInput) (i : Nat)
    (event : EventInput) : Decidable (Repeats m rows earlier i event) :=
  inferInstanceAs (Decidable (_ ∨ _))

/-- No event repeats another one; `earlier` are the events numbered below `i`. -/
def FreshFrom (m : Moment) (rows : List AuditEvent) :
    List EventInput → Nat → List EventInput → Prop
  | _, _, [] => True
  | earlier, i, event :: rest =>
      ¬ Repeats m rows earlier i event ∧ FreshFrom m rows (earlier ++ [event]) (i + 1) rest

instance decidableFreshFrom (m : Moment) (rows : List AuditEvent) :
    (earlier : List EventInput) → (i : Nat) → (events : List EventInput) →
      Decidable (FreshFrom m rows earlier i events)
  | _, _, [] => .isTrue trivial
  | earlier, i, event :: rest =>
      have := decidableFreshFrom m rows (earlier ++ [event]) (i + 1) rest
      inferInstanceAs (Decidable (_ ∧ _))

def FreshBatch (m : Moment) (rows : List AuditEvent) (events : List EventInput) : Prop :=
  FreshFrom m rows [] 0 events

instance (m : Moment) (rows : List AuditEvent) (events : List EventInput) :
    Decidable (FreshBatch m rows events) :=
  inferInstanceAs (Decidable (FreshFrom m rows [] 0 events))

/-- The batch of an `append_events` call repeats nothing. -/
def Request.Fresh (db : Database) (r : Request) : Prop :=
  match r.call with
  | .appendEvents _ events => FreshBatch r.moment db.auditEvents events
  | _ => True

instance (db : Database) (r : Request) : Decidable (r.Fresh db) := by
  unfold Request.Fresh
  split <;> infer_instance

/-- Every request is fresh for the database it meets. -/
def FreshRun (env : Env) : Database → List Request → Prop
  | _, [] => True
  | db, r :: rest => r.Fresh db ∧ FreshRun env (r.run env db) rest

instance decidableFreshRun (env : Env) :
    (db : Database) → (requests : List Request) → Decidable (FreshRun env db requests)
  | _, [] => .isTrue trivial
  | db, r :: rest =>
      have := decidableFreshRun env (r.run env db) rest
      inferInstanceAs (Decidable (_ ∧ _))

/-- The calls of the run lifecycle. -/
def Request.IsLifecycle (r : Request) : Prop :=
  match r.call with
  | .startRun .. | .appendEvents .. | .commitRun .. | .rollbackRun .. => True
  | _ => False

/-! ## The answers to a fresh batch -/

section Batch

variable {env : Env} {m : Moment} {committed : Database} {principal : Principal} {i : Nat}
  {events : List EventInput} {s s' : AppendSession} {previousHash lastHash : Option String}
  {answers : List AuditEvent}

/-- If nothing is repeated, the answers are the new rows, and they continue the chain. -/
theorem AppendRun.stored_of_fresh
    (h : AppendRun env m committed principal i events s previousHash s' lastHash answers)
    (earlier : List EventInput)
    (hkeys : ∀ e ∈ s.flushed, ∃ ev ∈ earlier, ev.idempotencyKey = e.idempotencyKey)
    (hfresh : FreshFrom m committed.auditEvents earlier i events) :
    s'.flushed = s.flushed ++ answers ∧
      Linked AuditEvent.previousEventHash AuditEvent.eventHash previousHash answers ∧
      lastHash = lastLink AuditEvent.eventHash previousHash answers := by
  induction h generalizing earlier with
  | nil => simp
  | @cons i event rest s s₁ s' previousHash lastHash answer answers hfirst hrest ih =>
      rcases hfresh with ⟨hnew, hfresh'⟩
      cases hfirst with
      | replayed hfind =>
          -- the row with the same key is stored, or was stored for an earlier event
          rcases findByKey_eq_some hfind with ⟨hmem, hkey⟩
          rcases List.mem_append.1 hmem with hold | hflushed
          · exact (hnew (.inl ⟨answer, hold, .inr hkey⟩)).elim
          · rcases hkeys answer hflushed with ⟨ev, hev, heq⟩
            exact (hnew (.inr ⟨ev, hev, hkey.1, hkey.2.trans heq.symm⟩)).elim
      | @recovered row _ run hnone hrow hclash hfind hrun =>
          rcases findById_eq_some hfind with ⟨hmem, hid⟩
          exact (hnew (.inl ⟨answer, hmem, .inl (hid.trans (newRow_spec hrow).eventId)⟩)).elim
      | stored hnone hrow hfree =>
          have hspec := newRow_spec hrow
          have hkeys' : ∀ e ∈ s.flushed ++ [answer],
              ∃ ev ∈ earlier ++ [event], ev.idempotencyKey = e.idempotencyKey := by
            intro e he
            rcases List.mem_append.1 he with hold | hlast
            · rcases hkeys e hold with ⟨ev, hev, heq⟩
              exact ⟨ev, List.mem_append_left _ hev, heq⟩
            · rw [List.mem_singleton.1 hlast]
              exact ⟨event, List.mem_append_right _ (List.mem_singleton_self event),
                hspec.idempotencyKey.symm⟩
          rcases ih (earlier ++ [event]) hkeys' hfresh' with ⟨hflushed, hlinked, hlast⟩
          refine ⟨by simpa using hflushed, ⟨hspec.previousEventHash, hlinked⟩, ?_⟩
          rw [lastLink_cons, hlast]

/-- An answer flushes at most one row. -/
theorem AppendRun.length_flushed_le
    (h : AppendRun env m committed principal i events s previousHash s' lastHash answers) :
    s'.flushed.length ≤ s.flushed.length + events.length := by
  induction h with
  | nil => simp
  | cons hfirst _ ih =>
      cases hfirst with
      | replayed hfind =>
          rw [List.length_cons]
          omega
      | recovered hnone hrow hclash hfind hrun =>
          simp only [List.length_nil, List.length_cons] at ih ⊢
          omega
      | stored hnone hrow hfree =>
          simp only [List.length_append, List.length_cons, List.length_nil] at ih ⊢
          omega

/-- If every answer flushed a row, nothing was repeated. -/
theorem AppendRun.fresh_of_length
    (h : AppendRun env m committed principal i events s previousHash s' lastHash answers)
    (earlier : List EventInput)
    (hkeys : ∀ ev ∈ earlier, ∃ e ∈ s.flushed, e.idempotencyKey = ev.idempotencyKey)
    (hlength : s'.flushed.length = s.flushed.length + events.length) :
    FreshFrom m committed.auditEvents earlier i events := by
  induction h generalizing earlier with
  | nil => trivial
  | @cons i event rest s s₁ s' previousHash lastHash answer answers hfirst hrest ih =>
      have hle := hrest.length_flushed_le
      cases hfirst with
      | replayed hfind =>
          rw [List.length_cons] at hlength
          omega
      | recovered hnone hrow hclash hfind hrun =>
          simp only [List.length_nil, List.length_cons] at hle hlength
          omega
      | stored hnone hrow hfree =>
          have hspec := newRow_spec hrow
          refine ⟨?_, ih (earlier ++ [event]) ?_ ?_⟩
          · rintro (⟨e, he, hid | hkey⟩ | ⟨ev, hev, hkey⟩)
            · exact hfree ⟨e, List.mem_append_left _ he, .inl (hid.trans hspec.eventId.symm)⟩
            · exact findByKey_eq_none hnone (List.mem_append_left _ he) hkey
            · rcases hkeys ev hev with ⟨e, he, heq⟩
              have hsame : SameKey event.idempotencyKey e.idempotencyKey :=
                ⟨hkey.1, hkey.2.trans heq.symm⟩
              exact findByKey_eq_none hnone (List.mem_append_right _ he) hsame
          · intro ev hev
            rcases List.mem_append.1 hev with hold | hlast
            · rcases hkeys ev hold with ⟨e, he, heq⟩
              exact ⟨e, List.mem_append_left _ he, heq⟩
            · rw [List.mem_singleton.1 hlast]
              exact ⟨answer, List.mem_append_right _ (List.mem_singleton_self answer),
                hspec.idempotencyKey⟩
          · simp only [List.length_append, List.length_cons, List.length_nil] at hlength ⊢
            omega

end Batch

/-! ## What a change does to the events of a run -/

section Changes

variable {env : Env} {principal : Principal} {db db' : Database}

theorem runEvents_congr (h : db'.auditEvents = db.auditEvents) (runId : String) :
    runEvents db' runId = runEvents db runId := by
  simp only [runEvents, h]

/-- The rows of a session come after the events of its run, and are no other run's. -/
theorem runEvents_append {run : AgentRun} {s : AppendSession} (hdb : Sound db)
    (hs : SessionInv db principal run s) (hdb' : Sound db')
    (hevents : db'.auditEvents = db.auditEvents ++ s.flushed) (runId : String) :
    runEvents db' runId =
      if runId = run.runId then runEvents db runId ++ s.flushed else runEvents db runId := by
  rw [hdb'.runEvents_eq, hdb.runEvents_eq, hevents, List.filter_append]
  split_ifs with hid
  · have hall : (s.flushed.filter fun e => decide (e.runId = runId)) = s.flushed :=
      List.filter_eq_self.2 fun e he => decide_eq_true ((hs.own e he).1.trans hid.symm)
    rw [hall]
  · have hnone : (s.flushed.filter fun e => decide (e.runId = runId)) = [] :=
      List.filter_eq_nil_iff.2 fun e he => by simpa [(hs.own e he).1] using Ne.symm hid
    rw [hnone, List.append_nil]

/-- A run that is not stored has no events. -/
theorem Sound.runEvents_eq_nil (hdb : Sound db) {runId : String}
    (hnew : db.agentRuns.get runId = none) : runEvents db runId = [] := by
  rw [hdb.runEvents_eq]
  refine List.filter_eq_nil_iff.2 fun e he hid => ?_
  rcases hdb.eventRun e he with ⟨r, hr, _⟩
  rw [of_decide_eq_true hid, hnew] at hr
  cases hr

/-- After a quiet change a run has the events it had; it is new and empty, or as long as before. -/
theorem Quiet.run_cases
    (hempty : ∀ runId, db.agentRuns.get runId = none → runEvents db runId = [])
    (h : Quiet principal db db') {runId : String} {run : AgentRun} (hrun : db'.agentRuns.get runId = some run) :
    (runEvents db' runId = runEvents db runId ∧ runEvents db runId = [] ∧
        run.lastEventHash = none ∧ run.eventCount = 0) ∨
      (runEvents db' runId = runEvents db runId ∧ ∃ old, db.agentRuns.get runId = some old ∧
        run.lastEventHash = old.lastEventHash ∧ run.eventCount = old.eventCount) := by
  cases h with
  | @openRun k r hnew hkey hown hhash hcount =>
      dsimp only at hrun
      rw [SortedMap.get_put] at hrun
      split_ifs at hrun with hid
      · cases hrun
        exact .inl ⟨runEvents_congr rfl runId, hid ▸ hempty k hnew, hhash, hcount⟩
      · exact .inr ⟨runEvents_congr rfl runId, run, hrun, rfl, rfl⟩
  | @updateRun k old r hold hown hsame =>
      dsimp only at hrun
      rw [SortedMap.get_put] at hrun
      split_ifs at hrun with hid
      · refine .inr ⟨runEvents_congr rfl runId, old, hid ▸ hold, ?_, ?_⟩
        · rw [← Option.some.inj hrun, hsame]
        · rw [← Option.some.inj hrun, hsame]
      · exact .inr ⟨runEvents_congr rfl runId, run, hrun, rfl, rfl⟩
  | approval => exact .inr ⟨runEvents_congr rfl runId, run, hrun, rfl, rfl⟩
  | «export» => exact .inr ⟨runEvents_congr rfl runId, run, hrun, rfl, rfl⟩

/-- The counter of a run is never below the number of its events. -/
def Counted (db : Database) : Prop :=
  ∀ runId run, db.agentRuns.get runId = some run → (runEvents db runId).length ≤ run.eventCount

theorem Change.counted (hdb : Sound db) (hcounted : Counted db)
    (h : Change env principal db db') : Counted db' := by
  have hdb' := h.sound hdb
  cases h with
  | quiet h =>
      intro runId run hrun
      rcases h.run_cases (fun _ => hdb.runEvents_eq_nil) hrun with ⟨hevents, hnil, _, _⟩ | ⟨hevents, old, hold, _, hcount⟩
      · rw [hevents, hnil]
        exact Nat.zero_le _
      · rw [hevents, hcount]
        exact hcounted runId old hold
  | @append m events run s lastHash answers hrun hown hanswers hs =>
      intro runId run' hrun'
      rw [runEvents_append hdb hs hdb' rfl]
      dsimp only at hrun'
      rw [SortedMap.get_put] at hrun'
      split_ifs at hrun' ⊢ with hid
      · have hle := hanswers.length_flushed_le
        have hlen := hanswers.length
        have hold := hcounted run.runId run hrun
        rw [← Option.some.inj hrun', hid]
        simp only [AppendSession.finalRun, List.length_append, List.length_nil] at hle ⊢
        omega
      · exact hcounted runId run' hrun'

/-- Opening a run and setting its other columns keep every run lawful. -/
theorem Quiet.runInvariant
    (hempty : ∀ runId, db.agentRuns.get runId = none → runEvents db runId = [])
    (hinv : RunInvariant db)
    (h : Quiet principal db db') : RunInvariant db' := by
  intro runId run hrun
  rcases h.run_cases hempty hrun with ⟨hevents, hnil, hhash, hcount⟩ | ⟨hevents, old, hold, hhash, hcount⟩
  · exact ⟨by simp [hevents, hnil], by simp [hevents, hnil, hhash], by simp [hevents, hnil, hcount]⟩
  · have hlawful := hinv runId old hold
    exact ⟨hevents ▸ hlawful.linked, hevents ▸ hhash.trans hlawful.lastHash,
      hevents ▸ hcount.trans hlawful.count⟩

/-- Rows that continue the chain and are counted keep the run lawful. -/
theorem RunLawful.append {runId : String} {run run' : AgentRun} {rows : List AuditEvent}
    (h : RunLawful db runId run) (hevents : runEvents db' runId = runEvents db runId ++ rows)
    (hlinked : Linked AuditEvent.previousEventHash AuditEvent.eventHash run.lastEventHash rows)
    (hlast : run'.lastEventHash = lastLink AuditEvent.eventHash run.lastEventHash rows)
    (hcount : run'.eventCount = run.eventCount + rows.length) : RunLawful db' runId run' := by
  have hold : lastLink AuditEvent.eventHash none (runEvents db runId) = run.lastEventHash := by
    rw [lastLink_eq_getLast?, Option.or_none, h.lastHash]
  refine ⟨?_, ?_, ?_⟩
  · rw [hevents, linked_append, hold]
    exact ⟨h.linked, hlinked⟩
  · calc
      run'.lastEventHash = lastLink AuditEvent.eventHash none (runEvents db runId ++ rows) := by
        rw [hlast, lastLink_append, hold]
      _ = (runEvents db' runId).getLast?.map AuditEvent.eventHash := by
        rw [hevents, lastLink_eq_getLast?, Option.or_none]
  · rw [hcount, hevents, List.length_append, h.count]

/-- A fresh batch continues the chain of its run, and counts as many events as it stores. -/
theorem RunInvariant.append {m : Moment} {events : List EventInput} {run : AgentRun}
    {s : AppendSession} {lastHash : Option String} {answers : List AuditEvent} (hdb : Sound db)
    (hinv : RunInvariant db) (hrun : db.agentRuns.get run.runId = some run)
    (hown : run.BelongsTo principal)
    (hanswers : AppendRun env m db principal 0 events { loaded := run, run := run }
      run.lastEventHash s lastHash answers) (hs : SessionInv db principal run s)
    (hfresh : FreshBatch m db.auditEvents events) :
    RunInvariant { db with
      agentRuns := db.agentRuns.put run.runId (s.finalRun run lastHash answers.length)
      auditEvents := db.auditEvents ++ s.flushed } := by
  have hdb' := (Change.append hrun hown hanswers hs).sound hdb
  have hstored := hanswers.stored_of_fresh [] (by simp) hfresh
  -- every answer of a fresh batch is a new row
  have hflushed : s.flushed = answers := by simpa using hstored.1
  intro runId run' hrun'
  have hevents := runEvents_append hdb hs hdb' rfl runId
  rw [SortedMap.get_put] at hrun'
  split_ifs at hrun' hevents with hid
  · rw [hid] at hevents
    rw [← Option.some.inj hrun', hid]
    refine (hinv run.runId run hrun).append hevents ?_ ?_ ?_
    · rw [hflushed]
      exact hstored.2.1
    · rw [hflushed]
      exact hstored.2.2
    · rw [hflushed]
      rfl
  · have hold := hinv runId run' hrun'
    exact ⟨hevents ▸ hold.linked, hevents ▸ hold.lastHash, hevents ▸ hold.count⟩

end Changes

/-! ## Runs of requests -/

section Runs

variable {env : Env}

/-- Along the changes of a request the database stays sound and counted. -/
theorem counted_of_changes {principal : Principal} {db db' : Database} (hdb : Sound db)
    (hcounted : Counted db) (h : Relation.ReflTransGen (Change env principal) db db') :
    Counted db' := by
  induction h with
  | refl => exact hcounted
  | tail hchanges hchange ih => exact hchange.counted (sound_of_changes hdb hchanges) ih

theorem counted_runRequests (env : Env) (requests : List Request) :
    Counted (runRequests env {} requests) := by
  induction requests using List.reverseRecOn with
  | nil =>
      intro runId run hrun
      simp at hrun
  | append_singleton requests r ih =>
      rw [runRequests_concat]
      have hdb := sound_runRequests env requests
      exact counted_of_changes hdb ih (r.run_changes hdb)

theorem freshRun_append {db : Database} {requests requests' : List Request} :
    FreshRun env db (requests ++ requests') ↔
      FreshRun env db requests ∧ FreshRun env (runRequests env db requests) requests' := by
  induction requests generalizing db with
  | nil => simp [FreshRun]
  | cons r rest ih => simp [FreshRun, ih, runRequests, and_assoc]

/-- Step lemma: a fresh request of the lifecycle keeps every run lawful. -/
theorem Request.runInvariant {db : Database} {r : Request} (hdb : Sound db)
    (hinv : RunInvariant db) (hlife : r.IsLifecycle) (hfresh : r.Fresh db) :
    RunInvariant (r.run env db) := by
  rcases r with ⟨m, principal, call⟩
  cases call with
  | startRun runId agentId agentVersion environment metadata =>
      simp only [Request.run, Request.perform]
      cases hout : Collector.startRun env m db principal runId agentId agentVersion environment
          metadata with
      | error e => exact hinv
      | ok out =>
          rcases (runStarted_of_ok hout).change with hsame | hquiet
          · simpa [Except.map, hsame] using hinv
          · exact hquiet.runInvariant (fun _ => hdb.runEvents_eq_nil) hinv
  | appendEvents runId events =>
      simp only [Request.run, Request.perform]
      cases hout : Collector.appendEvents env m db principal runId events with
      | error e => exact hinv
      | ok out =>
          rcases out with ⟨db', ids⟩
          have happended := appended_of_ok hout
          simp only [Except.map]
          cases happended with
          | empty => exact hinv
          | @batch _ run s lastHash answers hrun horg hproject hne hanswers =>
              -- the run stands under its own id
              obtain rfl := hdb.runKey hrun
              have hs := hanswers.sessionInv hdb hrun (sessionInv_load hdb principal run)
              rw [hs.commit_eq hrun]
              exact hinv.append hdb hrun ⟨horg, hproject⟩ hanswers hs hfresh
  | commitRun runId =>
      simp only [Request.run, Request.perform]
      cases hout : Collector.commitRun env m db principal runId with
      | error e => exact hinv
      | ok out =>
          have hchange := (runEnded_of_commitRun hout).change
          exact hchange.runInvariant (fun _ => hdb.runEvents_eq_nil) hinv
  | rollbackRun runId reason =>
      simp only [Request.run, Request.perform]
      cases hout : Collector.rollbackRun env m db principal runId reason with
      | error e => exact hinv
      | ok out =>
          have hchange := (runEnded_of_rollbackRun hout).change
          exact hchange.runInvariant (fun _ => hdb.runEvents_eq_nil) hinv
  | _ => exact hlife.elim

/-- Run lemma. -/
theorem runInvariant_runRequests {requests : List Request}
    (hlife : ∀ r ∈ requests, r.IsLifecycle) (hfresh : FreshRun env {} requests) :
    RunInvariant (runRequests env {} requests) := by
  induction requests using List.reverseRecOn with
  | nil =>
      intro runId run hrun
      simp at hrun
  | append_singleton requests r ih =>
      rcases freshRun_append.1 hfresh with ⟨hbefore, hlast, _⟩
      rw [runRequests_concat]
      exact Request.runInvariant (sound_runRequests env requests)
        (ih (fun r' hr' => hlife r' (List.mem_append_left _ hr')) hbefore)
        (hlife r (List.mem_append_right _ (List.mem_singleton_self r))) hlast

/-- A batch that returns with a repeated event counts it and stores no row for it. -/
theorem not_runInvariant_of_repeat {db db' : Database} {m : Moment} {principal : Principal}
    {runId : String} {events : List EventInput} {ids : List String} (hdb : Sound db)
    (hcounted : Counted db)
    (hout : appendEvents env m db principal runId events = .ok (db', ids))
    (hrepeat : ¬ FreshBatch m db.auditEvents events) : ¬ RunInvariant db' := by
  have happended := appended_of_ok hout
  cases happended with
  | empty => exact (hrepeat trivial).elim
  | @batch _ run s lastHash answers hrun horg hproject hne hanswers =>
      obtain rfl := hdb.runKey hrun
      have hs := hanswers.sessionInv hdb hrun (sessionInv_load hdb principal run)
      have hdb' := (Change.append hrun ⟨horg, hproject⟩ hanswers hs).sound hdb
      rw [hs.commit_eq hrun]
      intro hinv
      have hlawful := hinv run.runId _ (SortedMap.get_put_self _ _ _)
      have hcount := hlawful.count
      rw [runEvents_append hdb hs hdb' rfl, if_pos rfl, List.length_append] at hcount
      have hold := hcounted run.runId run hrun
      have hle := hanswers.length_flushed_le
      have hlength := hanswers.length
      -- some answer was not a new row, but all answers were counted
      have hshort : s.flushed.length ≠ events.length := by
        intro heq
        exact hrepeat (hanswers.fresh_of_length [] (by simp) (by simpa using heq))
      simp only [AppendSession.finalRun, List.length_nil] at hcount hle
      omega

/-- In a run of lifecycle requests whose batches repeat nothing, the record and the chain of every
run agree in each state; a batch that returns although it repeats an event breaks this. -/
theorem runInvariant_of_fresh (env : Env) {requests : List Request}
    (hlife : ∀ r ∈ requests, r.IsLifecycle) :
    (FreshRun env {} requests →
        ∀ before, before <+: requests → RunInvariant (runRequests env {} before)) ∧
      ∀ before m principal runId events db' ids,
        appendEvents env m (runRequests env {} before) principal runId events = .ok (db', ids) →
        ¬ FreshBatch m (runRequests env {} before).auditEvents events → ¬ RunInvariant db' := by
  constructor
  · intro hfresh before hbefore
    rcases hbefore with ⟨after, rfl⟩
    exact runInvariant_runRequests (fun r hr => hlife r (List.mem_append_left _ hr))
      (freshRun_append.1 hfresh).1
  · intro before m principal runId events db' ids hout hrepeat
    exact not_runInvariant_of_repeat (sound_runRequests env before) (counted_runRequests env before)
      hout hrepeat

end Runs

open CollectorExample in
/-- A run with two new events in one batch. -/
theorem runInvariant_of_fresh_pair :
    RunInvariant (runRequests env {} [start,
      append [event "evt_a" (some "idem_a"), event "evt_b" (some "idem_b")],
      request (.commitRun "run_1")]) := by
  refine (runInvariant_of_fresh env ?_).1 (by decide +kernel) _ (List.prefix_refl _)
  intro r hr
  simp only [List.mem_cons, List.not_mem_nil, or_false] at hr
  rcases hr with rfl | rfl | rfl <;> trivial

open CollectorExample in
/-- One event submitted twice: the second answer is the stored row, and it is counted again. -/
theorem runInvariant_fails_on_replay :
    ¬ RunInvariant (runRequests env {} [start, append [event "evt_a" (some "idem_a")],
      append [event "evt_a" (some "idem_a")]]) := by
  have hstored : ∃ run, (runRequests env {} [start, append [event "evt_a" (some "idem_a")],
      append [event "evt_a" (some "idem_a")]]).agentRuns.get "run_1" = some run ∧
      run.eventCount = 2 := by
    refine ⟨_, Option.eq_some_of_isSome (by decide +kernel), ?_⟩
    decide +kernel
  have hlength : (runEvents (runRequests env {} [start, append [event "evt_a" (some "idem_a")],
      append [event "evt_a" (some "idem_a")]]) "run_1").length = 1 := by decide +kernel
  intro hinv
  rcases hstored with ⟨run, hrun, hcount⟩
  have hlawful := hinv "run_1" run hrun
  rw [hlawful.count, hlength] at hcount
  cases hcount

end Collector
end ControlDB
