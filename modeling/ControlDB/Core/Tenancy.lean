import ControlDB.Core.Idempotency

/-!
# Tenant isolation of the event store

Which tenant the records returned by a call belong to.  The lookups go by caller-chosen ids and by
prefixes of keys that join such ids with `:`; each of them stays inside the caller's tenant as long
as no stored record of somebody else answers to the same id, key or prefix.
-/

namespace ControlDB

open Library

/-! ## Calls that return records -/

inductive Request
  | startRun (run : AgentRun)
  | appendEvents (runId orgId projectId : Bytes) (events : List AuditEvent)
  | timeline (runId orgId projectId : Bytes) (limit : Int) (cursor : Option Nat)
  | query (filter : QueryFilter)
  | listRuns (orgId projectId : Bytes) (limit : Int)
  | upsertApproval (approval : Approval)

def AgentRun.BelongsTo (r : AgentRun) (orgId projectId : Bytes) : Prop :=
  r.orgId = orgId ∧ r.projectId = projectId

def AuditEvent.BelongsTo (e : AuditEvent) (orgId projectId : Bytes) : Prop :=
  e.orgId = orgId ∧ e.projectId = projectId

def Approval.BelongsTo (a : Approval) (orgId projectId : Bytes) : Prop :=
  a.orgId = orgId ∧ a.projectId = projectId

/-- What a call returns belongs to the organisation and project it is made for; the id and hash
in the reply to a duplicate are those of such an event, and a timeline is of its run. -/
def Request.Isolated (env : Env) (now : Nat → Int) (s : Store) : Request → Prop
  | startRun run =>
      ∀ r, (ControlDB.startRun env now s run).result = .ok r → r.BelongsTo run.orgId run.projectId
  | appendEvents runId orgId projectId events =>
      ∀ results, (ControlDB.appendEvents env now s runId orgId projectId events).result =
          .ok results →
        ∀ res ∈ results, res.wasDuplicate = true → ∃ e ∈ storedEvents s.rocks,
          e.BelongsTo orgId projectId ∧ e.eventId = res.eventId ∧ e.eventHash = res.eventHash
  | timeline runId orgId projectId limit cursor =>
      ∀ tl, ControlDB.timeline s runId orgId projectId limit cursor = .ok tl →
        tl.run.BelongsTo orgId projectId ∧
          ∀ e ∈ tl.events, e.BelongsTo orgId projectId ∧ e.runId = runId
  | query filter =>
      ∀ q, ControlDB.query s filter = .ok q →
        ∀ e ∈ q.events, e.BelongsTo filter.orgId filter.projectId
  | listRuns orgId projectId limit =>
      ∀ rs, ControlDB.listRuns s orgId projectId limit = .ok rs →
        ∀ r ∈ rs, r.BelongsTo orgId projectId
  | upsertApproval approval =>
      ∀ a, (ControlDB.upsertApproval env now s approval).result = .ok a →
        a.BelongsTo approval.orgId approval.projectId

/-! ## When nobody else's record gets in the way -/

/-- No stored event has a run id that continues `runId` after a `:`. -/
def TimelineClear (db : Rocks) (runId : Bytes) : Prop :=
  ∀ e ∈ storedEvents db, ¬ (runId ++ bytes ":") <+: e.runId

/-- Every stored event whose type index key starts with the prefix of a requested type is an event
of this tenant and type. -/
def TypesClear (db : Rocks) (filter : QueryFilter) : Prop :=
  ∀ et ∈ filter.eventTypes, ∀ e ∈ storedEvents db, typePrefix filter et <+: evByTypeKey e →
    e.BelongsTo filter.orgId filter.projectId ∧ e.eventType = et

/-- Every event stored under a key of the batch is of this tenant, and no stored key is a key of
the batch followed by `:hash`, or the other way round. -/
def KeysClear (db : Rocks) (orgId projectId : Bytes) (events : List AuditEvent) : Prop :=
  ∀ ev ∈ events, ∀ e ∈ storedEvents db, ev.idempotencyKey ≠ [] → e.idempotencyKey ≠ [] →
    (e.idempotencyKey = ev.idempotencyKey → e.BelongsTo orgId projectId) ∧
      hashKey e.idempotencyKey ≠ ev.idempotencyKey ∧ e.idempotencyKey ≠ hashKey ev.idempotencyKey

/-- The sequence numbers still fit their eight bytes. -/
def SeqFits (db : Rocks) : Prop :=
  db.globalSeq.getD 0 < 2 ^ 64

/-- The condition on the database under which a call is isolated. -/
def Request.Clear (db : Rocks) : Request → Prop
  | startRun run => ∀ r, storedRun db run.runId = some r → r.BelongsTo run.orgId run.projectId
  | appendEvents _ orgId projectId events => KeysClear db orgId projectId events
  | timeline runId _ _ _ _ => SeqFits db ∧ TimelineClear db runId
  | query filter =>
      SeqFits db ∧ TypesClear db filter ∧
        (filter.eventTypes = [] → ∀ runId, filter.runId = some runId → TimelineClear db runId)
  | listRuns orgId projectId _ =>
      ∀ runId r, storedRun db runId = some r →
        (orgId ++ bytes ":" ++ projectId ++ bytes ":") <+: runsByOrgKey r →
          r.BelongsTo orgId projectId
  | upsertApproval approval =>
      ∀ a, storedApproval db approval.approvalId = some a →
        a.BelongsTo approval.orgId approval.projectId

section Isolation

variable {env : Env} {now : Nat → Int} {s : Store}

/-! ## Lookups by id -/

theorem logThenWrite_result {α : Type} {opType : WalOpType} {doc : Json} {batch : List Put}
    {r r' : α} (h : (logThenWrite env s opType doc batch r).result = .ok r') : r = r' := by
  unfold logThenWrite at h
  cases hdump : env.dump doc with
  | none => simp [hdump, Outcome.throw] at h
  | some text => simpa [hdump] using h

theorem startRun_isolated (hs : Consistent s) {run : AgentRun}
    (h : (Request.startRun run).Clear s.rocks) : (Request.startRun run).Isolated env now s := by
  intro r hr
  unfold startRun at hr
  cases hget : s.rocks.runs.get run.runId with
  | some doc =>
      rcases hs.represents.get_runs hget with ⟨r', hdecode, hstored, hid⟩
      have hsame : r' = r := by simpa [hget, hdecode] using hr
      exact h r (hsame ▸ hstored)
  | none =>
      simp only [hget] at hr
      rw [← logThenWrite_result hr]
      exact ⟨rfl, rfl⟩

theorem upsertApproval_isolated (hs : Consistent s) {approval : Approval}
    (h : (Request.upsertApproval approval).Clear s.rocks) :
    (Request.upsertApproval approval).Isolated env now s := by
  intro a ha
  unfold upsertApproval at ha
  cases hget : s.rocks.approvals.get approval.approvalId with
  | some doc =>
      rcases hs.represents.get_approvals hget with ⟨a', hdecode, hstored, hid⟩
      have hsame : a' = a := by simpa [hget, hdecode] using ha
      exact h a (hsame ▸ hstored)
  | none =>
      simp only [hget] at ha
      rw [← logThenWrite_result ha]
      exact ⟨rfl, rfl⟩

/-- The reply to a duplicate is read from the records of its key. -/
theorem appendEvents_isolated (hs : Consistent s) {runId orgId projectId : Bytes}
    {events : List AuditEvent} (h : KeysClear s.rocks orgId projectId events) :
    (Request.appendEvents runId orgId projectId events).Isolated env now s := by
  intro results hok res hres hdup
  rcases appendReturned_of_ok hok with ⟨run, r, hreturned, rfl⟩
  have hforall : List.Forall₂ (ReplyOf s.rocks) events
      (replies s.rocks events (s.accepted env now run runId orgId projectId events)) :=
    replies_replyOf 0 events s.globalSeq run.lastEventHash
  rcases List.getElem_of_mem hres with ⟨i, hi, hget⟩
  have hi' : i < events.length := hforall.length_eq ▸ hi
  have hev : events[i] ∈ events := List.getElem_mem hi'
  have hreply : ReplyOf s.rocks events[i] res :=
    forall₂_getElem hforall (List.getElem?_eq_getElem hi') (by simp [List.getElem?_eq_getElem hi, hget])
  by_cases hcheck : isDuplicate s.rocks events[i]
  · have hr : res = duplicateResult s.rocks events[i] := by simpa [ReplyOf, hcheck] using hreply
    have hreplay : s.rocks.idempotency = replay (storedEvents s.rocks) := hs.represents.idempotency
    have hapart : ∀ e ∈ storedEvents s.rocks, e.idempotencyKey ≠ [] →
        hashKey e.idempotencyKey ≠ events[i].idempotencyKey ∧
          e.idempotencyKey ≠ hashKey events[i].idempotencyKey :=
      fun e he hne => (h _ hev e he hcheck.1 hne).2
    -- the records under the key are those of one stored event
    rcases replay_get hcheck.1 hapart with ⟨e, he, hk, hid, hhash⟩ | ⟨_, hid, _⟩
    · have hown := (h _ hev e he hcheck.1 (hk ▸ hcheck.1)).1 hk
      refine ⟨e, he, hown, ?_, ?_⟩
      · simp [hr, duplicateResult, Rocks.getIdempotency, hreplay, hid]
      · simp [hr, duplicateResult, Rocks.getIdempotency, hreplay, hhash]
    -- there is no record, but the loop has found one
    · have hread := hcheck.2
      simp [Rocks.getIdempotency, hreplay, hid] at hread
  · have hnew : res.wasDuplicate = false := by simpa [ReplyOf, hcheck] using hreply
    simp [hnew] at hdup

/-! ## Scans -/

/-- A scanned prefix is a prefix of the key. -/
theorem isPrefix_of_take {p k : Bytes} (h : k.take p.length = p) : p <+: k :=
  h ▸ List.take_prefix _ _

/-- If the run part of an index key does not continue `runId` after a `:`, then a key with the
prefix of `runId` and eight more bytes is a key of `runId`. -/
theorem runId_of_prefix {runId rid seq : Bytes} (hseq : seq.length = 8)
    (hstart : (runId ++ bytes ":") <+: rid ++ bytes ":" ++ seq)
    (hlen : (runId ++ bytes ":").length + 8 ≤ (rid ++ bytes ":" ++ seq).length)
    (hclear : ¬ (runId ++ bytes ":") <+: rid) : rid = runId := by
  have hone : (bytes ":").length = 1 := rfl
  simp only [List.length_append, hseq, hone] at hlen
  have hrid : rid <+: rid ++ bytes ":" ++ seq := by
    rw [List.append_assoc]
    exact List.prefix_append _ _
  have hrunId : runId <+: rid ++ bytes ":" ++ seq := (List.prefix_append _ _).trans hstart
  -- a longer id would continue the scanned prefix itself
  have hshort : rid.length ≤ runId.length := by
    by_contra hlong
    refine hclear (List.prefix_of_prefix_length_le hstart hrid ?_)
    simp only [List.length_append, hone]
    omega
  have hpre : rid <+: runId := List.prefix_of_prefix_length_le hrid hrunId hshort
  exact hpre.eq_of_length (by omega)

/-- What holds of every event a scanned key leads to holds of the events of the scan. -/
theorem timelineLoop_mem {db : Rocks} {scanPrefix : Bytes} {limit : Int} {P : AuditEvent → Prop}
    {entries : List (Bytes × Unit)} {events result : List AuditEvent} {lastSeq lastSeq' : Nat}
    {valid : Bool}
    (hfound : ∀ entry ∈ entries, scanPrefix <+: entry.1 → scanPrefix.length + 8 ≤ entry.1.length →
      ∀ doc ev, db.events.get (keyToSeq (entry.1.drop scanPrefix.length)) = some doc →
        jsonToEvent doc = .ok ev → P ev)
    (hevents : ∀ e ∈ events, P e)
    (h : timelineLoop db scanPrefix limit entries events lastSeq = .ok (result, lastSeq', valid)) :
    ∀ e ∈ result, P e := by
  induction entries generalizing events lastSeq with
  | nil =>
      cases h
      exact hevents
  | cons entry rest ih =>
      rcases entry with ⟨k, u⟩
      have hrest := fun entry he => hfound entry (List.mem_cons_of_mem _ he)
      unfold timelineLoop at h
      -- the three ways out of the loop return what was found so far
      by_cases hlimit : ¬ (events.length : Int) < limit
      · rw [if_pos hlimit] at h
        cases h
        exact hevents
      by_cases htake : k.take scanPrefix.length ≠ scanPrefix
      · rw [if_neg hlimit, if_pos htake] at h
        cases h
        exact hevents
      by_cases hlen : k.length < scanPrefix.length + 8
      · rw [if_neg hlimit, if_neg htake, if_pos hlen] at h
        cases h
        exact hevents
      rw [if_neg hlimit, if_neg htake, if_neg hlen] at h
      cases hget : db.events.get (keyToSeq (k.drop scanPrefix.length)) with
      | none => exact ih hrest hevents (by simpa [hget] using h)
      | some doc =>
          cases hdecode : jsonToEvent doc with
          | error e => simp [hget, hdecode, Bind.bind, Except.bind] at h
          | ok ev =>
              have hstep : timelineLoop db scanPrefix limit rest (events ++ [ev])
                  (keyToSeq (k.drop scanPrefix.length)) = .ok (result, lastSeq', valid) := by
                simpa [hget, hdecode, Bind.bind, Except.bind] using h
              refine ih hrest ?_ hstep
              intro e he
              rcases List.mem_append.1 he with hold | hnew
              · exact hevents e hold
              · rw [List.mem_singleton.1 hnew]
                exact hfound (k, u) List.mem_cons_self (isPrefix_of_take (not_not.1 htake))
                  (not_lt.1 hlen) doc ev hget hdecode

/-- The same for the scan of `query`, which does not look at the length of the key. -/
theorem queryLoop_mem {db : Rocks} {filter : QueryFilter} {scanPrefix : Bytes}
    {P : AuditEvent → Prop} {entries : List (Bytes × Unit)} {events result : List AuditEvent}
    {lastSeq lastSeq' : Nat}
    (hfound : ∀ entry ∈ entries, scanPrefix <+: entry.1 →
      ∀ doc ev, db.events.get (keyToSeq (entry.1.drop scanPrefix.length)) = some doc →
        jsonToEvent doc = .ok ev → P ev)
    (hevents : ∀ e ∈ events, P e)
    (h : queryLoop db filter scanPrefix entries events lastSeq = .ok (result, lastSeq')) :
    ∀ e ∈ result, P e := by
  induction entries generalizing events lastSeq with
  | nil =>
      cases h
      exact hevents
  | cons entry rest ih =>
      rcases entry with ⟨k, u⟩
      have hrest := fun entry he => hfound entry (List.mem_cons_of_mem _ he)
      unfold queryLoop at h
      by_cases hlimit : ¬ (events.length : Int) < filter.limit
      · rw [if_pos hlimit] at h
        cases h
        exact hevents
      by_cases htake : k.take scanPrefix.length ≠ scanPrefix
      · rw [if_neg hlimit, if_pos htake] at h
        cases h
        exact hevents
      rw [if_neg hlimit, if_neg htake] at h
      cases hget : db.events.get (keyToSeq (k.drop scanPrefix.length)) with
      | none => exact ih hrest hevents (by simpa [hget] using h)
      | some doc =>
          cases hdecode : jsonToEvent doc with
          | error e => simp [hget, hdecode, Bind.bind, Except.bind] at h
          | ok ev =>
              have hstep :
                  (if filter.runId.any fun runId => decide (ev.runId ≠ runId) then
                    queryLoop db filter scanPrefix rest events lastSeq
                  else queryLoop db filter scanPrefix rest (events ++ [ev])
                    (keyToSeq (k.drop scanPrefix.length))) = .ok (result, lastSeq') := by
                simpa only [hget, hdecode, Bind.bind, Except.bind] using h
              -- the event of another run is skipped, one of the wanted run is taken
              by_cases hskip : (filter.runId.any fun runId => decide (ev.runId ≠ runId)) = true
              · rw [if_pos hskip] at hstep
                exact ih hrest hevents hstep
              · rw [if_neg hskip] at hstep
                refine ih hrest ?_ hstep
                intro e he
                rcases List.mem_append.1 he with hold | hnew
                · exact hevents e hold
                · rw [List.mem_singleton.1 hnew]
                  exact hfound (k, u) List.mem_cons_self (isPrefix_of_take (not_not.1 htake))
                    doc ev hget hdecode

theorem queryTypes_mem {db : Rocks} {filter : QueryFilter} {P : AuditEvent → Prop}
    {types : List Bytes} {events result : List AuditEvent} {lastSeq lastSeq' : Nat}
    (hfound : ∀ et ∈ types, ∀ entry ∈ db.evByType.entries, typePrefix filter et <+: entry.1 →
      ∀ doc ev, db.events.get (keyToSeq (entry.1.drop (typePrefix filter et).length)) = some doc →
        jsonToEvent doc = .ok ev → P ev)
    (hevents : ∀ e ∈ events, P e)
    (h : queryTypes db filter types events lastSeq = .ok (result, lastSeq')) :
    ∀ e ∈ result, P e := by
  induction types generalizing events lastSeq with
  | nil =>
      cases h
      exact hevents
  | cons et rest ih =>
      unfold queryTypes at h
      cases hloop : queryLoop db filter (typePrefix filter et)
          (db.evByType.seek (seekKey (typePrefix filter et) filter.cursor)) events lastSeq with
      | error e => simp [hloop, Bind.bind, Except.bind] at h
      | ok found =>
          rcases found with ⟨events', lastSeq''⟩
          have hevents' : ∀ e ∈ events', P e :=
            queryLoop_mem (fun entry he =>
              hfound et List.mem_cons_self entry (SortedMap.mem_of_mem_seek he)) hevents hloop
          -- the limit is looked at after each type
          by_cases hlimit : (events'.length : Int) ≥ filter.limit
          · have hdone : events' = result ∧ lastSeq'' = lastSeq' := by
              simpa [hloop, Bind.bind, Except.bind, hlimit, pure, Except.pure] using h
            exact hdone.1 ▸ hevents'
          · have hstep : queryTypes db filter rest events' lastSeq'' = .ok (result, lastSeq') := by
              simpa [hloop, Bind.bind, Except.bind, hlimit] using h
            exact ih (fun et' het => hfound et' (List.mem_cons_of_mem _ het)) hevents' hstep

theorem listRunsLoop_mem {db : Rocks} {scanPrefix : Bytes} {limit : Int} {P : AgentRun → Prop}
    {entries : List (Bytes × Bytes)} {runs result : List AgentRun}
    (hfound : ∀ entry ∈ entries, scanPrefix <+: entry.1 →
      ∀ doc r, db.runs.get entry.2 = some doc → jsonToRun doc = .ok r → P r)
    (hruns : ∀ r ∈ runs, P r)
    (h : listRunsLoop db scanPrefix limit entries runs = .ok result) : ∀ r ∈ result, P r := by
  induction entries generalizing runs with
  | nil =>
      cases h
      exact hruns
  | cons entry rest ih =>
      rcases entry with ⟨k, runId⟩
      have hrest := fun entry he => hfound entry (List.mem_cons_of_mem _ he)
      unfold listRunsLoop at h
      by_cases hlimit : ¬ (runs.length : Int) < limit
      · rw [if_pos hlimit] at h
        cases h
        exact hruns
      -- a key outside the prefix is skipped, not the end of the loop
      by_cases htake : k.take scanPrefix.length ≠ scanPrefix
      · rw [if_neg hlimit, if_pos htake] at h
        exact ih hrest hruns h
      rw [if_neg hlimit, if_neg htake] at h
      cases hget : db.runs.get runId with
      | none => exact ih hrest hruns (by simpa [hget] using h)
      | some doc =>
          cases hdecode : jsonToRun doc with
          | error e => simp [hget, hdecode, Bind.bind, Except.bind] at h
          | ok run =>
              have hstep : listRunsLoop db scanPrefix limit rest (runs ++ [run]) = .ok result := by
                simpa [hget, hdecode, Bind.bind, Except.bind] using h
              refine ih hrest ?_ hstep
              intro r hr
              rcases List.mem_append.1 hr with hold | hnew
              · exact hruns r hold
              · rw [List.mem_singleton.1 hnew]
                exact hfound (k, runId) List.mem_cons_self (isPrefix_of_take (not_not.1 htake))
                  doc run hget hdecode

/-! ## Isolation of the scans -/

/-- The number in an index key leads back to the event of the key. -/
theorem Represents.get_of_seqKey {db : Rocks} (hdb : Represents db) (hfits : SeqFits db)
    {e ev : AuditEvent} {doc : Json} (he : e ∈ storedEvents db)
    (hget : db.events.get (keyToSeq (seqToKey e.sequence)) = some doc)
    (hdecode : jsonToEvent doc = .ok ev) : ev = e := by
  have hlt : e.sequence < 2 ^ 64 := lt_of_le_of_lt (hdb.seqBound e he) hfits
  rw [keyToSeq_seqToKey hlt, hdb.mem_storedEvents.1 he] at hget
  cases hget
  simpa using hdecode.symm

theorem timeline_isolated (hs : Consistent s) {runId orgId projectId : Bytes} {limit : Int}
    {cursor : Option Nat} (hfits : SeqFits s.rocks) (hclear : TimelineClear s.rocks runId) :
    (Request.timeline runId orgId projectId limit cursor).Isolated env now s := by
  intro tl htl
  unfold timeline at htl
  cases hfetch : fetchRun s.rocks runId orgId projectId with
  | error e => simp [hfetch, Bind.bind, Except.bind] at htl
  | ok run =>
      rcases fetchRun_spec hs.represents hfetch with ⟨hstored, hid, horg, hproject⟩
      by_cases hlimit : limit < 0
      · simp [hfetch, Bind.bind, Except.bind, hlimit] at htl
      cases hloop : timelineLoop s.rocks (runId ++ bytes ":") limit
          (s.rocks.evByRun.seek (seekKey (runId ++ bytes ":") cursor)) [] 0 with
      | error e => simp [hfetch, Bind.bind, Except.bind, hlimit, hloop] at htl
      | ok found =>
          rcases found with ⟨events, lastSeq, valid⟩
          have hresult : tl.run = run ∧ tl.events = events := by
            simp [hfetch, Bind.bind, Except.bind, hlimit, hloop, pure, Except.pure] at htl
            exact ⟨by rw [← htl], by rw [← htl]⟩
          rw [hresult.1, hresult.2]
          refine ⟨⟨horg, hproject⟩, timelineLoop_mem ?_ (by simp) hloop⟩
          rintro ⟨key, u⟩ hentry hstart hlen doc ev hget hdecode
          rcases hs.represents.byRun (SortedMap.get_eq_some_iff.2 (SortedMap.mem_of_mem_seek hentry))
            with ⟨e, he, rfl⟩
          -- the key was found by the prefix, so its event is of the run
          have hrun : e.runId = runId :=
            runId_of_prefix (length_seqToKey _) hstart hlen (hclear e he)
          have hdrop : (evByRunKey e).drop (runId ++ bytes ":").length = seqToKey e.sequence := by
            rw [evByRunKey, hrun]
            exact List.drop_left
          have hsame : ev = e := hs.represents.get_of_seqKey hfits he (hdrop ▸ hget) hdecode
          rcases hs.represents.eventRun e he with ⟨r, hr, hrorg, hrproject⟩
          -- and has the tenant of the run
          rw [hrun, hstored] at hr
          cases hr
          subst hsame
          exact ⟨⟨hrorg.symm.trans horg, hrproject.symm.trans hproject⟩, hrun⟩

/-- With types, or without a run id, `query` scans the type index. -/
theorem query_eq_scan {filter : QueryFilter} (hlimit : ¬ filter.limit < 0)
    (hscan : ¬ (filter.eventTypes = [] ∧ ∃ runId, filter.runId = some runId)) :
    query s filter = do
      let (events, lastSeq) ← queryTypes s.rocks filter filter.eventTypes [] 0
      return {
        events := sortBySequence events
        nextCursor := if (events.length : Int) = filter.limit then some lastSeq else none } := by
  unfold query
  rw [if_neg hlimit]
  split
  · rename_i runId hnil hsome
    exact (hscan ⟨hnil, runId, hsome⟩).elim
  · rfl

theorem query_isolated (hs : Consistent s) {filter : QueryFilter}
    (h : (Request.query filter).Clear s.rocks) : (Request.query filter).Isolated env now s := by
  rcases h with ⟨hfits, htypes, hrunId⟩
  intro q hq
  by_cases hlimit : filter.limit < 0
  · simp [query, hlimit] at hq
  by_cases honly : filter.eventTypes = [] ∧ ∃ runId, filter.runId = some runId
  · -- without types the timeline of the run is returned
    rcases honly with ⟨hnil, runId, hsome⟩
    have hisolated : (Request.timeline runId filter.orgId filter.projectId filter.limit
        filter.cursor).Isolated env now s :=
      timeline_isolated hs hfits (hrunId hnil runId hsome)
    cases htl : timeline s runId filter.orgId filter.projectId filter.limit filter.cursor with
    | error e => simp [query, hlimit, hnil, hsome, htl, Bind.bind, Except.bind] at hq
    | ok tl =>
        have hevents : q.events = tl.events := by
          simp [query, hlimit, hnil, hsome, htl, Bind.bind, Except.bind, pure, Except.pure] at hq
          rw [← hq]
        rw [hevents]
        exact fun e he => ((hisolated tl htl).2 e he).1
  · rw [query_eq_scan hlimit honly] at hq
    cases hloop : queryTypes s.rocks filter filter.eventTypes [] 0 with
    | error e => simp [hloop, Bind.bind, Except.bind] at hq
    | ok found =>
        rcases found with ⟨events, lastSeq⟩
        have hevents : q.events = sortBySequence events := by
          simp [hloop, Bind.bind, Except.bind, pure, Except.pure] at hq
          rw [← hq]
        have hmem := queryTypes_mem (P := fun e => e.BelongsTo filter.orgId filter.projectId) ?_
          (by simp) hloop
        · rw [hevents]
          intro e he
          exact hmem e ((List.perm_insertionSort _ _).mem_iff.1 he)
        · rintro et het ⟨key, u⟩ hentry hstart doc ev hget hdecode
          rcases hs.represents.byType (SortedMap.get_eq_some_iff.2 hentry) with ⟨e, he, rfl⟩
          rcases htypes et het e he hstart with ⟨hown, htype⟩
          -- behind the prefix the key has the sequence number only
          have hdrop : (evByTypeKey e).drop (typePrefix filter et).length = seqToKey e.sequence := by
            rw [evByTypeKey, hown.1, hown.2, htype]
            exact List.drop_left
          have hsame : ev = e := hs.represents.get_of_seqKey hfits he (hdrop ▸ hget) hdecode
          exact hsame ▸ hown

theorem listRuns_isolated (hs : Consistent s) {orgId projectId : Bytes} {limit : Int}
    (h : (Request.listRuns orgId projectId limit).Clear s.rocks) :
    (Request.listRuns orgId projectId limit).Isolated env now s := by
  intro rs hrs
  refine listRunsLoop_mem ?_ (by simp) hrs
  rintro ⟨key, runId⟩ hentry hstart doc r hget hdecode
  rcases hs.represents.get_runs hget with ⟨r', hdecode', hstored, hid⟩
  have hsame : r' = r := Except.ok.inj (hdecode'.symm.trans hdecode)
  subst hsame
  rcases hs.represents.runIndex (SortedMap.get_eq_some_iff.2 (List.mem_reverse.1 hentry)) with
    ⟨r, hr, rfl⟩
  rw [hstored] at hr
  cases hr
  exact h runId _ hstored hstart

end Isolation

/-! ## Every reachable store -/

namespace TenancyExample

open IdempotencyExample

/-- A run of an organisation whose id has a `:` in it. -/
def colonRun : AgentRun :=
  { runId := bytes "run_002", orgId := bytes "acme:eu", projectId := bytes "proj",
    status := bytes "running", startedAtMs := 1714521600000 }

def shared : List Action :=
  actions [[event]] ++ [.call clock (.startRun colonRun)]

/-- The request of another organisation to start a run with an id that is taken. -/
def otherRun : AgentRun :=
  { IdempotencyExample.run with orgId := bytes "org_other" }

def storedByTest : AgentRun :=
  { IdempotencyExample.run with
    eventCount := 1
    lastEventHash :=
      bytes "sha256:3347619a89f360a3569da8373d828882415bc5e0c45e16f034f0e75ca3279451" }

end TenancyExample

end ControlDB
