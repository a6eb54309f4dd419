import ControlDB.Core.Commit

/-!
# The representation invariant

`Represents` relates the column families to the records they stand for: every document decodes to
a record with its own key, every index entry belongs to a stored record, the idempotency column is
the replay of the stored events, and no event is numbered above the persisted counter.  Every
action keeps it, in whatever place it is interrupted.
-/

namespace ControlDB

open Library

structure Represents (db : Rocks) : Prop where
  runDoc : ∀ {key doc}, db.runs.get key = some doc → ∃ r, doc = runToJson r ∧ r.runId = key
  eventDoc : ∀ {seq doc}, db.events.get seq = some doc →
    ∃ e, doc = eventToJson e ∧ e.sequence = seq
  approvalDoc : ∀ {key doc}, db.approvals.get key = some doc →
    ∃ a, doc = approvalToJson a ∧ a.approvalId = key
  seqBound : ∀ e ∈ storedEvents db, e.sequence ≤ db.globalSeq.getD 0
  eventRun : ∀ e ∈ storedEvents db, ∃ r, storedRun db e.runId = some r ∧
    r.orgId = e.orgId ∧ r.projectId = e.projectId
  runIndex : ∀ {key runId}, db.runsByOrg.get key = some runId →
    ∃ r, storedRun db runId = some r ∧ key = runsByOrgKey r
  byRun : ∀ {key u}, db.evByRun.get key = some u → ∃ e ∈ storedEvents db, key = evByRunKey e
  byType : ∀ {key u}, db.evByType.get key = some u → ∃ e ∈ storedEvents db, key = evByTypeKey e
  idempotency : db.idempotency = (storedEvents db).foldl putIdempotency .empty

/-- The columns represent records, and the counter in memory is not behind the persisted one. -/
structure Consistent (s : Store) : Prop where
  represents : Represents s.rocks
  counter : s.rocks.globalSeq.getD 0 ≤ s.globalSeq

theorem consistent_empty : Consistent {} where
  counter := le_rfl
  represents :=
    { runDoc := by simp
      eventDoc := by simp
      approvalDoc := by simp
      seqBound := by simp [storedEvents]
      eventRun := by simp [storedEvents]
      runIndex := by simp
      byRun := by simp
      byType := by simp
      idempotency := rfl }

theorem SameRun.runsByOrgKey {run r : AgentRun} (h : SameRun run r) :
    runsByOrgKey r = runsByOrgKey run := by
  simp [ControlDB.runsByOrgKey, h.runId, h.orgId, h.projectId, h.startedAtMs]

/-! ## Reading the columns through the records -/

namespace Represents

variable {db : Rocks}

theorem get_events (hdb : Represents db) {seq : Nat} {doc : Json}
    (hget : db.events.get seq = some doc) :
    ∃ e ∈ storedEvents db, jsonToEvent doc = .ok e ∧ e.sequence = seq := by
  rcases hdb.eventDoc hget with ⟨e, rfl, hseq⟩
  refine ⟨e, ?_, jsonToEvent_eventToJson e, hseq⟩
  exact List.mem_filterMap.2 ⟨_, SortedMap.get_eq_some_iff.1 hget, by simp [Except.toOption]⟩

/-- A stored event is read off the entry under its own number. -/
theorem entry_of_decode (hdb : Represents db) {entry : Nat × Json} {e : AuditEvent}
    (hentry : entry ∈ db.events.entries) (hdecode : (jsonToEvent entry.2).toOption = some e) :
    entry = (e.sequence, eventToJson e) := by
  rcases entry with ⟨seq, doc⟩
  rcases hdb.eventDoc (SortedMap.get_eq_some_iff.2 hentry) with ⟨e', rfl, rfl⟩
  have hsame : e' = e := by simpa [Except.toOption] using hdecode
  rw [hsame]

theorem mem_storedEvents (hdb : Represents db) {e : AuditEvent} :
    e ∈ storedEvents db ↔ db.events.get e.sequence = some (eventToJson e) := by
  constructor
  · intro he
    rcases List.mem_filterMap.1 he with ⟨entry, hentry, hdecode⟩
    exact SortedMap.get_eq_some_iff.2 (hdb.entry_of_decode hentry hdecode ▸ hentry)
  · intro hget
    exact List.mem_filterMap.2 ⟨_, SortedMap.get_eq_some_iff.1 hget, by simp [Except.toOption]⟩

/-- The stored events are listed by increasing sequence number. -/
theorem storedEvents_sorted (hdb : Represents db) :
    (storedEvents db).Pairwise fun a b => a.sequence < b.sequence := by
  refine List.pairwise_filterMap.2 ((List.Pairwise.and_mem.1 db.events.sorted).imp ?_)
  rintro entry entry' ⟨hentry, hentry', hlt⟩ e he e' he'
  rw [hdb.entry_of_decode hentry he, hdb.entry_of_decode hentry' he'] at hlt
  exact hlt

theorem get_runs (hdb : Represents db) {runId : Bytes} {doc : Json}
    (hget : db.runs.get runId = some doc) :
    ∃ r, jsonToRun doc = .ok r ∧ storedRun db runId = some r ∧ r.runId = runId := by
  rcases hdb.runDoc hget with ⟨r, rfl, hid⟩
  exact ⟨r, jsonToRun_runToJson r, by simp [storedRun, hget, Except.toOption], hid⟩

theorem storedRun_runId (hdb : Represents db) {runId : Bytes} {r : AgentRun}
    (h : storedRun db runId = some r) : r.runId = runId := by
  rcases Option.bind_eq_some_iff.1 h with ⟨doc, hget, hdecode⟩
  rcases hdb.get_runs hget with ⟨r', hr', hstored, hid⟩
  have hsame : r' = r := Option.some.inj (hstored.symm.trans h)
  exact hsame ▸ hid

theorem get_approvals (hdb : Represents db) {approvalId : Bytes} {doc : Json}
    (hget : db.approvals.get approvalId = some doc) :
    ∃ a, jsonToApproval doc = .ok a ∧ storedApproval db approvalId = some a ∧
      a.approvalId = approvalId := by
  rcases hdb.approvalDoc hget with ⟨a, rfl, hid⟩
  exact ⟨a, jsonToApproval_approvalToJson a, by simp [storedApproval, hget, Except.toOption], hid⟩

/-! ## Preservation -/

theorem storedRun_eq_none {runId : Bytes} (h : db.runs.get runId = none) :
    storedRun db runId = none := by
  simp [storedRun, h]

/-- Writing a run under its own key, over an earlier record of the same run if there is one. -/
structure RunWrite (db db' : Rocks) (r : AgentRun) : Prop where
  runs : db'.runs = db.runs.put r.runId (runToJson r)
  same : ∀ old, storedRun db r.runId = some old → SameRun old r

theorem RunWrite.keeps {db' : Rocks} {r : AgentRun} (h : RunWrite db db' r) {runId : Bytes}
    {old : AgentRun} (hold : storedRun db runId = some old) :
    ∃ new, storedRun db' runId = some new ∧ SameRun old new := by
  rw [storedRun_put db h.runs]
  split_ifs with hid
  · exact ⟨r, rfl, h.same old (hid ▸ hold)⟩
  · exact ⟨old, hold, ⟨rfl, rfl, rfl, rfl⟩⟩

theorem RunWrite.runDoc {db' : Rocks} {r : AgentRun} (hdb : Represents db)
    (h : RunWrite db db' r) {key : Bytes} {doc : Json} (hget : db'.runs.get key = some doc) :
    ∃ r, doc = runToJson r ∧ r.runId = key := by
  rw [h.runs, SortedMap.get_put] at hget
  split_ifs at hget with hkey
  · exact ⟨r, (Option.some.inj hget).symm, hkey.symm⟩
  · exact hdb.runDoc hget

theorem RunWrite.eventRun {db' : Rocks} {r : AgentRun} (hdb : Represents db)
    (h : RunWrite db db' r) {e : AuditEvent} (he : e ∈ storedEvents db) :
    ∃ r, storedRun db' e.runId = some r ∧ r.orgId = e.orgId ∧ r.projectId = e.projectId := by
  rcases hdb.eventRun e he with ⟨old, hold, horg, hproject⟩
  rcases h.keeps hold with ⟨new, hnew, hsame⟩
  exact ⟨new, hnew, hsame.orgId.trans horg, hsame.projectId.trans hproject⟩

theorem RunWrite.runIndex {db' : Rocks} {r : AgentRun} (hdb : Represents db)
    (h : RunWrite db db' r) {key runId : Bytes} (hget : db.runsByOrg.get key = some runId) :
    ∃ r, storedRun db' runId = some r ∧ key = runsByOrgKey r := by
  rcases hdb.runIndex hget with ⟨old, hold, hkey⟩
  rcases h.keeps hold with ⟨new, hnew, hsame⟩
  exact ⟨new, hnew, hkey.trans hsame.runsByOrgKey.symm⟩

/-- A batch that only writes a run. -/
theorem write_run (hdb : Represents db) {r : AgentRun}
    (hsame : ∀ old, storedRun db r.runId = some old → SameRun old r) :
    Represents (db.write [.runs r.runId (runToJson r)]) :=
  have h : RunWrite db (db.write [.runs r.runId (runToJson r)]) r := ⟨rfl, hsame⟩
  { hdb with
    runDoc := h.runDoc hdb
    eventRun := fun _ he => h.eventRun hdb he
    runIndex := h.runIndex hdb }

/-- The batch of a new run, with its index entry. -/
theorem write_newRun (hdb : Represents db) {r : AgentRun} (hnew : storedRun db r.runId = none) :
    Represents (db.write [.runs r.runId (runToJson r), .runsByOrg (runsByOrgKey r) r.runId]) :=
  have h : RunWrite db
      (db.write [.runs r.runId (runToJson r), .runsByOrg (runsByOrgKey r) r.runId]) r :=
    ⟨rfl, fun old hold => by simp [hnew] at hold⟩
  { hdb with
    runDoc := h.runDoc hdb
    eventRun := fun _ he => h.eventRun hdb he
    runIndex := by
      intro key runId hget
      have hput : (db.runsByOrg.put (runsByOrgKey r) r.runId).get key = some runId := hget
      rw [SortedMap.get_put] at hput
      split_ifs at hput with hkey
      · cases hput
        refine ⟨r, ?_, hkey⟩
        rw [storedRun_put db h.runs, if_pos rfl]
      · exact h.runIndex hdb hput }

theorem write_approval (hdb : Represents db) {a : Approval} :
    Represents (db.write [.approvals a.approvalId (approvalToJson a)]) :=
  { hdb with
    approvalDoc := by
      intro key doc hget
      have hput : (db.approvals.put a.approvalId (approvalToJson a)).get key = some doc := hget
      rw [SortedMap.get_put] at hput
      split_ifs at hput with hkey
      · exact ⟨a, (Option.some.inj hput).symm, hkey.symm⟩
      · exact hdb.approvalDoc hput }

theorem write_exports (hdb : Represents db) {exportId : Bytes} {doc doc' : Option Json} :
    Represents (db.write [.exports exportId doc, .exports exportId doc']) :=
  { hdb with }

/-- Events numbered consecutively from `seq + 1`. -/
structure Numbered (seq : Nat) (es : List AuditEvent) : Prop where
  sequence : es.map AuditEvent.sequence = List.range' (seq + 1) es.length

theorem Numbered.sorted {seq : Nat} {es : List AuditEvent} (h : Numbered seq es) :
    es.Pairwise fun a b => a.sequence < b.sequence := by
  have hrange := List.pairwise_lt_range' (s := seq + 1) (n := es.length)
  rw [← h.sequence] at hrange
  exact List.pairwise_map.1 hrange

theorem Numbered.bounds {seq : Nat} {es : List AuditEvent} (h : Numbered seq es) {e : AuditEvent}
    (he : e ∈ es) : seq < e.sequence ∧ e.sequence ≤ seq + es.length := by
  have hmem : e.sequence ∈ List.range' (seq + 1) es.length :=
    h.sequence ▸ List.mem_map_of_mem he
  have hrange := List.mem_range'_1.1 hmem
  omega

/-- The accepted events of one call, against the run they are appended to. -/
structure Appendable (db : Rocks) (seq : Nat) (es : List AuditEvent) (r : AgentRun) : Prop where
  counter : db.globalSeq.getD 0 ≤ seq
  numbered : Numbered seq es
  own : ∀ e ∈ es, e.runId = r.runId ∧ e.orgId = r.orgId ∧ e.projectId = r.projectId
  same : ∀ old, storedRun db r.runId = some old → SameRun old r

theorem storedEvents_appendBatch (hdb : Represents db) {seq : Nat} {es : List AuditEvent}
    {r : AgentRun} (h : Appendable db seq es r) :
    storedEvents (db.write (appendBatch es r.runId r (seq + es.length))) = storedEvents db ++ es := by
  apply storedEvents_append
  rw [write_appendBatch]
  apply entries_foldl_putEvent
  · intro entry hentry e he
    rcases hdb.get_events (SortedMap.get_eq_some_iff.2 hentry) with ⟨old, hold, hdecode, hseq⟩
    have hbound := hdb.seqBound old hold
    have hnew := (h.numbered.bounds he).1
    have hcounter := h.counter
    omega
  · exact h.numbered.sorted

theorem write_append (hdb : Represents db) {seq : Nat} {es : List AuditEvent} {r : AgentRun}
    (h : Appendable db seq es r) :
    Represents (db.write (appendBatch es r.runId r (seq + es.length))) := by
  have hevents := hdb.storedEvents_appendBatch h
  have hdb' := write_appendBatch db es r.runId r (seq + es.length)
  -- from here on only the columns that the batch changes matter
  generalize db.write (appendBatch es r.runId r (seq + es.length)) = db' at hevents hdb' ⊢
  have hrun : RunWrite db db' r := ⟨by rw [hdb'], h.same⟩
  constructor
  · exact hrun.runDoc hdb
  · intro seq' doc hget
    have hput : (es.foldl putEvent db.events).get seq' = some doc := by simpa [hdb'] using hget
    rcases SortedMap.get_foldl_put _ _ es hput with hold | ⟨e, he, hseq, hdoc⟩
    · exact hdb.eventDoc hold
    · exact ⟨e, hdoc, hseq.symm⟩
  · intro key doc hget
    exact hdb.approvalDoc (by simpa [hdb'] using hget)
  -- old events are below the counter, new ones at most at its new value
  · intro e he
    have hseq : db'.globalSeq.getD 0 = seq + es.length := by simp [hdb']
    rcases List.mem_append.1 (hevents ▸ he) with hold | hnew
    · have hbound := hdb.seqBound e hold
      have hcounter := h.counter
      omega
    · have hbound := (h.numbered.bounds hnew).2
      omega
  · intro e he
    rcases List.mem_append.1 (hevents ▸ he) with hold | hnew
    · exact hrun.eventRun hdb hold
    · rcases h.own e hnew with ⟨hid, horg, hproject⟩
      refine ⟨r, ?_, horg.symm, hproject.symm⟩
      rw [storedRun_put db hrun.runs, if_pos hid]
  · intro key runId hget
    exact hrun.runIndex hdb (by simpa [hdb'] using hget)
  -- an entry of the run index is old or belongs to a new event
  · intro key u hget
    have hput : (es.foldl (fun m e => m.put (evByRunKey e) ()) db.evByRun).get key = some u := by
      simpa [hdb'] using hget
    rw [hevents]
    rcases SortedMap.get_foldl_put evByRunKey (fun _ => ()) es hput with hold | ⟨e, he, hkey, _⟩
    · rcases hdb.byRun hold with ⟨e, he, hkey⟩
      exact ⟨e, List.mem_append_left _ he, hkey⟩
    · exact ⟨e, List.mem_append_right _ he, hkey⟩
  · intro key u hget
    have hput : (es.foldl (fun m e => m.put (evByTypeKey e) ()) db.evByType).get key = some u := by
      simpa [hdb'] using hget
    rw [hevents]
    rcases SortedMap.get_foldl_put evByTypeKey (fun _ => ()) es hput with hold | ⟨e, he, hkey, _⟩
    · rcases hdb.byType hold with ⟨e, he, hkey⟩
      exact ⟨e, List.mem_append_left _ he, hkey⟩
    · exact ⟨e, List.mem_append_right _ he, hkey⟩
  · rw [hevents, List.foldl_append, ← hdb.idempotency, hdb']

end Represents

/-! ## Every action -/

theorem fetchRun_spec {db : Rocks} (hdb : Represents db) {runId orgId projectId : Bytes}
    {run : AgentRun} (h : fetchRun db runId orgId projectId = .ok run) :
    storedRun db runId = some run ∧ run.runId = runId ∧ run.orgId = orgId ∧
      run.projectId = projectId := by
  have hfetch := fetchRun_eq_ok h
  exact ⟨hfetch.1, hdb.storedRun_runId hfetch.1, hfetch.2⟩

/-- The events a call accepts can be appended to its run. -/
theorem Consistent.appendable {s : Store} (hs : Consistent s) (env : Env) (now : Nat → Int)
    {runId orgId projectId : Bytes} (events : List AuditEvent) {run r : AgentRun}
    (hfetch : fetchRun s.rocks runId orgId projectId = .ok run) (hsame : SameRun run r) :
    Represents.Appendable s.rocks s.globalSeq
      (s.accepted env now run runId orgId projectId events) r := by
  rcases fetchRun_spec hs.represents hfetch with ⟨hstored, hid, horg, hproject⟩
  refine ⟨hs.counter, ⟨acceptedEvents_sequence _ _ _ _⟩, ?_, ?_⟩
  -- an accepted event is stamped with the run's own id and tenant
  · intro e he
    rcases acceptedEvents_stampOf he with ⟨ev, hev, hnew, hstamp⟩
    exact ⟨hstamp.runId.trans (hsame.runId.trans hid).symm,
      hstamp.orgId.trans (hsame.orgId.trans horg).symm,
      hstamp.projectId.trans (hsame.projectId.trans hproject).symm⟩
  · intro old hold
    rw [hsame.runId, hid, hstored] at hold
    cases hold
    exact hsame

/-- The events of an append are stored after those that were there. -/
theorem Consistent.storedEvents_append {s : Store} (hs : Consistent s) (env : Env)
    (now : Nat → Int) {runId orgId projectId : Bytes} (events : List AuditEvent)
    {run r : AgentRun} (hfetch : fetchRun s.rocks runId orgId projectId = .ok run)
    (hsame : SameRun run r) :
    let es := s.accepted env now run runId orgId projectId events
    storedEvents (s.rocks.write (appendBatch es runId r (s.globalSeq + es.length))) =
      storedEvents s.rocks ++ es := by
  have hid := (fetchRun_spec hs.represents hfetch).2.1
  have hkey : runId = r.runId := (hsame.runId.trans hid).symm
  have happend := hs.appendable env now events hfetch hsame
  subst hkey
  exact hs.represents.storedEvents_appendBatch happend

/-- The batch of a call keeps the representation. -/
theorem Commit.represents {env : Env} {now : Nat → Int} {s : Store} {c : Call} {batch : List Put}
    {n : Nat} (hs : Consistent s) (hcommit : Commit env now s c batch n) :
    Represents (s.rocks.write batch) := by
  cases hcommit with
  | startRun hnew hopens =>
      exact hs.represents.write_newRun (Represents.storedRun_eq_none (hopens.runId ▸ hnew))
  | updateRun hfetch hsame hhash hcount =>
      rcases fetchRun_spec hs.represents hfetch with ⟨hstored, hid, horg, hproject⟩
      -- the rewritten run replaces the one with its id
      rw [← hsame.runId.trans hid]
      refine hs.represents.write_run fun old hold => ?_
      rw [hsame.runId, hid, hstored] at hold
      cases hold
      exact hsame
  | @appendEvents runId orgId projectId events es run r hfetch hsame hes hhash hcount =>
      rcases fetchRun_spec hs.represents hfetch with ⟨hstored, hid, horg, hproject⟩
      have happend := hs.appendable env now events hfetch hsame
      have hrunId : runId = r.runId := (hsame.runId.trans hid).symm
      rw [← hes] at happend
      rw [hrunId]
      exact hs.represents.write_append happend
  | insertApproval hnew hsame => exact hs.represents.write_approval
  | updateApproval hget hdoc hsame =>
      rcases hs.represents.get_approvals hget with ⟨a, ha, hstored, hid⟩
      rw [ha] at hdoc
      cases hdoc
      rw [← hsame.approvalId.trans hid]
      exact hs.represents.write_approval
  | putExport => exact hs.represents.write_exports

theorem Commit.counter {env : Env} {now : Nat → Int} {s : Store} {c : Call} {batch : List Put}
    {n : Nat} (hs : Consistent s) (hcommit : Commit env now s c batch n) :
    (s.rocks.write batch).globalSeq.getD 0 ≤ s.globalSeq + n := by
  cases hcommit with
  | appendEvents hfetch hsame hes hhash hcount => simp [write_appendBatch]
  | _ => exact hs.counter

theorem Durable.consistent {env : Env} {s s' : Store} {c : Option Call} (hs : Consistent s)
    (h : Durable env s s' c) : Consistent s' := by
  cases h with
  | quiet hrocks hseq =>
      refine ⟨hrocks ▸ hs.represents, ?_⟩
      rw [hrocks]
      rcases hseq with hge | heq
      · exact le_trans hs.counter hge
      · exact heq.ge
  | committed hcommit hrocks hseq =>
      exact ⟨hrocks ▸ hcommit.represents hs, by rw [hrocks, hseq]; exact hcommit.counter hs⟩

/-- Every store that actions lead to is consistent. -/
theorem consistent_runActions (env : Env) (actions : List Action) :
    Consistent (runActions env {} actions) :=
  List.foldlRecOn actions _ consistent_empty fun s hs a _ => (a.durable env s).consistent hs

end ControlDB
