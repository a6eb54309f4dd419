import ControlDB.Core.VerifyCoverage
import ControlDB.Library.Paging

/-!
# Pages of `timeline` and `query`

Both walk an index whose keys end in sequence numbers, and both resume behind a cursor.  A timeline
walks one prefix, so its pages always are the events of the run in order.  A query walks one prefix
for each requested type under a shared limit, and one cursor stands for all of them.
-/

namespace ControlDB

open Library

/-! ## A prefix of an index -/

/-- The key of an event under a prefix. -/
def scanKey (scanPrefix : Bytes) (e : AuditEvent) : Bytes :=
  scanPrefix ++ seqToKey e.sequence

/-- What the index has under the prefix are the keys of these events. -/
structure Lists (index : SortedMap Bytes Unit) (scanPrefix : Bytes) (events : List AuditEvent) :
    Prop where
  sorted : events.Pairwise fun a b => a.sequence < b.sequence
  fits : ∀ e ∈ events, e.sequence < 2 ^ 64
  keys : ∀ key, scanPrefix <+: key →
    ((index.get key).isSome ↔ ∃ e ∈ events, key = scanKey scanPrefix e)

/-- The number behind the cursor still is one. -/
def CursorFits (cursor : Option Nat) : Prop :=
  ∀ c ∈ cursor, c + 1 < 2 ^ 64

theorem scanKey_lt_iff {scanPrefix : Bytes} {e e' : AuditEvent} (he : e.sequence < 2 ^ 64)
    (he' : e'.sequence < 2 ^ 64) :
    scanKey scanPrefix e < scanKey scanPrefix e' ↔ e.sequence < e'.sequence := by
  rw [scanKey, scanKey, append_lt_append_iff]
  exact toBigEndian_lt_iff (by simpa using he) (by simpa using he')

theorem not_seekKey_lt (scanPrefix : Bytes) (cursor : Option Nat) :
    ¬ seekKey scanPrefix cursor < scanPrefix := by
  cases cursor with
  | none => exact lt_irrefl _
  | some c => exact not_append_lt _ _

/-- The events at or behind the place that is sought are those behind the cursor. -/
theorem Lists.mem_after_iff {index : SortedMap Bytes Unit} {scanPrefix : Bytes}
    {events : List AuditEvent} (h : Lists index scanPrefix events) {cursor : Option Nat}
    (hcursor : CursorFits cursor) {e : AuditEvent} (he : e ∈ events) :
    e ∈ after AuditEvent.sequence events cursor ↔
      ¬ scanKey scanPrefix e < seekKey scanPrefix cursor := by
  cases cursor with
  | none => exact iff_of_true he (not_append_lt _ _)
  | some c =>
      have hlt : scanKey scanPrefix e < seekKey scanPrefix (some c) ↔ e.sequence < c + 1 := by
        rw [scanKey, seekKey, append_lt_append_iff]
        have hfit := h.fits e he
        have hnext := hcursor c rfl
        exact toBigEndian_lt_iff (by simpa using hfit) (by simpa using hnext)
      rw [hlt, not_lt, Nat.succ_le_iff]
      simp [after, he]

/-- What an iterator sees from a cursor on: the events behind it, and then something else. -/
theorem Lists.seek_eq {index : SortedMap Bytes Unit} {scanPrefix : Bytes}
    {events : List AuditEvent} (h : Lists index scanPrefix events) {cursor : Option Nat}
    (hcursor : CursorFits cursor) :
    ∃ rest, index.seek (seekKey scanPrefix cursor) =
        (after AuditEvent.sequence events cursor).map (fun e => (scanKey scanPrefix e, ())) ++ rest ∧
      ∀ entry ∈ rest.head?, entry.1.take scanPrefix.length ≠ scanPrefix := by
  generalize hentries : index.seek (seekKey scanPrefix cursor) = entries
  let own : Bytes → Bool := fun key => decide (key.take scanPrefix.length = scanPrefix)
  have hsorted : (entries.map Prod.fst).Pairwise (· < ·) :=
    hentries ▸ List.pairwise_map.2 (index.seek_sorted _)
  have hmem : ∀ key, key ∈ entries.map Prod.fst ↔
      (index.get key).isSome ∧ ¬ key < seekKey scanPrefix cursor := by
    intro key
    rw [← hentries]
    exact SortedMap.mem_keys_seek_iff
  have hleft := h.sorted.sublist (after_sublist AuditEvent.sequence events cursor)
  have hevents : ∀ e ∈ after AuditEvent.sequence events cursor, e ∈ events :=
    fun e he => (after_sublist _ _ cursor).subset he
  have hown : ∀ {key : Bytes}, own key = true ↔ scanPrefix <+: key := fun {key} =>
    ⟨fun hkey => isPrefix_of_take (of_decide_eq_true hkey),
      fun hkey => decide_eq_true (List.prefix_iff_eq_take.1 hkey).symm⟩
  -- both lists of keys are in order, so it is enough that they have the same members
  have hkeys : (entries.map Prod.fst).takeWhile own =
      (after AuditEvent.sequence events cursor).map (scanKey scanPrefix) := by
    refine List.Pairwise.eq_of_mem_iff (hsorted.sublist (List.takeWhile_sublist _)) ?_ fun key => ?_
    · refine List.pairwise_map.2 ((List.Pairwise.and_mem.1 hleft).imp ?_)
      rintro a b ⟨ha, hb, hlt⟩
      exact (scanKey_lt_iff (h.fits a (hevents a ha)) (h.fits b (hevents b hb))).2 hlt
    · rw [mem_takeWhile_iff hsorted, hmem, hown]
      constructor
      · rintro ⟨⟨hindex, hge⟩, hpre, _⟩
        rcases (h.keys key hpre).1 hindex with ⟨e, he, rfl⟩
        exact List.mem_map_of_mem ((h.mem_after_iff hcursor he).2 hge)
      · intro hkey
        rcases List.mem_map.1 hkey with ⟨e, he, rfl⟩
        have hpre : scanPrefix <+: scanKey scanPrefix e := List.prefix_append _ _
        refine ⟨⟨(h.keys _ hpre).2 ⟨e, hevents e he, rfl⟩,
          (h.mem_after_iff hcursor (hevents e he)).1 he⟩, hpre, fun key' hkey' hlt => hown.2 ?_⟩
        have hge := not_lt.1 ((hmem key').1 hkey').2
        have hlow := not_lt.1 (not_seekKey_lt scanPrefix cursor)
        exact isPrefix_of_between (not_lt.2 (hlow.trans hge)) hlt.asymm
  rw [List.takeWhile_map] at hkeys
  refine ⟨entries.dropWhile (own ∘ Prod.fst), ?_, fun entry hentry => ?_⟩
  · have htaken : entries.takeWhile (own ∘ Prod.fst) =
        (after AuditEvent.sequence events cursor).map fun e => (scanKey scanPrefix e, ()) := by
      have hpairs := congrArg (List.map fun key : Bytes => (key, ())) hkeys
      simpa [List.map_map, Function.comp_def] using hpairs
    rw [← htaken, List.takeWhile_append_dropWhile]
  · have hout := List.head?_dropWhile_not (own ∘ Prod.fst) entries
    rw [Option.mem_def.1 hentry] at hout
    simpa [own] using hout

/-! ## The loops -/

/-- The number of the last of these events. -/
def lastSequence (events : List AuditEvent) (lastSeq : Nat) : Nat :=
  (events.getLast?.map AuditEvent.sequence).getD lastSeq

theorem lastSequence_cons (e : AuditEvent) (es : List AuditEvent) (lastSeq : Nat) :
    lastSequence (e :: es) lastSeq = lastSequence es e.sequence := by
  unfold lastSequence
  rw [List.getLast?_cons]
  cases es.getLast? <;> rfl

/-- A page with room takes the first event, and has one place fewer for the rest. -/
theorem page_cons {limit : Nat} {events : List AuditEvent} (hlt : events.length < limit)
    (e : AuditEvent) (es : List AuditEvent) (lastSeq : Nat) :
    events ++ (e :: es).take (limit - events.length) =
        (events ++ [e]) ++ es.take (limit - (events ++ [e]).length) ∧
      lastSequence ((e :: es).take (limit - events.length)) lastSeq =
        lastSequence (es.take (limit - (events ++ [e]).length)) e.sequence := by
  have hsucc : limit - events.length = limit - (events ++ [e]).length + 1 := by
    rw [List.length_append, List.length_singleton]
    omega
  rw [hsucc, List.take_succ_cons]
  exact ⟨(List.append_assoc events [e] _).symm, lastSequence_cons e _ lastSeq⟩

/-- Every event is in the events column under its number. -/
def Found (db : Rocks) (events : List AuditEvent) : Prop :=
  ∀ e ∈ events, e.sequence < 2 ^ 64 ∧ db.events.get e.sequence = some (eventToJson e)

theorem keySeq_scanKey {scanPrefix : Bytes} {e : AuditEvent} (hfit : e.sequence < 2 ^ 64) :
    keyToSeq ((scanKey scanPrefix e).drop scanPrefix.length) = e.sequence := by
  rw [scanKey, List.drop_left, keyToSeq_seqToKey hfit]

/-- The event is of the wanted run. -/
def ofRun (filter : QueryFilter) (e : AuditEvent) : Bool :=
  decide (∀ runId ∈ filter.runId, e.runId = runId)

section Loops

variable {db : Rocks} {scanPrefix : Bytes} {entries rest : List (Bytes × Unit)}
  {events : List AuditEvent} {lastSeq : Nat}

theorem timelineLoop_step {limit : Int} {e : AuditEvent} (hfit : e.sequence < 2 ^ 64)
    (hget : db.events.get e.sequence = some (eventToJson e)) (hroom : (events.length : Int) < limit) :
    timelineLoop db scanPrefix limit ((scanKey scanPrefix e, ()) :: entries) events lastSeq =
      timelineLoop db scanPrefix limit entries (events ++ [e]) e.sequence := by
  have htake : (scanKey scanPrefix e).take scanPrefix.length = scanPrefix := List.take_left
  have hlong : ¬ (scanKey scanPrefix e).length < scanPrefix.length + 8 := by simp [scanKey]
  rw [timelineLoop, if_neg (not_not.2 hroom), if_neg (not_not.2 htake), if_neg hlong]
  simp only [keySeq_scanKey hfit, hget, jsonToEvent_eventToJson, Bind.bind, Except.bind]

theorem queryLoop_step {filter : QueryFilter} {e : AuditEvent} (hfit : e.sequence < 2 ^ 64)
    (hget : db.events.get e.sequence = some (eventToJson e))
    (hroom : (events.length : Int) < filter.limit) :
    queryLoop db filter scanPrefix ((scanKey scanPrefix e, ()) :: entries) events lastSeq =
      if ofRun filter e then queryLoop db filter scanPrefix entries (events ++ [e]) e.sequence
      else queryLoop db filter scanPrefix entries events lastSeq := by
  have htake : (scanKey scanPrefix e).take scanPrefix.length = scanPrefix := List.take_left
  rw [queryLoop, if_neg (not_not.2 hroom), if_neg (not_not.2 htake)]
  simp only [keySeq_scanKey hfit, hget, jsonToEvent_eventToJson, Bind.bind, Except.bind]
  cases hrun : filter.runId with
  | none => simp [ofRun, hrun]
  | some runId => by_cases hid : e.runId = runId <;> simp [ofRun, hrun, hid]

/-- The loop of `timeline` takes the events of the prefix until the page is full. -/
theorem timelineLoop_lists {limit : Nat} {es : List AuditEvent} (hfound : Found db es)
    (hrest : ∀ entry ∈ rest.head?, entry.1.take scanPrefix.length ≠ scanPrefix)
    (hle : events.length ≤ limit) :
    ∃ valid, timelineLoop db scanPrefix limit
        (es.map (fun e => (scanKey scanPrefix e, ())) ++ rest) events lastSeq =
          .ok (events ++ es.take (limit - events.length),
            lastSequence (es.take (limit - events.length)) lastSeq, valid) ∧
      (valid = false → es.length ≤ limit - events.length) := by
  induction es generalizing events lastSeq with
  | nil =>
      rcases rest with _ | ⟨entry, rest⟩
      · exact ⟨false, by simp [timelineLoop, lastSequence], by simp⟩
      · have hout := hrest entry rfl
        exact ⟨true, by simp [timelineLoop, lastSequence, hout], by simp⟩
  | cons e es ih =>
      by_cases hfull : events.length = limit
      · have hroom : limit - events.length = 0 := by omega
        exact ⟨true, by simp [timelineLoop, lastSequence, hfull], by simp⟩
      have hlt : events.length < limit := lt_of_le_of_ne hle hfull
      rcases hfound e List.mem_cons_self with ⟨hfit, hget⟩
      have hroom : (events ++ [e]).length = events.length + 1 := List.length_append
      have hfound' : Found db es := fun e' he' => hfound e' (List.mem_cons_of_mem _ he')
      rcases @ih (events ++ [e]) e.sequence hfound' (hroom ▸ hlt) with ⟨valid, hloop, hvalid⟩
      rcases page_cons hlt e es lastSeq with ⟨hpage, hlast⟩
      refine ⟨valid, ?_, fun hdone => ?_⟩
      · rw [hpage, hlast, ← hloop]
        exact timelineLoop_step hfit hget (Int.ofNat_lt.2 hlt)
      · have hfew := hvalid hdone
        rw [List.length_cons]
        omega

/-- The loop of `query` takes those of the wanted run. -/
theorem queryLoop_lists {filter : QueryFilter} {limit : Nat} (hlimit : filter.limit = limit)
    {es : List AuditEvent} (hfound : Found db es)
    (hrest : ∀ entry ∈ rest.head?, entry.1.take scanPrefix.length ≠ scanPrefix)
    (hle : events.length ≤ limit) :
    queryLoop db filter scanPrefix (es.map (fun e => (scanKey scanPrefix e, ())) ++ rest) events
        lastSeq =
      .ok (events ++ (es.filter (ofRun filter)).take (limit - events.length),
        lastSequence ((es.filter (ofRun filter)).take (limit - events.length)) lastSeq) := by
  induction es generalizing events lastSeq with
  | nil =>
      rcases rest with _ | ⟨entry, rest⟩
      · simp [queryLoop, lastSequence]
      · have hout := hrest entry rfl
        simp [queryLoop, lastSequence, hout]
  | cons e es ih =>
      by_cases hfull : events.length = limit
      · simp [queryLoop, lastSequence, hfull, hlimit]
      have hlt : events.length < limit := lt_of_le_of_ne hle hfull
      rcases hfound e List.mem_cons_self with ⟨hfit, hget⟩
      have hfound' : Found db es := fun e' he' => hfound e' (List.mem_cons_of_mem _ he')
      rw [List.map_cons, List.cons_append,
        queryLoop_step hfit hget (hlimit ▸ Int.ofNat_lt.2 hlt)]
      -- an event of another run is passed over
      by_cases hrun : ofRun filter e = true
      · have hroom : (events ++ [e]).length = events.length + 1 := List.length_append
        rcases page_cons hlt e (es.filter (ofRun filter)) lastSeq with ⟨hpage, hlast⟩
        rw [if_pos hrun, List.filter_cons_of_pos hrun, hpage, hlast]
        exact ih hfound' (hroom ▸ hlt)
      · rw [if_neg hrun, List.filter_cons_of_neg hrun, ih hfound' hle]

end Loops

/-! ## Timelines -/

/-- No stored run has a `:` in its id. -/
def RunIdsColonFree (db : Rocks) : Prop :=
  ∀ runId run, storedRun db runId = some run → (0x3a : UInt8) ∉ runId

/-- There is a number after the ones in use. -/
def NextSeqFits (db : Rocks) : Prop :=
  db.globalSeq.getD 0 + 1 < 2 ^ 64

theorem NextSeqFits.fits {db : Rocks} (h : NextSeqFits db) : SeqFits db :=
  (Nat.lt_succ_self _).trans h

theorem NextSeqFits.cursorFits {db : Rocks} (h : NextSeqFits db) (hdb : Represents db)
    {events : List AuditEvent} (hevents : events ⊆ storedEvents db) {cursor : Option Nat}
    (hcursor : Resumes AuditEvent.sequence events cursor) : CursorFits cursor := by
  intro c hc
  rcases hcursor c hc with ⟨e, he, rfl⟩
  exact lt_of_le_of_lt (Nat.succ_le_succ (hdb.seqBound e (hevents he))) h

theorem found_of_subset {db : Rocks} (hdb : Indexed db) {events : List AuditEvent}
    (hevents : events ⊆ storedEvents db) : Found db events := fun _ he =>
  ⟨hdb.fit (hevents he), hdb.represents.mem_storedEvents.1 (hevents he)⟩

theorem sequence_of_getLast? {events : List AuditEvent} {e : AuditEvent}
    (h : events.getLast? = some e) (lastSeq : Nat) : e.sequence = lastSequence events lastSeq := by
  rw [lastSequence, h]
  rfl

section Timeline

variable {db : Rocks} {runId : Bytes} {run : AgentRun}

/-- Without `:` in the ids, the keys under the prefix of a run are its own. -/
theorem lists_byRun (hdb : Indexed db) (hids : RunIdsColonFree db)
    (hrun : storedRun db runId = some run) :
    Lists db.evByRun (runPrefix runId) (runEvents db runId) where
  sorted := hdb.represents.storedEvents_sorted.filter _
  fits _ he := hdb.fit (mem_runEvents.1 he).1
  keys key hpre := by
    constructor
    · intro hkey
      rcases hdb.indexKey_iff.1 hkey with ⟨e, he, rfl⟩
      rcases hdb.represents.eventRun e he with ⟨r, hr, _⟩
      rcases hpre with ⟨tail, htail⟩
      have hid := (colonFree_append_inj (hids _ _ hrun) (hids _ _ hr) htail).1
      exact ⟨e, mem_runEvents.2 ⟨he, hid.symm⟩, by rw [hid, evByRunKey_eq, scanKey]⟩
    · rintro ⟨e, he, rfl⟩
      rcases mem_runEvents.1 he with ⟨hstored, rfl⟩
      exact hdb.events.byRun e hstored

/-- A page of the timeline of a run. -/
def timelinePage (s : Store) (run : AgentRun) (limit : Int) (cursor : Option Nat) :
    Except StoreError (List AuditEvent × Option Nat) := do
  let tl ← timeline s run.runId run.orgId run.projectId limit cursor
  return (tl.events, tl.nextCursor)

/-- Every page continues behind its cursor. -/
theorem scans_timelinePage {s : Store} (hdb : Indexed s.rocks) (hids : RunIdsColonFree s.rocks)
    (hnext : NextSeqFits s.rocks) (hrun : storedRun s.rocks run.runId = some run) {limit : Nat}
    (hlimit : 1 ≤ limit) :
    Scans AuditEvent.sequence (fun _ => 0) limit (runEvents s.rocks run.runId)
      (timelinePage s run limit) := by
  intro cursor hcursor
  have hsub : runEvents s.rocks run.runId ⊆ storedEvents s.rocks := List.filter_subset_self _
  have hlists := lists_byRun hdb hids hrun
  rcases hlists.seek_eq (hnext.cursorFits hdb.represents hsub hcursor) with ⟨rest, hseek, hrest⟩
  have hsorted := hlists.sorted.sublist (after_sublist AuditEvent.sequence _ cursor)
  have hfound : Found s.rocks (after AuditEvent.sequence (runEvents s.rocks run.runId) cursor) :=
    fun e he => found_of_subset hdb hsub e ((after_sublist _ _ cursor).subset he)
  generalize after AuditEvent.sequence (runEvents s.rocks run.runId) cursor = left at *
  rcases @timelineLoop_lists _ _ _ [] 0 limit _ hfound hrest (Nat.zero_le _) with
    ⟨valid, hloop, hvalid⟩
  have hscan : timelineLoop s.rocks (run.runId ++ bytes ":") limit
      (s.rocks.evByRun.seek (seekKey (run.runId ++ bytes ":") cursor)) [] 0 =
        .ok (left.take limit, lastSequence (left.take limit) 0, valid) := by
    rw [← runPrefix, hseek]
    exact hloop
  have hneg : ¬ (limit : Int) < 0 := by omega
  have hpage : timelinePage s run limit cursor = .ok (left.take limit,
      if (left.take limit).length = limit ∧ valid = true then some (lastSequence (left.take limit) 0)
      else none) := by
    simp only [timelinePage, timeline, fetchRun_of_storedRun hrun, hscan, if_neg hneg, Bind.bind,
      Except.bind, pure, Except.pure, Int.ofNat_inj]
  refine ⟨left, left.take limit, _, hpage, pageOf_of_scan hlimit (List.Perm.refl _) ?_ (List.Perm.refl _)
    (hsorted.sublist (List.take_sublist _ _)) (fun e he => sequence_of_getLast? he 0) ?_⟩
  · exact hsorted.imp fun hlt => .inr ⟨rfl, hlt⟩
  · exact fun hdone => hvalid (Bool.eq_false_iff.2 hdone)

end Timeline

/-- In every store that calls lead to, following the cursor of a timeline ends, and the pages are
the events of the run, in order. -/
theorem timeline_paginates (env : Env) (actions : List Action) {run : AgentRun}
    (hrun : storedRun (runActions env {} actions).rocks run.runId = some run)
    (hids : RunIdsColonFree (runActions env {} actions).rocks)
    (hnext : NextSeqFits (runActions env {} actions).rocks) {limit : Int} (hlimit : 1 ≤ limit) :
    ∃ pages, Pages (timelinePage (runActions env {} actions) run limit) none pages ∧
      (∀ page ∈ pages, (page.length : Int) ≤ limit) ∧
      pages.flatten = runEvents (runActions env {} actions).rocks run.runId ∧
      pages.flatten.Pairwise fun a b => a.sequence < b.sequence := by
  have hs := consistent_runActions env actions
  have hdb : Indexed (runActions env {} actions).rocks :=
    ⟨hs.represents, (indexed_runActions env actions).1, hnext.fits⟩
  rcases Int.eq_ofNat_of_zero_le (by omega : 0 ≤ limit) with ⟨n, rfl⟩
  have hn : 1 ≤ n := by omega
  have hsorted := (lists_byRun hdb hids hrun).sorted
  rcases pages_of_aligned hsorted hn (scans_timelinePage hdb hids hnext hrun hn)
    (fun _ hc => absurd hc (Option.not_mem_none _)) (aligned_of_same n fun _ _ _ _ => le_rfl) with
    ⟨pages, hpages, hlengths, hflat⟩
  refine ⟨pages, hpages, fun page hpage => Int.ofNat_le.2 (hlengths page hpage), hflat, ?_⟩
  rw [hflat]
  exact hsorted

/-! ## Queries -/

instance (e : AuditEvent) (orgId projectId : Bytes) : Decidable (e.BelongsTo orgId projectId) :=
  inferInstanceAs (Decidable (_ ∧ _))

/-- The event is asked for; no types stand for all of them. -/
def QueryFilter.Matches (filter : QueryFilter) (e : AuditEvent) : Prop :=
  e.BelongsTo filter.orgId filter.projectId ∧
    (filter.eventTypes = [] ∨ e.eventType ∈ filter.eventTypes) ∧ ∀ runId ∈ filter.runId, e.runId = runId

instance (filter : QueryFilter) (e : AuditEvent) : Decidable (filter.Matches e) :=
  inferInstanceAs (Decidable (_ ∧ _))

/-- The stored events that are asked for, ordered by sequence. -/
def matchingEvents (db : Rocks) (filter : QueryFilter) : List AuditEvent :=
  (storedEvents db).filter fun e => decide (filter.Matches e)

/-- The stored events of the tenant and one type. -/
def typeEvents (db : Rocks) (filter : QueryFilter) (eventType : Bytes) : List AuditEvent :=
  (storedEvents db).filter fun e =>
    decide (e.BelongsTo filter.orgId filter.projectId ∧ e.eventType = eventType)

/-- A page of the query. -/
def queryPage (s : Store) (filter : QueryFilter) (cursor : Option Nat) :
    Except StoreError (List AuditEvent × Option Nat) := do
  let result ← query s { filter with cursor := cursor }
  return (result.events, result.nextCursor)

/-- Following the cursor of the query ends, and the pages are the matching events, in order. -/
def QueryPaginates (s : Store) (filter : QueryFilter) : Prop :=
  ∃ pages, Pages (queryPage s filter) none pages ∧ pages.flatten = matchingEvents s.rocks filter

/-- The place of the type in the list of types that are asked for. -/
def typeRank (filter : QueryFilter) (e : AuditEvent) : Nat :=
  filter.eventTypes.idxOf e.eventType

/-- When they are: without types the run is one of the tenant, or without a run as well nothing
matches; with types, at the end of every page no matching event before it is of a type further on
in the list, and none behind it of a type further ahead. -/
def PagesAlign (db : Rocks) (filter : QueryFilter) : Prop :=
  match filter.eventTypes, filter.runId with
  | [], none => matchingEvents db filter = []
  | [], some runId => ∃ run, storedRun db runId = some run ∧
      run.BelongsTo filter.orgId filter.projectId
  | _, _ => Aligned (typeRank filter) filter.limit.toNat (matchingEvents db filter)

section Query

variable {db : Rocks} {filter : QueryFilter}

theorem mem_typeEvents {eventType : Bytes} {e : AuditEvent} :
    e ∈ typeEvents db filter eventType ↔
      e ∈ storedEvents db ∧ e.BelongsTo filter.orgId filter.projectId ∧ e.eventType = eventType := by
  simp [typeEvents]

theorem mem_matchingEvents {e : AuditEvent} :
    e ∈ matchingEvents db filter ↔ e ∈ storedEvents db ∧ filter.Matches e := by
  simp [matchingEvents]

/-- Without `:` in tenants and types, the keys under the prefix of a type are those of its events. -/
theorem typesClear_of_colonFree
    (hstored : ∀ e ∈ storedEvents db, (0x3a : UInt8) ∉ e.orgId ∧ (0x3a : UInt8) ∉ e.projectId ∧
      (0x3a : UInt8) ∉ e.eventType)
    (horg : (0x3a : UInt8) ∉ filter.orgId) (hproject : (0x3a : UInt8) ∉ filter.projectId)
    (htypes : ∀ et ∈ filter.eventTypes, (0x3a : UInt8) ∉ et) : TypesClear db filter := by
  rintro et het e he ⟨tail, htail⟩
  rcases hstored e he with ⟨heorg, heproject, hetype⟩
  have hparts : filter.orgId ++ bytes ":" ++ (filter.projectId ++ bytes ":" ++ (et ++ bytes ":" ++ tail)) =
      e.orgId ++ bytes ":" ++
        (e.projectId ++ bytes ":" ++ (e.eventType ++ bytes ":" ++ seqToKey e.sequence)) := by
    simpa [typePrefix, evByTypeKey] using htail
  rcases colonFree_append_inj horg heorg hparts with ⟨horg', hrest⟩
  rcases colonFree_append_inj hproject heproject hrest with ⟨hproject', hrest'⟩
  exact ⟨⟨horg'.symm, hproject'.symm⟩, (colonFree_append_inj (htypes et het) hetype hrest').1.symm⟩

theorem lists_byType (hdb : Indexed db) (hclear : TypesClear db filter) {et : Bytes}
    (het : et ∈ filter.eventTypes) :
    Lists db.evByType (typePrefix filter et) (typeEvents db filter et) where
  sorted := hdb.represents.storedEvents_sorted.filter _
  fits _ he := hdb.fit (mem_typeEvents.1 he).1
  keys key hpre := by
    constructor
    · intro hkey
      rcases Option.isSome_iff_exists.1 hkey with ⟨u, hget⟩
      rcases hdb.represents.byType hget with ⟨e, he, rfl⟩
      rcases hclear et het e he hpre with ⟨⟨horg, hproject⟩, htype⟩
      refine ⟨e, mem_typeEvents.2 ⟨he, ⟨horg, hproject⟩, htype⟩, ?_⟩
      rw [evByTypeKey, scanKey, typePrefix, horg, hproject, htype]
    · rintro ⟨e, he, rfl⟩
      rcases mem_typeEvents.1 he with ⟨hstored, ⟨horg, hproject⟩, htype⟩
      have hkey := hdb.events.byType e hstored
      rwa [evByTypeKey, horg, hproject, htype] at hkey

theorem lastSequence_append (es es' : List AuditEvent) (lastSeq : Nat) :
    lastSequence (es ++ es') lastSeq = lastSequence es' (lastSequence es lastSeq) := by
  unfold lastSequence
  rw [List.getLast?_append]
  cases es'.getLast? <;> rfl

/-- What the scans of the types find one after the other. -/
def scannedTypes (db : Rocks) (filter : QueryFilter) (types : List Bytes) : List AuditEvent :=
  types.flatMap fun et =>
    (after AuditEvent.sequence (typeEvents db filter et) filter.cursor).filter (ofRun filter)

theorem queryTypes_lists (hdb : Indexed db) (hclear : TypesClear db filter)
    (hcursor : CursorFits filter.cursor) {limit : Nat} (hlimit : filter.limit = limit)
    {types : List Bytes} (hsub : types ⊆ filter.eventTypes) {events : List AuditEvent} {lastSeq : Nat}
    (hle : events.length ≤ limit) :
    queryTypes db filter types events lastSeq =
      .ok (events ++ (scannedTypes db filter types).take (limit - events.length),
        lastSequence ((scannedTypes db filter types).take (limit - events.length)) lastSeq) := by
  induction types generalizing events lastSeq with
  | nil => simp [queryTypes, scannedTypes, lastSequence]
  | cons et types ih =>
      have hlists := lists_byType hdb hclear (hsub List.mem_cons_self)
      rcases hlists.seek_eq hcursor with ⟨rest, hseek, hrest⟩
      have hfound : Found db (after AuditEvent.sequence (typeEvents db filter et) filter.cursor) :=
        fun e he => found_of_subset hdb (List.filter_subset_self _) e ((after_sublist _ _ _).subset he)
      have hloop := @queryLoop_lists db (typePrefix filter et) rest events lastSeq filter limit hlimit _
        hfound hrest hle
      rw [← hseek] at hloop
      have hscanned : scannedTypes db filter (et :: types) =
          (after AuditEvent.sequence (typeEvents db filter et) filter.cursor).filter (ofRun filter) ++
            scannedTypes db filter types := List.flatMap_cons
      rw [hscanned]
      generalize (after AuditEvent.sequence (typeEvents db filter et) filter.cursor).filter
        (ofRun filter) = found at hloop
      simp only [queryTypes, hloop, Bind.bind, Except.bind]
      have hlength : (events ++ found.take (limit - events.length)).length =
          events.length + min (limit - events.length) found.length := by
        rw [List.length_append, List.length_take]
      -- the limit is reached in this type, or all of it is taken
      by_cases hfull : limit - events.length ≤ found.length
      · have hdone : ((events ++ found.take (limit - events.length)).length : Int) ≥ filter.limit := by
          rw [hlength, hlimit]
          omega
        rw [if_pos hdone, List.take_append_of_le_length hfull]
        rfl
      · have hgoOn : ¬ ((events ++ found.take (limit - events.length)).length : Int) ≥ filter.limit := by
          rw [hlength, hlimit]
          omega
        have hall : found.take (limit - events.length) = found := List.take_of_length_le (by omega)
        have hroom : limit - (events ++ found).length = limit - events.length - found.length := by
          rw [List.length_append]
          omega
        have hle' : (events ++ found).length ≤ limit := by
          rw [List.length_append]
          omega
        have hsub' : types ⊆ filter.eventTypes := fun et' het' => hsub (List.mem_cons_of_mem _ het')
        rw [if_neg hgoOn, hall, ih hsub' hle', hroom, List.take_append, hall, lastSequence_append,
          List.append_assoc]

/-- The places of distinct types in their list are in order. -/
theorem pairwise_idxOf_lt {types : List Bytes} (htypes : types.Nodup) :
    types.Pairwise fun a b => types.idxOf a < types.idxOf b := by
  rw [List.pairwise_iff_getElem]
  intro i j hi hj hij
  rwa [htypes.idxOf_getElem i hi, htypes.idxOf_getElem j hj]

/-- The scans visit the matching events behind the cursor, type by type. -/
theorem scannedTypes_ordered (hdb : Represents db) (htypes : filter.eventTypes.Nodup) :
    (scannedTypes db filter filter.eventTypes).Pairwise
      (Before AuditEvent.sequence (typeRank filter)) := by
  have htype : ∀ et, ∀ e ∈ (after AuditEvent.sequence (typeEvents db filter et) filter.cursor).filter
      (ofRun filter), e.eventType = et := by
    intro et e he
    exact (mem_typeEvents.1 ((after_sublist _ _ _).subset (List.mem_filter.1 he).1)).2.2
  refine List.pairwise_flatMap.2 ⟨fun et _ => ?_, ?_⟩
  · have hsorted : ((after AuditEvent.sequence (typeEvents db filter et) filter.cursor).filter
        (ofRun filter)).Pairwise fun a b => a.sequence < b.sequence :=
      ((hdb.storedEvents_sorted.filter _).sublist (after_sublist _ _ _)).filter _
    refine (List.Pairwise.and_mem.1 hsorted).imp ?_
    rintro a b ⟨ha, hb, hlt⟩
    exact .inr ⟨by rw [typeRank, typeRank, htype et a ha, htype et b hb], hlt⟩
  · refine (pairwise_idxOf_lt htypes).imp ?_
    intro et et' hlt a ha b hb
    refine .inl ?_
    rwa [typeRank, typeRank, htype et a ha, htype et' b hb]

theorem scannedTypes_perm (hdb : Represents db) (htypes : filter.eventTypes.Nodup)
    (hne : filter.eventTypes ≠ []) :
    (scannedTypes db filter filter.eventTypes).Perm
      (after AuditEvent.sequence (matchingEvents db filter) filter.cursor) := by
  have hscanned : (scannedTypes db filter filter.eventTypes).Nodup := by
    refine (scannedTypes_ordered hdb htypes).imp ?_
    rintro a b hab rfl
    exact hab.asymm hab
  have hafter : (after AuditEvent.sequence (matchingEvents db filter) filter.cursor).Nodup := by
    refine ((hdb.storedEvents_sorted.filter _).sublist (after_sublist _ _ _)).imp ?_
    rintro a b hlt rfl
    exact lt_irrefl _ hlt
  refine (List.perm_ext_iff_of_nodup hscanned hafter).2 fun e => ?_
  simp only [scannedTypes, List.mem_flatMap, List.mem_filter, mem_after_iff, mem_typeEvents, ofRun,
    decide_eq_true_eq, mem_matchingEvents, QueryFilter.Matches]
  constructor
  · rintro ⟨et, het, ⟨⟨he, hbelongs, rfl⟩, hbehind⟩, hrun⟩
    exact ⟨⟨he, hbelongs, .inr het, hrun⟩, hbehind⟩
  · rintro ⟨⟨he, hbelongs, htype, hrun⟩, hbehind⟩
    exact ⟨e.eventType, htype.resolve_left hne, ⟨⟨he, hbelongs, rfl⟩, hbehind⟩, hrun⟩

/-- With types, every page of a query scans them behind its cursor, and is full if it carries one. -/
theorem queryPage_spec {s : Store} (hdb : Indexed s.rocks) (hclear : TypesClear s.rocks filter)
    (htypes : filter.eventTypes.Nodup) (hne : filter.eventTypes ≠ []) {cursor : Option Nat}
    (hcursor : CursorFits cursor) {limit : Nat} (hlimit : filter.limit = limit) (hpos : 1 ≤ limit) :
    ∃ scanned page next, queryPage s filter cursor = .ok (page, next) ∧
      PageOf AuditEvent.sequence (typeRank filter) limit
        (after AuditEvent.sequence (matchingEvents s.rocks filter) cursor) scanned page next ∧
      (next = none → page.length < limit) := by
  have hquery := @queryTypes_lists s.rocks { filter with cursor := cursor } hdb hclear hcursor limit
    hlimit filter.eventTypes (List.Subset.refl _) [] 0 (Nat.zero_le _)
  have hordered : (scannedTypes s.rocks { filter with cursor := cursor } filter.eventTypes).Pairwise
      (Before AuditEvent.sequence (typeRank filter)) :=
    @scannedTypes_ordered s.rocks { filter with cursor := cursor } hdb.represents htypes
  have hperm : (scannedTypes s.rocks { filter with cursor := cursor } filter.eventTypes).Perm
      (after AuditEvent.sequence (matchingEvents s.rocks filter) cursor) :=
    @scannedTypes_perm s.rocks { filter with cursor := cursor } hdb.represents htypes hne
  generalize scannedTypes s.rocks { filter with cursor := cursor } filter.eventTypes = scanned at *
  have hscan : queryTypes s.rocks { filter with cursor := cursor } filter.eventTypes [] 0 =
      .ok (scanned.take limit, lastSequence (scanned.take limit) 0) := hquery
  have hneg : ¬ filter.limit < 0 := by omega
  have honly : ¬ (filter.eventTypes = [] ∧ ∃ runId, filter.runId = some runId) := fun h => hne h.1
  have hpage : queryPage s filter cursor = .ok (sortBySequence (scanned.take limit),
      if (scanned.take limit).length = limit ∧ True then some (lastSequence (scanned.take limit) 0)
      else none) := by
    rw [queryPage, @query_eq_scan s { filter with cursor := cursor } hneg honly]
    simp only [hscan, Bind.bind, Except.bind, pure, Except.pure]
    simp only [hlimit, Int.ofNat_inj, and_true]
  have hsorted : (matchingEvents s.rocks filter).Pairwise fun a b => a.sequence < b.sequence :=
    hdb.represents.storedEvents_sorted.filter _
  have hdistinct : (scanned.take limit).Pairwise fun a b => a.sequence ≠ b.sequence := by
    have hleft := (hsorted.sublist (after_sublist AuditEvent.sequence _ cursor)).imp
      fun hlt => hlt.ne
    exact (hperm.symm.pairwise hleft fun hab => hab.symm).sublist (List.take_sublist _ _)
  have htaken : (sortBySequence (scanned.take limit)).Perm (scanned.take limit) :=
    List.perm_insertionSort _ _
  refine ⟨scanned, _, _, hpage, ?_, fun hnone => ?_⟩
  · exact pageOf_of_scan hpos hperm hordered htaken (insertionSort_ordered hdistinct)
      (fun e he => sequence_of_getLast? he 0) fun hnot => absurd trivial hnot
  · split_ifs at hnone with hfull
    have hshort : (scanned.take limit).length ≠ limit := fun h => hfull ⟨h, trivial⟩
    have hle := List.length_take_le limit scanned
    rw [htaken.length_eq]
    omega

theorem matchingEvents_of_run {s : Store} (hdb : Represents s.rocks) {runId : Bytes} {run : AgentRun}
    (htypes : filter.eventTypes = []) (hrunId : filter.runId = some runId)
    (hrun : storedRun s.rocks runId = some run)
    (hbelongs : run.BelongsTo filter.orgId filter.projectId) :
    matchingEvents s.rocks filter = runEvents s.rocks runId := by
  refine List.filter_congr fun e he => ?_
  rw [decide_eq_decide]
  constructor
  · rintro ⟨_, _, hid⟩
    exact hid runId hrunId
  · intro hid
    -- the event has the tenant of its run
    rcases hdb.eventRun e he with ⟨r, hr, horg, hproject⟩
    rw [hid, hrun] at hr
    cases hr
    refine ⟨⟨horg.symm.trans hbelongs.1, hproject.symm.trans hbelongs.2⟩, .inl htypes, ?_⟩
    intro runId' hrunId'
    rw [hrunId] at hrunId'
    cases hrunId'
    exact hid

/-- With a run and no types, the pages are those of its timeline. -/
theorem queryPage_of_run {s : Store} {runId : Bytes} (htypes : filter.eventTypes = [])
    (hrunId : filter.runId = some runId) (hlimit : ¬ filter.limit < 0) (cursor : Option Nat) :
    queryPage s filter cursor = (do
      let tl ← timeline s runId filter.orgId filter.projectId filter.limit cursor
      return (tl.events, tl.nextCursor)) := by
  simp only [queryPage, query, htypes, hrunId, if_neg hlimit]
  cases timeline s runId filter.orgId filter.projectId filter.limit cursor <;> rfl

section Paginates

variable {s : Store}

/-- The filter with no types and no run returns nothing at once. -/
theorem queryPaginates_nil_iff (htypes : filter.eventTypes = []) (hrunId : filter.runId = none)
    (hlimit : 1 ≤ filter.limit) :
    QueryPaginates s filter ↔ matchingEvents s.rocks filter = [] := by
  have hneg : ¬ filter.limit < 0 := by omega
  have hfull : ¬ (([] : List AuditEvent).length : Int) = filter.limit := by
    rw [List.length_nil]
    omega
  have hpage : queryPage s filter none = .ok ([], none) := by
    simp only [queryPage, query, htypes, hrunId, queryTypes, Bind.bind, Except.bind, pure, Except.pure,
      if_neg hneg, if_neg hfull]
    rfl
  constructor
  · rintro ⟨pages, hpages, hflat⟩
    rw [← hflat, hpages.unique (.last hpage)]
    rfl
  · intro hnone
    exact ⟨[[]], .last hpage, hnone.symm⟩

theorem queryPaginates_run_iff (hdb : Indexed s.rocks) (hids : RunIdsColonFree s.rocks)
    (hnext : NextSeqFits s.rocks) {runId : Bytes} (htypes : filter.eventTypes = [])
    (hrunId : filter.runId = some runId) (hlimit : 1 ≤ filter.limit) :
    QueryPaginates s filter ↔ ∃ run, storedRun s.rocks runId = some run ∧
      run.BelongsTo filter.orgId filter.projectId := by
  have hneg : ¬ filter.limit < 0 := by omega
  have hpage := fun cursor => @queryPage_of_run filter s runId htypes hrunId hneg cursor
  constructor
  · rintro ⟨pages, hpages, _⟩
    rcases hpages.first with ⟨page, next, hok⟩
    rw [hpage] at hok
    -- a timeline is returned only of a run that is found
    cases hfetch : fetchRun s.rocks runId filter.orgId filter.projectId with
    | error err => simp [timeline, hfetch, Bind.bind, Except.bind] at hok
    | ok run =>
        rcases fetchRun_spec hdb.represents hfetch with ⟨hrun, _, hbelongs⟩
        exact ⟨run, hrun, hbelongs⟩
  · rintro ⟨run, hrun, hbelongs⟩
    have hid := hdb.represents.storedRun_runId hrun
    subst hid
    rcases Int.eq_ofNat_of_zero_le (not_lt.1 hneg) with ⟨limit, hn⟩
    have hpos : 1 ≤ limit := by omega
    have hpages := pages_of_aligned (lists_byRun hdb hids hrun).sorted hpos
      (scans_timelinePage hdb hids hnext hrun hpos)
      (fun _ hc => absurd hc (Option.not_mem_none _)) (aligned_of_same limit fun _ _ _ _ => le_rfl)
    have hsame : timelinePage s run limit = queryPage s filter := by
      funext cursor
      rw [hpage, timelinePage, hbelongs.1, hbelongs.2, hn]
    rcases hpages with ⟨pages, hpages, _, hflat⟩
    refine ⟨pages, hsame ▸ hpages, ?_⟩
    rw [hflat, matchingEvents_of_run hdb.represents htypes hrunId hrun hbelongs]
    rfl

theorem queryPaginates_types_iff (hdb : Indexed s.rocks) (hclear : TypesClear s.rocks filter)
    (hnext : NextSeqFits s.rocks) (htypes : filter.eventTypes.Nodup) (hne : filter.eventTypes ≠ [])
    (hlimit : 1 ≤ filter.limit) :
    QueryPaginates s filter ↔
      Aligned (typeRank filter) filter.limit.toNat (matchingEvents s.rocks filter) := by
  rcases Int.eq_ofNat_of_zero_le (by omega : 0 ≤ filter.limit) with ⟨limit, hn⟩
  have hpos : 1 ≤ limit := by omega
  have hsorted : (matchingEvents s.rocks filter).Pairwise fun a b => a.sequence < b.sequence :=
    hdb.represents.storedEvents_sorted.filter _
  have hstart : Resumes AuditEvent.sequence (matchingEvents s.rocks filter) none :=
    fun _ hc => absurd hc (Option.not_mem_none _)
  have hspec := fun cursor (hc : Resumes AuditEvent.sequence (matchingEvents s.rocks filter) cursor) =>
    queryPage_spec hdb hclear htypes hne
      (hnext.cursorFits hdb.represents (List.filter_subset_self _) hc) hn hpos
  have hscans : Scans AuditEvent.sequence (typeRank filter) limit (matchingEvents s.rocks filter)
      (queryPage s filter) := by
    intro cursor hc
    rcases hspec cursor hc with ⟨scanned, page, next, hok, hpage, _⟩
    exact ⟨scanned, page, next, hok, hpage⟩
  rw [hn, Int.toNat_natCast]
  constructor
  · rintro ⟨pages, hpages, hflat⟩
    refine aligned_of_pages hsorted hpos hscans ?_ hstart hpages hflat
    intro cursor hc page hok
    rcases hspec cursor hc with ⟨scanned, page', next, hok', _, hfull⟩
    cases hok.symm.trans hok'
    exact hfull rfl
  · intro haligned
    rcases pages_of_aligned hsorted hpos hscans hstart haligned with ⟨pages, hpages, _, hflat⟩
    exact ⟨pages, hpages, hflat⟩

end Paginates

end Query

/-- In every store that calls lead to, the pages of a query are the matching events exactly when
they align. -/
theorem queryPaginates_iff (env : Env) (actions : List Action) {filter : QueryFilter}
    (htypes : filter.eventTypes.Nodup) (hlimit : 1 ≤ filter.limit)
    (hids : RunIdsColonFree (runActions env {} actions).rocks)
    (hclear : TypesClear (runActions env {} actions).rocks filter)
    (hnext : NextSeqFits (runActions env {} actions).rocks) :
    QueryPaginates (runActions env {} actions) filter ↔
      PagesAlign (runActions env {} actions).rocks filter := by
  have hs := consistent_runActions env actions
  have hdb : Indexed (runActions env {} actions).rocks :=
    ⟨hs.represents, (indexed_runActions env actions).1, hnext.fits⟩
  cases hlist : filter.eventTypes with
  | nil =>
      cases hrunId : filter.runId with
      | none =>
          rw [queryPaginates_nil_iff hlist hrunId hlimit, PagesAlign, hlist, hrunId]
      | some runId =>
          rw [queryPaginates_run_iff hdb hids hnext hlist hrunId hlimit, PagesAlign, hlist, hrunId]
  | cons et types =>
      have hne : filter.eventTypes ≠ [] := by simp [hlist]
      rw [queryPaginates_types_iff hdb hclear hnext htypes hne hlimit, PagesAlign, hlist]

/-- A query for one type has nothing to align. -/
theorem pagesAlign_singleton {db : Rocks} {filter : QueryFilter} {et : Bytes}
    (h : filter.eventTypes = [et]) : PagesAlign db filter := by
  rw [PagesAlign, h]
  refine aligned_of_same _ fun e he e' he' => ?_
  have htype : ∀ e ∈ matchingEvents db filter, e.eventType = et := by
    intro e he
    have hmatch := (mem_matchingEvents.1 he).2.2.1
    simpa [h] using hmatch
  rw [typeRank, typeRank, htype e he, htype e' he']

/-! ### Three events of two runs -/

theorem runIdsColonFree_of_entries {db : Rocks}
    (h : ∀ entry ∈ db.runs.entries, (0x3a : UInt8) ∉ entry.1) : RunIdsColonFree db := by
  intro runId run hrun
  rcases Option.bind_eq_some_iff.1 hrun with ⟨doc, hget, _⟩
  exact h _ (SortedMap.get_eq_some_iff.1 hget)

namespace PagesExample

open ChainExample (env clock)

/-- A run whose id continues that of the other. -/
def longRun : AgentRun :=
  { ChainExample.run with runId := bytes "run_0012" }

/-- One event of a type, for a run. -/
def append (target : AgentRun) (eventType : String) : Call :=
  .appendEvents target.runId target.orgId target.projectId
    [{ eventId := bytes "evt", eventType := bytes eventType }]

/-- The events of the first run are of one type, the event between them is of another. -/
def actions : List Action :=
  [.call clock (.startRun ChainExample.run), .call clock (.startRun longRun),
    .call clock (append ChainExample.run "tool_call.started"),
    .call clock (append longRun "tool_call.completed"),
    .call clock (append ChainExample.run "tool_call.started")]

def store : Store :=
  runActions env {} actions

def filter (eventTypes : List String) (limit : Int) : QueryFilter :=
  { orgId := ChainExample.run.orgId, projectId := ChainExample.run.projectId,
    eventTypes := eventTypes.map bytes, limit := limit }

/-- The numbers on a page. -/
def sequencesPage (filter : QueryFilter) (cursor : Option Nat) :
    Except StoreError (List Nat × Option Nat) := do
  let (events, next) ← queryPage store filter cursor
  return (events.map AuditEvent.sequence, next)

/-- What is known of the store. -/
theorem evaluated : (∀ entry ∈ store.rocks.runs.entries, (0x3a : UInt8) ∉ entry.1) ∧
    NextSeqFits store.rocks ∧
    (storedRun store.rocks (bytes "run_001")).isSome = true ∧
    TypesClear store.rocks (filter ["tool_call.started"] 1) ∧
    (matchingEvents store.rocks
      (filter ["tool_call.started", "tool_call.completed"] 2)).map AuditEvent.sequence = [1, 2, 3] ∧
    sequencesPage (filter ["tool_call.started", "tool_call.completed"] 2) none =
      .ok ([1, 3], some 3) ∧
    sequencesPage (filter ["tool_call.started", "tool_call.completed"] 2) (some 3) =
      .ok ([], none) := by
  -- in one go, so that the actions are run once
  unfold NextSeqFits TypesClear
  decide +kernel

theorem colonFree : RunIdsColonFree store.rocks :=
  runIdsColonFree_of_entries evaluated.1

theorem nextSeqFits : NextSeqFits store.rocks :=
  evaluated.2.1

end PagesExample

open PagesExample in
/-- One page for each event of the first run. -/
theorem timeline_paginates_single : ∃ run', run'.runId = bytes "run_001" ∧
    ∃ pages, Pages (timelinePage (runActions ChainExample.env {} actions) run' 1) none pages ∧
      (∀ page ∈ pages, (page.length : Int) ≤ 1) ∧
      pages.flatten = runEvents (runActions ChainExample.env {} actions).rocks run'.runId ∧
      pages.flatten.Pairwise fun a b => a.sequence < b.sequence := by
  rcases Option.isSome_iff_exists.1 evaluated.2.2.1 with ⟨run', hrun⟩
  have hid := (consistent_runActions ChainExample.env actions).represents.storedRun_runId hrun
  exact ⟨run', hid, timeline_paginates ChainExample.env actions (hid ▸ hrun) colonFree nextSeqFits
    (by decide)⟩

open PagesExample in
/-- A single type is asked for. -/
theorem queryPaginates_single : QueryPaginates (runActions ChainExample.env {} actions)
    (filter ["tool_call.started"] 1) :=
  (queryPaginates_iff ChainExample.env actions (List.nodup_singleton _) (by decide) colonFree
    evaluated.2.2.2.1 nextSeqFits).2 (pagesAlign_singleton rfl)

open PagesExample in
/-- The first page is filled with both events of the first type, and its cursor is behind the event
of the second type. -/
theorem queryPaginates_skips : ¬ QueryPaginates store
    (filter ["tool_call.started", "tool_call.completed"] 2) := by
  rintro ⟨pages, hpages, hflat⟩
  rcases evaluated with ⟨_, _, _, _, hfound, hfirst, hlast⟩
  have hnumbers : Pages (sequencesPage (filter ["tool_call.started", "tool_call.completed"] 2)) none
      (pages.map (List.map AuditEvent.sequence)) := by
    refine hpages.map AuditEvent.sequence fun cursor page next hok => ?_
    rw [sequencesPage, hok]
    rfl
  have hskipping := hnumbers.unique (.more hfirst (.last hlast))
  rw [← hflat, List.map_flatten, hskipping] at hfound
  cases hfound

end ControlDB
