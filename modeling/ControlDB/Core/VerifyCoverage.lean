import ControlDB.Core.ChainInvariant
import ControlDB.Core.Replay
import ControlDB.Core.Scan
import ControlDB.Core.TamperBinding

/-!
# What `verify` covers

`verify` checks the first 5000 events that the scan of the run's index finds.  It speaks for the
whole run exactly when the run is no longer than that and no key of another run, one that continues
the run's id after a `:`, ends the scan early or leads it to an event.
-/

namespace ControlDB

open Library

/-- The limit that `verify` passes to `timeline`. -/
def verifyLimit : Nat := 5000

/-! ## The claim of a verdict -/

/-- The event with some hashed member changed, under the same number and stored hash. -/
structure Altered (e e' : AuditEvent) : Prop where
  sequence : e'.sequence = e.sequence
  eventHash : e'.eventHash = e.eventHash
  changed : ¬ AgreeOnCovered e e'
  times : IsInt64 e'.ingestedAtMs ∧ IsInt64 e'.occurredAtMs

/-- The store with an event overwritten in place. -/
def Store.overwrite (s : Store) (e : AuditEvent) : Store :=
  { s with rocks := { s.rocks with events := s.rocks.events.put e.sequence (eventToJson e) } }

/-- SHA-256 is injective on the texts of the two events. -/
def HashesApart (sha256 : Sha256) (e e' : AuditEvent) : Prop :=
  Set.InjOn sha256 {canonicalJsonEvent e, canonicalJsonEvent e'}

/-- The run is found valid with all its events, and invalid with any of them altered. -/
structure VerifyCovers (env : Env) (s : Store) (run : AgentRun) : Prop where
  untouched : verify env s run.runId run.orgId run.projectId =
    .ok { runId := run.runId, valid := true, eventCount := run.eventCount }
  altered : ∀ e ∈ runEvents s.rocks run.runId, ∀ e', Altered e e' → HashesApart env.sha256 e e' →
    ∃ res, verify env (s.overwrite e') run.runId run.orgId run.projectId = .ok res ∧
      res.valid = false

/-! ## Keys of other runs -/

/-- An index key of another run that has the prefix of `runId`. -/
def StrayKey (db : Rocks) (runId key : Bytes) : Prop :=
  ∃ e ∈ storedEvents db, e.runId ≠ runId ∧ key = evByRunKey e ∧ runPrefix runId <+: key

/-- The key is too short to carry a number after the prefix of `runId`. -/
def ShortKey (runId key : Bytes) : Prop :=
  key.length < (runPrefix runId).length + 8

/-- A short stray key, at which the scan ends, comes after all keys of the run; and a long one that
the scan gets to while there is room or a key of the run is left leads to no event. -/
structure ScanClear (db : Rocks) (runId : Bytes) : Prop where
  uncut : ∀ key, StrayKey db runId key → ShortKey runId key →
    ∀ e ∈ runEvents db runId, evByRunKey e < key
  unmixed : ∀ key, StrayKey db runId key → ¬ ShortKey runId key →
    (∀ key', StrayKey db runId key' → key' < key → ¬ ShortKey runId key') →
    ((runEvents db runId).length < verifyLimit ∨ ∃ e ∈ runEvents db runId, key < evByRunKey e) →
    db.events.get (keySeq (runPrefix runId) key) = none

/-! ## The keys of the run in the scan -/

section Scan

variable {db : Rocks} {runId : Bytes}

/-- The index keys of a run, in order. -/
def ownKeys (db : Rocks) (runId : Bytes) : List Bytes :=
  (runEvents db runId).map evByRunKey

/-- A store with complete indexes whose numbers fit. -/
structure Indexed (db : Rocks) : Prop where
  represents : Represents db
  events : EventsIndexed db
  fits : SeqFits db

theorem Indexed.fit (hdb : Indexed db) {e : AuditEvent} (he : e ∈ storedEvents db) :
    e.sequence < 2 ^ 64 :=
  lt_of_le_of_lt (hdb.represents.seqBound e he) hdb.fits

theorem Indexed.indexKey_iff (hdb : Indexed db) {key : Bytes} :
    IndexKey db key ↔ ∃ e ∈ storedEvents db, key = evByRunKey e := by
  constructor
  · intro hkey
    rcases Option.isSome_iff_exists.1 hkey with ⟨u, hget⟩
    exact hdb.represents.byRun hget
  · rintro ⟨e, he, rfl⟩
    exact hdb.events.byRun e he

/-- A key under the prefix of a run is its own or a stray one. -/
theorem Indexed.own_or_stray (hdb : Indexed db) {key : Bytes} (hkey : IndexKey db key)
    (hpre : runPrefix runId <+: key) : key ∈ ownKeys db runId ∨ StrayKey db runId key := by
  rcases hdb.indexKey_iff.1 hkey with ⟨e, he, rfl⟩
  by_cases hid : e.runId = runId
  · exact .inl (List.mem_map_of_mem (mem_runEvents.2 ⟨he, hid⟩))
  · exact .inr ⟨e, he, hid, rfl, hpre⟩

theorem StrayKey.indexKey (hdb : Indexed db) {key : Bytes} (h : StrayKey db runId key) :
    IndexKey db key := by
  rcases h with ⟨e, he, _, hkey, _⟩
  exact hdb.indexKey_iff.2 ⟨e, he, hkey⟩

/-- Two stored events with one key are one event. -/
theorem Indexed.event_of_key (hdb : Indexed db) {e e' : AuditEvent} (he : e ∈ storedEvents db)
    (he' : e' ∈ storedEvents db) (h : evByRunKey e = evByRunKey e') : e = e' := by
  have hseq := evByRunKey_inj (hdb.fit he) (hdb.fit he') h
  have hget := hdb.represents.mem_storedEvents.1 he
  have hget' := hdb.represents.mem_storedEvents.1 he'
  rw [hseq, hget'] at hget
  have hdecode := congrArg jsonToEvent (Option.some.inj hget)
  rw [jsonToEvent_eventToJson, jsonToEvent_eventToJson] at hdecode
  exact (Except.ok.inj hdecode).symm

theorem StrayKey.not_own (hdb : Indexed db) {key : Bytes} (h : StrayKey db runId key) :
    key ∉ ownKeys db runId := by
  rintro hown
  rcases h with ⟨e, he, hid, rfl, _⟩
  rcases List.mem_map.1 hown with ⟨e', he', hkey⟩
  rcases mem_runEvents.1 he' with ⟨hstored', hid'⟩
  exact hid (hdb.event_of_key hstored' he hkey ▸ hid')

theorem ownKeys_sorted (hdb : Indexed db) : (ownKeys db runId).Pairwise (· < ·) := by
  have hsorted : (runEvents db runId).Pairwise fun a b => a.sequence < b.sequence :=
    hdb.represents.storedEvents_sorted.filter _
  refine List.pairwise_map.2 ((List.Pairwise.and_mem.1 hsorted).imp ?_)
  rintro a b ⟨ha, hb, hlt⟩
  rcases mem_runEvents.1 ha with ⟨ha, hida⟩
  rcases mem_runEvents.1 hb with ⟨hb, hidb⟩
  exact (evByRunKey_lt_iff (hida.trans hidb.symm) (hdb.fit ha) (hdb.fit hb)).2 hlt

theorem ownKey_continues {e : AuditEvent} (he : e ∈ runEvents db runId) :
    runPrefix runId <+: evByRunKey e ∧ ¬ ShortKey runId (evByRunKey e) := by
  rcases mem_runEvents.1 he with ⟨_, rfl⟩
  refine ⟨List.prefix_append _ _, ?_⟩
  simp [ShortKey, evByRunKey_eq]

theorem hit_ownKey (hdb : Indexed db) {e : AuditEvent} (he : e ∈ runEvents db runId) :
    hit db (runPrefix runId) (evByRunKey e) = some e := by
  rcases mem_runEvents.1 he with ⟨hstored, rfl⟩
  have hget := hdb.represents.mem_storedEvents.1 hstored
  simp [hit, keySeq_evByRunKey (hdb.fit hstored), hget, Except.toOption]

/-- An own key is found as soon as no short key comes before it. -/
theorem ownKey_mem_hitKeys (hdb : Indexed db) {e : AuditEvent} (he : e ∈ runEvents db runId)
    (hbefore : ∀ key, StrayKey db runId key → key < evByRunKey e → ¬ ShortKey runId key) :
    evByRunKey e ∈ hitKeys db (runPrefix runId) := by
  rcases mem_runEvents.1 he with ⟨hstored, _⟩
  rcases ownKey_continues he with ⟨hpre, hlong⟩
  refine mem_hitKeys.2 ⟨mem_scannedKeys.2 ⟨hdb.events.byRun e hstored, hpre, not_lt.1 hlong, ?_⟩, ?_⟩
  · intro key hkey hpre' hlt
    rcases hdb.own_or_stray hkey hpre' with hown | hstray
    · rcases List.mem_map.1 hown with ⟨e', he', rfl⟩
      exact not_lt.1 (ownKey_continues he').2
    · exact not_lt.1 (hbefore key hstray hlt)
  · simp [hit_ownKey hdb he]

/-- What the scan finds of other runs. -/
theorem stray_of_hit (hdb : Indexed db) {key : Bytes} (hkey : key ∈ hitKeys db (runPrefix runId))
    (hout : key ∉ ownKeys db runId) :
    StrayKey db runId key ∧ ¬ ShortKey runId key ∧
      (∀ key', StrayKey db runId key' → key' < key → ¬ ShortKey runId key') ∧
      db.events.get (keySeq (runPrefix runId) key) ≠ none := by
  rcases mem_hitKeys.1 hkey with ⟨hscanned, hhit⟩
  rcases mem_scannedKeys.1 hscanned with ⟨hindex, hpre, hlong, hbefore⟩
  refine ⟨(hdb.own_or_stray hindex hpre).resolve_left hout, not_lt.2 hlong, ?_, ?_⟩
  · intro key' hstray hlt
    have hindex' := hstray.indexKey hdb
    rcases hstray with ⟨_, _, _, _, hpre'⟩
    exact not_lt.2 (hbefore key' hindex' hpre' hlt)
  · intro hnone
    simp [hit, hnone] at hhit

/-! ### A clear scan finds the run -/

theorem hitKeys_of_clear (hdb : Indexed db) (hclear : ScanClear db runId)
    (hlen : (runEvents db runId).length ≤ verifyLimit) :
    (hitKeys db (runPrefix runId)).take verifyLimit = ownKeys db runId := by
  have hown : ∀ key ∈ ownKeys db runId, key ∈ hitKeys db (runPrefix runId) := by
    intro key hkey
    rcases List.mem_map.1 hkey with ⟨e, he, rfl⟩
    refine ownKey_mem_hitKeys hdb he fun key' hstray hlt hshort => ?_
    exact (hclear.uncut key' hstray hshort e he).asymm hlt
  -- a hit of another run is behind all own keys, and only there if the limit is reached
  have hstray : ∀ key ∈ hitKeys db (runPrefix runId), key ∉ ownKeys db runId →
      ¬ (runEvents db runId).length < verifyLimit ∧ ∀ own ∈ ownKeys db runId, own < key := by
    intro key hkey hout
    rcases stray_of_hit hdb hkey hout with ⟨hstray, hlong, hbefore, hfound⟩
    have hcond := fun h => hfound (hclear.unmixed key hstray hlong hbefore h)
    refine ⟨fun hroom => hcond (.inl hroom), fun own hmem => ?_⟩
    rcases List.mem_map.1 hmem with ⟨e, he, rfl⟩
    rcases lt_trichotomy (evByRunKey e) key with hlt | heq | hgt
    · exact hlt
    · exact absurd (heq ▸ hmem) hout
    · exact absurd (.inr ⟨e, he, hgt⟩) hcond
  have hinitial : ownKeys db runId <+: hitKeys db (runPrefix runId) :=
    isPrefix_of_initial (hitKeys_sorted db _) (ownKeys_sorted hdb) hown
      fun key hkey hout => (hstray key hkey hout).2
  rcases hinitial with ⟨rest, hrest⟩
  have hlength : (ownKeys db runId).length = (runEvents db runId).length := List.length_map _
  rw [← hrest]
  rcases Nat.lt_or_ge (runEvents db runId).length verifyLimit with hroom | hfull
  · have hnil : rest = [] := by
      rcases rest with _ | ⟨key, rest⟩
      · rfl
      · have hmem : key ∈ hitKeys db (runPrefix runId) := by simp [← hrest]
        have hout : key ∉ ownKeys db runId := by
          intro hmem'
          have hsorted := hitKeys_sorted db (runPrefix runId)
          rw [← hrest] at hsorted
          exact lt_irrefl _ ((List.pairwise_append.1 hsorted).2.2 key hmem' key List.mem_cons_self)
        exact absurd hroom (hstray key hmem hout).1
    rw [hnil, List.append_nil, List.take_of_length_le (hlength ▸ hlen)]
  · have hexact : verifyLimit = (ownKeys db runId).length := by omega
    rw [hexact, List.take_left]

theorem scannedEvents_of_clear (hdb : Indexed db) (hclear : ScanClear db runId)
    (hlen : (runEvents db runId).length ≤ verifyLimit) :
    scannedEvents db (runPrefix runId) verifyLimit = runEvents db runId := by
  rw [scannedEvents, hitKeys_of_clear hdb hclear hlen, ownKeys, List.map_map]
  calc (runEvents db runId).map ((fun key => (hit db (runPrefix runId) key).getD {}) ∘ evByRunKey)
      = (runEvents db runId).map id :=
        List.map_congr_left fun e he => by simp [hit_ownKey hdb he]
    _ = runEvents db runId := List.map_id _

/-! ### A scan that finds the run is clear -/

/-- If the own keys are what the scan finds, nothing of another run is in its way. -/
theorem scanClear_of_hitKeys (hdb : Indexed db)
    (hfound : ∀ key, key ∈ (hitKeys db (runPrefix runId)).take verifyLimit ↔
      key ∈ ownKeys db runId)
    (hcount : ((hitKeys db (runPrefix runId)).take verifyLimit).length =
      (runEvents db runId).length) : ScanClear db runId := by
  have hown : ∀ e ∈ runEvents db runId,
      evByRunKey e ∈ (hitKeys db (runPrefix runId)).take verifyLimit := fun e he =>
    (hfound _).2 (List.mem_map_of_mem he)
  constructor
  · -- a short key before an own one would have ended the scan
    intro key hstray hshort e he
    rcases lt_trichotomy (evByRunKey e) key with hlt | heq | hgt
    · exact hlt
    · exact absurd (heq ▸ hshort) (ownKey_continues he).2
    · have hscanned := (mem_hitKeys.1 (List.mem_of_mem_take (hown e he))).1
      have hindex := hstray.indexKey hdb
      rcases hstray with ⟨_, _, _, _, hpre⟩
      exact absurd hshort (not_lt.2 ((mem_scannedKeys.1 hscanned).2.2.2 key hindex hpre hgt))
  · -- a key that is reached and leads to an event would have been found as well
    intro key hstray hlong hbefore hroom
    have hout := hstray.not_own hdb
    by_contra hget
    rcases Option.ne_none_iff_exists'.1 hget with ⟨doc, hdoc⟩
    rcases hdb.represents.eventsDecode _ _ hdoc with ⟨e, hdecode⟩
    have hindex := hstray.indexKey hdb
    have hpre : runPrefix runId <+: key := hstray.choose_spec.2.2.2
    have hhit : key ∈ hitKeys db (runPrefix runId) := by
      refine mem_hitKeys.2 ⟨mem_scannedKeys.2 ⟨hindex, hpre, not_lt.1 hlong, ?_⟩, ?_⟩
      · intro key' hindex' hpre' hlt
        rcases hdb.own_or_stray hindex' hpre' with hmem | hstray'
        · rcases List.mem_map.1 hmem with ⟨e', he', rfl⟩
          exact not_lt.1 (ownKey_continues he').2
        · exact not_lt.1 (hbefore key' hstray' hlt)
      · simp [hit, hdoc, hdecode, Except.toOption]
    refine hout ((hfound key).1 ?_)
    rcases hroom with hroom | ⟨e', he', hlt⟩
    · have hall : (hitKeys db (runPrefix runId)).length ≤ verifyLimit := by
        rw [List.length_take] at hcount
        omega
      rwa [List.take_of_length_le hall]
    · exact mem_take_of_lt (hitKeys_sorted db _) (hown e' he') hhit hlt

end Scan

/-! ## The verdict -/

theorem fetchRun_of_storedRun {db : Rocks} {runId : Bytes} {run : AgentRun}
    (h : storedRun db runId = some run) : fetchRun db runId run.orgId run.projectId = .ok run := by
  rcases Option.bind_eq_some_iff.1 h with ⟨doc, hget, hdecode⟩
  have hdoc : jsonToRun doc = .ok run := by
    cases hread : jsonToRun doc with
    | error e => simp [hread, Except.toOption] at hdecode
    | ok r => simpa [hread, Except.toOption] using hdecode
  simp [fetchRun, hget, hdoc, Bind.bind, Except.bind, pure, Except.pure]

theorem verify_eq {env : Env} {s : Store} (hdb : EventsDecode s.rocks) {runId : Bytes}
    {run : AgentRun} (hrun : storedRun s.rocks runId = some run) :
    verify env s runId run.orgId run.projectId =
      .ok (verifyChain env.sha256 (scannedEvents s.rocks (runPrefix runId) verifyLimit) runId) := by
  rcases timeline_events hdb (fetchRun_of_storedRun hrun) verifyLimit with ⟨tl, htl, hevents⟩
  have htl' : timeline s runId run.orgId run.projectId 5000 none = .ok tl := htl
  simp [verify, htl', hevents, Bind.bind, Except.bind, pure, Except.pure]

theorem verifyChain_eventCount (sha256 : Sha256) (events : List AuditEvent) (runId : Bytes) :
    (verifyChain sha256 events runId).eventCount = events.length := by
  unfold verifyChain
  cases verifyLoop sha256 [] events <;> rfl

theorem verifyChain_of_valid {sha256 : Sha256} {events : List AuditEvent} {runId : Bytes}
    (h : (verifyChain sha256 events runId).valid = true) :
    verifyChain sha256 events runId =
      { runId := runId, valid := true, eventCount := events.length } := by
  unfold verifyChain at h ⊢
  cases hloop : verifyLoop sha256 [] events with
  | none => rfl
  | some eventId => simp [hloop] at h

section Overwrite

variable {s : Store} {e e' : AuditEvent}

theorem hit_overwrite (scanPrefix key : Bytes) :
    hit (s.overwrite e').rocks scanPrefix key =
      if keySeq scanPrefix key = e'.sequence then some e' else hit s.rocks scanPrefix key := by
  have hget : (s.overwrite e').rocks.events.get (keySeq scanPrefix key) =
      if keySeq scanPrefix key = e'.sequence then some (eventToJson e')
      else s.rocks.events.get (keySeq scanPrefix key) := SortedMap.get_put _ _ _ _
  unfold hit
  rw [hget]
  split_ifs
  · simp [Except.toOption]
  · rfl

/-- Overwriting a stored event changes no key that the scan finds. -/
theorem hitKeys_overwrite (hdb : Represents s.rocks) (he : e ∈ storedEvents s.rocks)
    (hseq : e'.sequence = e.sequence) (scanPrefix : Bytes) :
    hitKeys (s.overwrite e').rocks scanPrefix = hitKeys s.rocks scanPrefix := by
  have hsame : ∀ key, (hit (s.overwrite e').rocks scanPrefix key).isSome =
      (hit s.rocks scanPrefix key).isSome := by
    intro key
    rw [hit_overwrite]
    split_ifs with hkey
    · have hget : s.rocks.events.get (keySeq scanPrefix key) = some (eventToJson e) := by
        rw [hkey, hseq]
        exact hdb.mem_storedEvents.1 he
      simp [hit, hget, Except.toOption]
    · rfl
  simp only [hitKeys, hsame]
  rfl

theorem eventsDecode_overwrite (hdb : EventsDecode s.rocks) :
    EventsDecode (s.overwrite e').rocks := by
  intro seq doc hget
  have hput : (s.rocks.events.put e'.sequence (eventToJson e')).get seq = some doc := hget
  rw [SortedMap.get_put] at hput
  split_ifs at hput with hkey
  · exact ⟨e', by rw [← Option.some.inj hput, jsonToEvent_eventToJson]⟩
  · exact hdb seq doc hput

end Overwrite

section Verdict

variable {env : Env} {s : Store} {run : AgentRun}

/-- An altered event among those that are checked is noticed. -/
theorem verifyChain_altered {events : List AuditEvent} {e e' : AuditEvent} {runId : Bytes}
    (hhash : computeEventHash env.sha256 e = e.eventHash)
    (htimes : IsInt64 e.ingestedAtMs ∧ IsInt64 e.occurredAtMs) (halt : Altered e e')
    (hapart : HashesApart env.sha256 e e') (hmem : e' ∈ events) :
    (verifyChain env.sha256 events runId).valid = false := by
  by_contra hvalid
  have hchain := verifyChain_valid_iff.1 (Bool.not_eq_false _ ▸ hvalid)
  have hhash' := hchain.eventHash_eq hmem
  have hsame : computeEventHash env.sha256 e = computeEventHash env.sha256 e' := by
    rw [hhash, hhash', halt.eventHash]
  have htext : canonicalJsonEvent e = canonicalJsonEvent e' :=
    hapart (.inl rfl) (.inr rfl) (sha256Hex_inj hsame)
  exact halt.changed (canonicalJsonEvent_inj htimes.1 halt.times.1 htimes.2 halt.times.2 htext)

theorem verifyCovers_of_clear (hdb : Indexed s.rocks)
    (hrun : storedRun s.rocks run.runId = some run)
    (hsummary : Ledger.Summarizes env.sha256 run (runEvents s.rocks run.runId))
    (htimes : ∀ e ∈ runEvents s.rocks run.runId, IsInt64 e.ingestedAtMs ∧ IsInt64 e.occurredAtMs)
    (hlen : (runEvents s.rocks run.runId).length ≤ verifyLimit)
    (hclear : ScanClear s.rocks run.runId) : VerifyCovers env s run := by
  have hdecode := hdb.represents.eventsDecode
  constructor
  · have hvalid := verifyChain_of_valid
      (verifyChain_valid_iff.2 hsummary.chain : (verifyChain env.sha256 _ run.runId).valid = true)
    rw [verify_eq hdecode hrun, scannedEvents_of_clear hdb hclear hlen, hvalid, hsummary.count]
  · intro e he e' halt hapart
    rcases mem_runEvents.1 he with ⟨hstored, hid⟩
    refine ⟨_, verify_eq (eventsDecode_overwrite hdecode) hrun, ?_⟩
    refine verifyChain_altered (hsummary.chain.eventHash_eq he) (htimes e he) halt hapart ?_
    -- the altered event is where the scan finds the key of the original
    have hkey : evByRunKey e ∈
        (hitKeys (s.overwrite e').rocks (runPrefix run.runId)).take verifyLimit := by
      rw [hitKeys_overwrite hdb.represents hstored halt.sequence, hitKeys_of_clear hdb hclear hlen]
      exact List.mem_map_of_mem he
    have hseq : keySeq (runPrefix run.runId) (evByRunKey e) = e'.sequence := by
      rw [← hid, keySeq_evByRunKey (hdb.fit hstored), halt.sequence]
    exact List.mem_map.2 ⟨evByRunKey e, hkey, by simp [hit_overwrite, hseq]⟩

/-- A verdict on the whole run counts its events, so the run is within the limit. -/
theorem VerifyCovers.length (hdb : Represents s.rocks)
    (hrun : storedRun s.rocks run.runId = some run)
    (hsummary : Ledger.Summarizes env.sha256 run (runEvents s.rocks run.runId))
    (h : VerifyCovers env s run) :
    ((hitKeys s.rocks (runPrefix run.runId)).take verifyLimit).length =
      (runEvents s.rocks run.runId).length := by
  have hverdict := h.untouched
  rw [verify_eq hdb.eventsDecode hrun] at hverdict
  have hcount : ((scannedEvents s.rocks (runPrefix run.runId) verifyLimit).length : Int) =
      run.eventCount := by
    rw [← verifyChain_eventCount env.sha256 _ run.runId, Except.ok.inj hverdict]
  rw [hsummary.count, scannedEvents, List.length_map] at hcount
  exact Int.ofNat.inj hcount

theorem scanClear_of_verifyCovers (hdb : Indexed s.rocks)
    (hrun : storedRun s.rocks run.runId = some run)
    (hsummary : Ledger.Summarizes env.sha256 run (runEvents s.rocks run.runId))
    (hvisible : ∀ e ∈ runEvents s.rocks run.runId, ∃ e', Altered e e' ∧ HashesApart env.sha256 e e')
    (h : VerifyCovers env s run) : ScanClear s.rocks run.runId := by
  have hdecode := hdb.represents.eventsDecode
  have hcount := h.length hdb.represents hrun hsummary
  have hown : ∀ e ∈ runEvents s.rocks run.runId,
      evByRunKey e ∈ (hitKeys s.rocks (runPrefix run.runId)).take verifyLimit := by
    intro e he
    rcases mem_runEvents.1 he with ⟨hstored, hid⟩
    rcases hvisible e he with ⟨e', halt, hapart⟩
    -- some key that is checked leads to the event: otherwise altering it would go unnoticed
    have hread : ∃ key ∈ (hitKeys s.rocks (runPrefix run.runId)).take verifyLimit,
        keySeq (runPrefix run.runId) key = e.sequence := by
      by_contra hunread
      rcases h.altered e he e' halt hapart with ⟨res, hres, hinvalid⟩
      have hsame : scannedEvents (s.overwrite e').rocks (runPrefix run.runId) verifyLimit =
          scannedEvents s.rocks (runPrefix run.runId) verifyLimit := by
        rw [scannedEvents, scannedEvents, hitKeys_overwrite hdb.represents hstored halt.sequence]
        refine List.map_congr_left fun key hkey => ?_
        have hother : keySeq (runPrefix run.runId) key ≠ e'.sequence := by
          rw [halt.sequence]
          exact fun hseq => hunread ⟨key, hkey, hseq⟩
        rw [hit_overwrite, if_neg hother]
      have hverdict := h.untouched
      rw [verify_eq hdecode hrun, ← hsame,
        ← verify_eq (eventsDecode_overwrite hdecode) hrun, hres] at hverdict
      rw [Except.ok.inj hverdict] at hinvalid
      cases hinvalid
    rcases hread with ⟨key, hkey, hseq⟩
    rcases mem_scannedKeys.1 (mem_hitKeys.1 (List.mem_of_mem_take hkey)).1 with
      ⟨hindex, hpre, hlong, hbefore⟩
    rcases key_eq_append hpre hlong with ⟨rest, hcont⟩
    have hkey' : key = evByRunKey e ++ rest := by rw [hcont, hseq, evByRunKey_eq, hid]
    have hnot : ¬ key < evByRunKey e := hkey' ▸ not_append_lt _ _
    have hhit : evByRunKey e ∈ hitKeys s.rocks (runPrefix run.runId) := by
      refine ownKey_mem_hitKeys hdb he fun key' hstray hlt => ?_
      have hlt' : key' < key := lt_of_lt_of_le hlt (not_lt.1 hnot)
      have hindex' := hstray.indexKey hdb
      have hpre' : runPrefix run.runId <+: key' := hstray.choose_spec.2.2.2
      exact not_lt.2 (hbefore key' hindex' hpre' hlt')
    rcases lt_or_eq_of_le (not_lt.1 hnot) with hlt | heq
    · exact mem_take_of_lt (hitKeys_sorted _ _) hkey hhit hlt
    · exact heq ▸ hkey
  refine scanClear_of_hitKeys hdb (fun key => ⟨fun hkey => ?_, fun hkey => ?_⟩) hcount
  · -- as many keys are found as the run has events, so they are the own keys
    have hsub : ownKeys s.rocks run.runId ⊆
        (hitKeys s.rocks (runPrefix run.runId)).take verifyLimit := by
      intro own hmem
      rcases List.mem_map.1 hmem with ⟨e, he, rfl⟩
      exact hown e he
    have hnodup : (ownKeys s.rocks run.runId).Nodup := (ownKeys_sorted hdb).imp fun hlt => hlt.ne
    have hperm := (List.subperm_of_subset hnodup hsub).perm_of_length_le
      (by rw [hcount, ownKeys, List.length_map])
    exact hperm.mem_iff.2 hkey
  · rcases List.mem_map.1 hkey with ⟨e, he, rfl⟩
    exact hown e he

end Verdict

/-! ## Runs -/

/-- In every store that calls lead to, `verify` covers a stored run exactly when the run has at
most 5000 events and its scan is clear. -/
theorem verifyCovers_iff (env : Env) {actions : List Action} (hfresh : StartsFresh actions)
    {run : AgentRun} (hrun : storedRun (runActions env {} actions).rocks run.runId = some run)
    (hfits : SeqFits (runActions env {} actions).rocks)
    (htimes : ∀ e ∈ runEvents (runActions env {} actions).rocks run.runId,
      IsInt64 e.ingestedAtMs ∧ IsInt64 e.occurredAtMs)
    (hvisible : ∀ e ∈ runEvents (runActions env {} actions).rocks run.runId,
      ∃ e', Altered e e' ∧ HashesApart env.sha256 e e') :
    VerifyCovers env (runActions env {} actions) run ↔
      (runEvents (runActions env {} actions).rocks run.runId).length ≤ verifyLimit ∧
        ScanClear (runActions env {} actions).rocks run.runId := by
  rcases chained_runActions env hfresh with ⟨hs, hchained⟩
  have hdb : Indexed (runActions env {} actions).rocks :=
    ⟨hs.represents, (indexed_runActions env actions).1, hfits⟩
  have hsummary := hchained.summary hrun
  constructor
  · intro h
    refine ⟨?_, scanClear_of_verifyCovers hdb hrun hsummary hvisible h⟩
    rw [← h.length hs.represents hrun hsummary]
    exact List.length_take_le _ _
  · rintro ⟨hlen, hclear⟩
    exact verifyCovers_of_clear hdb hrun hsummary htimes hlen hclear

/-- A run whose record counts more than 5000 events is never covered. -/
theorem not_verifyCovers_of_long {env : Env} {actions : List Action}
    (hfresh : StartsFresh actions) {run : AgentRun}
    (hrun : storedRun (runActions env {} actions).rocks run.runId = some run)
    (hlong : (verifyLimit : Int) < run.eventCount) :
    ¬ VerifyCovers env (runActions env {} actions) run := by
  intro hcovers
  rcases chained_runActions env hfresh with ⟨hs, hchained⟩
  have hsummary := hchained.summary hrun
  have hlength := hcovers.length hs.represents hrun hsummary
  have hcount : run.eventCount =
      (runEvents (runActions env {} actions).rocks run.runId).length := hsummary.count
  have hlimit := List.length_take_le verifyLimit
    (hitKeys (runActions env {} actions).rocks (runPrefix run.runId))
  omega

/-- Events without a known key are all accepted. -/
theorem length_accepted {env : Env} {now : Nat → Int} {s : Store} {run : AgentRun}
    {runId orgId projectId : Bytes} {events : List AuditEvent}
    (h : ∀ ev ∈ events, ¬ isDuplicate s.rocks ev) :
    (s.accepted env now run runId orgId projectId events).length = events.length := by
  rw [length_accepted_eq_countP]
  exact List.countP_eq_length.2 fun ev hev => decide_eq_true (h ev hev)

/-! ### Two runs -/

/-- The event with one more letter in its environment. -/
def respell (e : AuditEvent) : AuditEvent :=
  { e with environment := e.environment ++ bytes "x" }

theorem altered_respell {e : AuditEvent}
    (htimes : IsInt64 e.ingestedAtMs ∧ IsInt64 e.occurredAtMs) : Altered e (respell e) where
  sequence := rfl
  eventHash := rfl
  changed h := by
    have henv : e.environment = e.environment ++ bytes "x" := h.environment
    simp [bytes] at henv
  times := htimes

open ChainExample in
theorem verifyCovers_iff_example : VerifyCovers env (runActions env {} actions) finalRun := by
  have hfresh : StartsFresh actions := by
    intro a ha c hc
    simp only [actions, List.mem_cons, List.not_mem_nil, or_false] at ha
    rcases ha with rfl | rfl | rfl | rfl | rfl <;> cases hc <;>
      simp [Call.StartsFresh, append, ChainExample.run]
  -- evaluated in one go, so that the actions are run once
  have hall : storedRun (runActions env {} actions).rocks finalRun.runId = some finalRun ∧
      SeqFits (runActions env {} actions).rocks ∧
      (∀ e ∈ runEvents (runActions env {} actions).rocks finalRun.runId,
        IsInt64 e.ingestedAtMs ∧ IsInt64 e.occurredAtMs) ∧
      (∀ e ∈ runEvents (runActions env {} actions).rocks finalRun.runId,
        env.sha256 (canonicalJsonEvent e) ≠ env.sha256 (canonicalJsonEvent (respell e))) ∧
      (∀ e ∈ storedEvents (runActions env {} actions).rocks, e.runId = finalRun.runId) ∧
      (runEvents (runActions env {} actions).rocks finalRun.runId).length ≤ verifyLimit := by
    unfold SeqFits
    decide +kernel
  rcases hall with ⟨hrun, hfits, htimes, hdigests, halone, hlen⟩
  have hvisible : ∀ e ∈ runEvents (runActions env {} actions).rocks finalRun.runId,
      ∃ e', Altered e e' ∧ HashesApart env.sha256 e e' := by
    intro e he
    refine ⟨respell e, altered_respell (htimes e he), ?_⟩
    rintro t (rfl | rfl) t' (rfl | rfl) hsame
    · rfl
    · exact absurd hsame (hdigests e he)
    · exact absurd hsame.symm (hdigests e he)
    · rfl
  -- the store has a single run, so no key strays
  have hnone : ∀ key, ¬ StrayKey (runActions env {} actions).rocks finalRun.runId key := by
    rintro key ⟨e, he, hid, _⟩
    exact hid (halone e he)
  exact (verifyCovers_iff env hfresh hrun hfits htimes hvisible).2
    ⟨hlen, fun key h => absurd h (hnone key), fun key h => absurd h (hnone key)⟩

/-- When every document can be dumped, the loop does not throw. -/
theorem appendLoop_total {env : Env} (hdump : ∀ doc, env.dump doc ≠ none) (now : Nat → Int)
    (db : Rocks) (run : AgentRun) (runId orgId projectId : Bytes) (i : Nat)
    (events : List AuditEvent) (st : AppendState) :
    ∃ st', appendLoop env now db run runId orgId projectId i events st = .ok st' := by
  induction events generalizing i st with
  | nil => exact ⟨st, rfl⟩
  | cons ev rest ih =>
      unfold appendLoop
      split_ifs with hdup
      · exact ih _ _
      · dsimp only
        split
        · rename_i hnone
          exact absurd hnone (hdump _)
        · exact ih _ _

theorem appendEvents_returns {env : Env} (hdump : ∀ doc, env.dump doc ≠ none) (now : Nat → Int)
    {s : Store} {runId orgId projectId : Bytes} (events : List AuditEvent) {run : AgentRun}
    (hfetch : fetchRun s.rocks runId orgId projectId = .ok run) :
    ∃ results, (appendEvents env now s runId orgId projectId events).result = .ok results := by
  rcases appendLoop_total hdump now s.rocks run runId orgId projectId 0 events
    { prevHash := run.lastEventHash, seq := s.globalSeq, walSeq := s.wal.lastSeq } with ⟨st, hloop⟩
  simp only [appendEvents, hfetch, hloop]
  split
  · rename_i hnone
    exact absurd hnone (hdump _)
  · exact ⟨_, rfl⟩

namespace VerifyExample

open ChainExample (run clock append)

/-- An event without a key. -/
def event : AuditEvent :=
  { eventId := bytes "evt_001", eventType := bytes "tool_call.completed" }

def opened : List Action := [.call clock (.startRun run)]

/-- One batch of 5001 events. -/
def batch : List AuditEvent := List.replicate 5001 event

end VerifyExample

open ChainExample VerifyExample in
/-- A run of 5001 events is reported with 5000. -/
theorem verifyCovers_fails_long_run :
    ∃ run', storedRun (runActions ChainExample.env {} (opened ++ [.call clock (append batch)])).rocks
        run'.runId = some run' ∧ run'.eventCount = 5001 ∧
      ¬ VerifyCovers ChainExample.env
        (runActions ChainExample.env {} (opened ++ [.call clock (append batch)])) run' := by
  have hfresh : StartsFresh (opened ++ [.call clock (append batch)]) := by
    intro a ha c hc
    simp only [opened, List.cons_append, List.nil_append, List.mem_cons, List.not_mem_nil,
      or_false] at ha
    rcases ha with rfl | rfl <;> cases hc <;> simp [Call.StartsFresh, append, ChainExample.run]
  have hopened : storedRun (runActions ChainExample.env {} opened).rocks ChainExample.run.runId =
      some ChainExample.run := by
    decide +kernel
  have hdump : ∀ doc, ChainExample.env.dump doc ≠ none := fun doc => Option.some_ne_none _
  have hfetch := fetchRun_of_storedRun hopened
  rcases appendEvents_returns hdump clock batch hfetch with ⟨results, hok⟩
  rcases appendReturned_of_ok hok with ⟨run₀, r, hreturned, _⟩
  have hrun₀ : run₀ = ChainExample.run := Except.ok.inj (hreturned.fetch.symm.trans hfetch)
  subst hrun₀
  have hid : r.runId = ChainExample.run.runId := hreturned.same.runId
  have hstored : storedRun (runActions ChainExample.env {}
      (opened ++ [.call clock (append batch)])).rocks r.runId = some r := by
    rw [runActions_concat, hid]
    simp only [Action.run, Call.effects, append, hreturned.rocks]
    exact storedRun_appendBatch _ _ _ _ _
  -- no event of the batch has a key, so all of them are accepted
  have hfreshBatch : ∀ ev ∈ batch, ¬ isDuplicate (runActions ChainExample.env {} opened).rocks ev := by
    intro ev hev
    rcases List.eq_of_mem_replicate hev with rfl
    simp [isDuplicate, VerifyExample.event]
  have hcount : r.eventCount = 5001 := by
    have hzero : ChainExample.run.eventCount = 0 := rfl
    have hlength : batch.length = 5001 := List.length_replicate
    rw [hreturned.count, length_accepted hfreshBatch, hzero, hlength]
    omega
  have hlong : (verifyLimit : Int) < r.eventCount := by
    rw [hcount]
    decide
  exact ⟨r, hstored, hcount, not_verifyCovers_of_long hfresh hstored hlong⟩

end ControlDB
