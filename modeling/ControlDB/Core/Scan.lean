import ControlDB.Library.KeyOrder
import ControlDB.Core.IndexIntegrity

/-!
# The scan of `timeline`

Which index keys the scan reads, and what it makes of them: the keys that continue the prefix, up
to the first that is too short to carry a sequence number, and of these the ones that lead to a
stored event, as many as the limit allows.
-/

namespace ControlDB

open Library

/-- The prefix of a run in its index. -/
def runPrefix (runId : Bytes) : Bytes :=
  runId ++ bytes ":"

/-- The number a scan reads in a key. -/
def keySeq (scanPrefix key : Bytes) : Nat :=
  keyToSeq (key.drop scanPrefix.length)

/-- The event a key leads to. -/
def hit (db : Rocks) (scanPrefix key : Bytes) : Option AuditEvent :=
  (db.events.get (keySeq scanPrefix key)).bind fun doc => (jsonToEvent doc).toOption

/-- The key has the prefix and eight more bytes. -/
def Continues (scanPrefix key : Bytes) : Prop :=
  key.take scanPrefix.length = scanPrefix ∧ scanPrefix.length + 8 ≤ key.length

instance (scanPrefix key : Bytes) : Decidable (Continues scanPrefix key) :=
  inferInstanceAs (Decidable (_ ∧ _))

/-- The keys a scan without limit reads before it ends. -/
def scannedKeys (db : Rocks) (scanPrefix : Bytes) : List Bytes :=
  ((db.evByRun.seek scanPrefix).map Prod.fst).takeWhile fun key => decide (Continues scanPrefix key)

/-- Those of them that lead to an event. -/
def hitKeys (db : Rocks) (scanPrefix : Bytes) : List Bytes :=
  (scannedKeys db scanPrefix).filter fun key => (hit db scanPrefix key).isSome

/-- The events of a timeline with this limit. -/
def scannedEvents (db : Rocks) (scanPrefix : Bytes) (limit : Nat) : List AuditEvent :=
  ((hitKeys db scanPrefix).take limit).map fun key => (hit db scanPrefix key).getD {}

/-- Every document of the events column is one. -/
def EventsDecode (db : Rocks) : Prop :=
  ∀ seq doc, db.events.get seq = some doc → ∃ e, jsonToEvent doc = .ok e

theorem Represents.eventsDecode {db : Rocks} (hdb : Represents db) : EventsDecode db := by
  intro seq doc hget
  rcases hdb.eventDoc hget with ⟨e, rfl, _⟩
  exact ⟨e, jsonToEvent_eventToJson e⟩

/-! ## The loop -/

/-- The loop takes events off the keys it walks until the limit is reached. -/
theorem timelineLoop_eq {db : Rocks} (hdb : EventsDecode db) (scanPrefix : Bytes) (limit : Nat)
    (entries : List (Bytes × Unit)) (events : List AuditEvent) (lastSeq : Nat)
    (hle : events.length ≤ limit) :
    ∃ lastSeq' valid, timelineLoop db scanPrefix limit entries events lastSeq =
      .ok (events ++ (((entries.map Prod.fst).takeWhile fun key =>
        decide (Continues scanPrefix key)).filterMap (hit db scanPrefix)).take
          (limit - events.length), lastSeq', valid) := by
  induction entries generalizing events lastSeq with
  | nil => exact ⟨lastSeq, false, by simp [timelineLoop]⟩
  | cons entry rest ih =>
      rcases entry with ⟨key, u⟩
      unfold timelineLoop
      by_cases hfull : ¬ (events.length : Int) < (limit : Int)
      · have hroom : limit - events.length = 0 := by omega
        exact ⟨lastSeq, true, by simp [hfull, hroom]⟩
      -- a key of the scan is long enough to carry a sequence number
      by_cases hcont : Continues scanPrefix key
      · have hlong : ¬ key.length < scanPrefix.length + 8 := not_lt.2 hcont.2
        rw [if_neg hfull, if_neg (not_not.2 hcont.1), if_neg hlong]
        cases hget : db.events.get (keySeq scanPrefix key) with
        | none =>
            -- an orphan: the loop goes on without it
            have hhit : hit db scanPrefix key = none := by simp [hit, hget]
            unfold keySeq at hget
            rcases ih events lastSeq hle with ⟨lastSeq', valid, hrest⟩
            refine ⟨lastSeq', valid, ?_⟩
            simpa [hget, hcont, hhit] using hrest
        | some doc =>
            rcases hdb _ _ hget with ⟨e, hdecode⟩
            have hhit : hit db scanPrefix key = some e := by simp [hit, hget, hdecode, Except.toOption]
            unfold keySeq at hget
            have hlt : events.length < limit := by omega
            rcases ih (events ++ [e]) (keyToSeq (key.drop scanPrefix.length))
              (by simpa using Nat.succ_le_of_lt hlt) with ⟨lastSeq', valid, hrest⟩
            -- one place fewer for the rest
            have hroom : limit - events.length = limit - (events ++ [e]).length + 1 := by
              simp only [List.length_append, List.length_singleton]
              omega
            refine ⟨lastSeq', valid, ?_⟩
            simp only [hget, hdecode, Bind.bind, Except.bind]
            rw [hrest, hroom]
            simp [hcont, hhit]
      · refine ⟨lastSeq, true, ?_⟩
        rw [if_neg hfull]
        -- the scan ends at a key outside the prefix, or at one that is too short
        by_cases htake : key.take scanPrefix.length = scanPrefix
        · have hshort : key.length < scanPrefix.length + 8 :=
            not_le.1 fun hlong => hcont ⟨htake, hlong⟩
          simp [htake, hshort, hcont]
        · simp [htake, hcont]

theorem filterMap_hit (db : Rocks) (scanPrefix : Bytes) (limit : Nat) :
    ((scannedKeys db scanPrefix).filterMap (hit db scanPrefix)).take limit =
      scannedEvents db scanPrefix limit := by
  have hmap : ∀ l : List Bytes, l.filterMap (hit db scanPrefix) =
      (l.filter fun key => (hit db scanPrefix key).isSome).map fun key =>
        (hit db scanPrefix key).getD {} := by
    intro l
    induction l with
    | nil => rfl
    | cons key l ih =>
        cases hkey : hit db scanPrefix key with
        | none => simp [hkey, ih]
        | some e => simp [hkey, ih]
  rw [scannedEvents, hmap, List.map_take]
  rfl

/-- The events of a timeline from the start. -/
theorem timeline_events {s : Store} (hdb : EventsDecode s.rocks) {runId orgId projectId : Bytes}
    {run : AgentRun} (hfetch : fetchRun s.rocks runId orgId projectId = .ok run) (limit : Nat) :
    ∃ tl, timeline s runId orgId projectId limit none = .ok tl ∧
      tl.events = scannedEvents s.rocks (runPrefix runId) limit := by
  have hloop := timelineLoop_eq hdb (runPrefix runId) limit
    (s.rocks.evByRun.seek (runPrefix runId)) [] 0 (Nat.zero_le _)
  rcases hloop with ⟨lastSeq, valid, hloop⟩
  have hscan : timelineLoop s.rocks (runId ++ bytes ":") limit
      (s.rocks.evByRun.seek (seekKey (runId ++ bytes ":") none)) [] 0 =
        .ok (scannedEvents s.rocks (runPrefix runId) limit, lastSeq, valid) := by
    rw [← filterMap_hit]
    exact hloop
  have hlimit : ¬ (limit : Int) < 0 := by omega
  simp [timeline, hfetch, hscan, hlimit, Bind.bind, Except.bind, pure, Except.pure]

/-! ## Which keys are read -/

/-- A key of the index. -/
def IndexKey (db : Rocks) (key : Bytes) : Prop :=
  (db.evByRun.get key).isSome

theorem scannedKeys_sorted (db : Rocks) (scanPrefix : Bytes) :
    (scannedKeys db scanPrefix).Pairwise (· < ·) :=
  (List.pairwise_map.2 (db.evByRun.seek_sorted scanPrefix)).sublist (List.takeWhile_sublist _)

theorem hitKeys_sorted (db : Rocks) (scanPrefix : Bytes) :
    (hitKeys db scanPrefix).Pairwise (· < ·) :=
  (scannedKeys_sorted db scanPrefix).sublist List.filter_sublist

/-- A key is read if it continues the prefix and so do all keys between the prefix and it: those
have the prefix anyway, so it is their length that counts. -/
theorem mem_scannedKeys {db : Rocks} {scanPrefix key : Bytes} :
    key ∈ scannedKeys db scanPrefix ↔
      IndexKey db key ∧ scanPrefix <+: key ∧ scanPrefix.length + 8 ≤ key.length ∧
        ∀ key', IndexKey db key' → scanPrefix <+: key' → key' < key →
          scanPrefix.length + 8 ≤ key'.length := by
  -- the iterator walks the keys from the prefix on
  have hwalked : ∀ k, k ∈ (db.evByRun.seek scanPrefix).map Prod.fst ↔
      IndexKey db k ∧ ¬ k < scanPrefix := by
    intro k
    exact SortedMap.mem_keys_seek_iff
  -- a key that continues the prefix is not before it
  have hafter : ∀ {k}, scanPrefix <+: k → ¬ k < scanPrefix := by
    rintro k ⟨t, rfl⟩
    exact not_append_lt _ _
  have hprefix : ∀ {k : Bytes}, k.take scanPrefix.length = scanPrefix ↔ scanPrefix <+: k :=
    fun {k} => ⟨isPrefix_of_take, fun h => (List.prefix_iff_eq_take.1 h).symm⟩
  unfold scannedKeys
  rw [mem_takeWhile_iff (List.pairwise_map.2 (db.evByRun.seek_sorted scanPrefix))]
  simp only [decide_eq_true_eq, Continues, hwalked, hprefix]
  constructor
  · rintro ⟨⟨hindex, _⟩, ⟨hpre, hlong⟩, hbefore⟩
    refine ⟨hindex, hpre, hlong, fun key' hindex' hpre' hlt => ?_⟩
    exact (hbefore key' ⟨hindex', hafter hpre'⟩ hlt).2
  · rintro ⟨hindex, hpre, hlong, hbefore⟩
    refine ⟨⟨hindex, hafter hpre⟩, ⟨hpre, hlong⟩, ?_⟩
    rintro key' ⟨hindex', hge⟩ hlt
    -- what lies between the prefix and a key that continues it continues it as well
    have hpre' : scanPrefix <+: key' := by
      rcases hpre with ⟨t, rfl⟩
      exact isPrefix_of_between hge hlt.asymm
    exact ⟨hpre', hbefore key' hindex' hpre' hlt⟩

theorem mem_hitKeys {db : Rocks} {scanPrefix key : Bytes} :
    key ∈ hitKeys db scanPrefix ↔
      key ∈ scannedKeys db scanPrefix ∧ (hit db scanPrefix key).isSome := by
  simp [hitKeys]

/-- A long key starts with the key of the number it is read as. -/
theorem key_eq_append {scanPrefix key : Bytes} (hpre : scanPrefix <+: key)
    (hlong : scanPrefix.length + 8 ≤ key.length) :
    ∃ rest, key = scanPrefix ++ seqToKey (keySeq scanPrefix key) ++ rest := by
  rcases hpre with ⟨tail, rfl⟩
  have height : 8 ≤ tail.length := by simpa using hlong
  have hread : (tail ++ List.replicate 8 0).take 8 = tail.take 8 := by
    rw [List.take_append_of_le_length height]
  have hlen : (tail.take 8).length = 8 := by simp [height]
  have hkey : seqToKey (keySeq scanPrefix (scanPrefix ++ tail)) = tail.take 8 := by
    have hround := toBigEndian_ofBigEndian (tail.take 8)
    rw [hlen] at hround
    rw [keySeq, List.drop_left, keyToSeq, hread]
    exact hround
  exact ⟨tail.drop 8, by rw [hkey, List.append_assoc, List.take_append_drop]⟩

theorem evByRunKey_eq (e : AuditEvent) : evByRunKey e = runPrefix e.runId ++ seqToKey e.sequence :=
  rfl

theorem keySeq_evByRunKey {e : AuditEvent} (hfit : e.sequence < 2 ^ 64) :
    keySeq (runPrefix e.runId) (evByRunKey e) = e.sequence := by
  rw [keySeq, evByRunKey_eq, List.drop_left, keyToSeq_seqToKey hfit]

/-- The keys of a run's events are in the order of their numbers. -/
theorem evByRunKey_lt_iff {e e' : AuditEvent} (hsame : e.runId = e'.runId)
    (he : e.sequence < 2 ^ 64) (he' : e'.sequence < 2 ^ 64) :
    evByRunKey e < evByRunKey e' ↔ e.sequence < e'.sequence := by
  rw [evByRunKey_eq, evByRunKey_eq, hsame, append_lt_append_iff]
  exact toBigEndian_lt_iff (by simpa using he) (by simpa using he')

end ControlDB
