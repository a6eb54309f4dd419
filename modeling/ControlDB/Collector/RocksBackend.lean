import ControlDB.Core.Storage
import ControlDB.Collector.Models
import ControlDB.Library.Runs

/-!
# Sequences of the RocksDB backend

The sessions of `storage/rocksdb_backend.py` on one `RocksDBDatabase`.  A flush takes the next
sequence under the lock and buffers the counter in the batch of its session; the batch is written at
commit, in whatever order the sessions commit.  Only event rows are modelled: the other rows go to
columns of their own.  Sequences stay below 2^63, the range of `_seq_key`.

`RocksBackend.keeps_sequences` says when no sequence is used twice: no commit takes the stored
counter back.
-/

namespace ControlDB
namespace Collector

open Library Python

/-! ## Columns and batches -/

/-- A row of the events column.  `writer` is a history variable: the session that wrote it. -/
structure StoredRow where
  writer : Nat
  row : AuditEvent

inductive RocksPut
  | events (seq : Nat) (row : AuditEvent)
  | evByRun (key : Bytes)
  | evByType (key : Bytes)
  | idem (key value : Bytes)
  | globalSeq (seq : Nat)

/-- The sequence under which a put stores an event. -/
def RocksPut.eventSeq : RocksPut → Option Nat
  | .events seq _ => some seq
  | _ => none

def RocksPut.counter : RocksPut → Option Nat
  | .globalSeq seq => some seq
  | _ => none

def eventSeqs (batch : List RocksPut) : List Nat :=
  batch.filterMap RocksPut.eventSeq

/-- The counter that a batch leaves in the meta family. -/
def buffered (batch : List RocksPut) : Option Nat :=
  (batch.filterMap RocksPut.counter).getLast?

/-- The column families that an event row touches, and `global_seq` of the meta family. -/
structure RocksColumns where
  globalSeq : Option Nat := none
  events : SortedMap Nat StoredRow := .empty
  evByRun : SortedMap Bytes Unit := .empty
  evByType : SortedMap Bytes Unit := .empty
  idem : SortedMap Bytes Bytes := .empty

namespace RocksColumns

def put (writer : Nat) (columns : RocksColumns) : RocksPut → RocksColumns
  | .events seq row => { columns with events := columns.events.put seq ⟨writer, row⟩ }
  | .evByRun key => { columns with evByRun := columns.evByRun.put key () }
  | .evByType key => { columns with evByType := columns.evByType.put key () }
  | .idem key value => { columns with idem := columns.idem.put key value }
  | .globalSeq seq => { columns with globalSeq := some seq }

/-- The batch of a session is written as a whole. -/
def write (writer : Nat) (columns : RocksColumns) (batch : List RocksPut) : RocksColumns :=
  batch.foldl (put writer) columns

end RocksColumns

/-! ## Sessions -/

/-- `_RocksSession`. -/
structure RocksSession where
  pending : List AuditEvent := []
  batch : List RocksPut := []
  closed : Bool := false

/-- `RocksDBDatabase` with the sessions opened on it so far. -/
structure RocksBackend where
  seq : Nat := 0
  columns : RocksColumns := {}
  sessions : List RocksSession := []

/-- The row with its sequence, and the counter behind it. -/
def assignSeq (seq : Nat) (row : AuditEvent) : Nat × AuditEvent :=
  if row.sequence = 0 then (seq + 1, { row with sequence := seq + 1 }) else (seq, row)

/-- `_write_event`, with the counter that `_persist_seq` reads. -/
def writeEvent (seq : Nat) (row : AuditEvent) : List RocksPut :=
  let seqB := seqToKey row.sequence
  let key := row.idempotencyKey.getD ""
  [.events row.sequence row,
    .evByRun (encodeUtf8 (row.runId ++ ":").toList ++ seqB),
    .evByType (encodeUtf8 (row.orgId ++ ":" ++ row.projectId ++ ":" ++ row.eventType ++ ":").toList ++
      seqB)] ++
  (if key = "" then [] else
    [.idem (encodeUtf8 key.toList) (encodeUtf8 row.eventId.toList),
      .idem (encodeUtf8 (key ++ ":hash").toList) (encodeUtf8 row.eventHash.toList)]) ++
  [.globalSeq seq]

inductive RocksAction
  | begin
  | add (i : Nat) (row : AuditEvent)
  | flush (i : Nat)
  | commit (i : Nat)
  | rollback (i : Nat)
  | close (i : Nat)
  | reopen

namespace RocksBackend

/-- A session that was opened and not closed. -/
def live (s : RocksBackend) (i : Nat) : Option RocksSession :=
  s.sessions[i]?.filter fun session => !session.closed

def setSession (s : RocksBackend) (i : Nat) (session : RocksSession) : RocksBackend :=
  { s with sessions := s.sessions.set i session }

/-- The counter is loaded from the meta family. -/
def reopened (s : RocksBackend) : RocksBackend :=
  { s with seq := s.columns.globalSeq.getD 0 }

/-- One event is flushed at a time; a commit flushes all of them first. -/
def step (s : RocksBackend) : RocksAction → Option RocksBackend
  | .begin => some { s with sessions := s.sessions ++ [{}] }
  | .add i row => (s.live i).map fun session =>
      s.setSession i { session with pending := session.pending ++ [row] }
  | .flush i =>
      match s.live i with
      | some ⟨row :: pending, batch, closed⟩ =>
          let (seq, row) := assignSeq s.seq row
          some { s.setSession i ⟨pending, batch ++ writeEvent seq row, closed⟩ with seq := seq }
      | _ => none
  | .commit i =>
      match s.live i with
      | some ⟨[], batch, _⟩ => some { s with columns := s.columns.write i batch }
      | _ => none
  | .rollback i => (s.live i).map fun session =>
      s.setSession i { session with pending := [], batch := [] }
  | .close i => (s.live i).map fun session => s.setSession i { session with closed := true }
  | .reopen => if s.sessions.all RocksSession.closed then some s.reopened else none

/-! ## The law -/

/-- A commit replaces no event of another session, and the sequence that follows an opening is
greater than all stored ones. -/
def Law (s : RocksBackend) : RocksAction → Prop
  | .commit i => ∀ session, s.live i = some session → ∀ k ∈ eventSeqs session.batch,
      ∀ stored, s.columns.events.get k = some stored → stored.writer = i
  | .reopen => ∀ k stored, s.columns.events.get k = some stored → k < s.reopened.seq + 1
  | _ => True

/-- Pending rows have no sequence of their own. -/
def Unnumbered : RocksAction → Prop
  | .add _ row => row.sequence = 0
  | _ => True

/-- A commit does not take the stored counter back. -/
def Forward (s : RocksBackend) : RocksAction → Prop
  | .commit i => ∀ session ∈ s.live i, ∀ seq ∈ buffered session.batch,
      s.columns.globalSeq.getD 0 ≤ seq
  | _ => True

instance : (a : RocksAction) → Decidable (Unnumbered a)
  | .add .. => inferInstanceAs (Decidable (_ = _))
  | .begin | .flush _ | .commit _ | .rollback _ | .close _ | .reopen => .isTrue trivial

instance (s : RocksBackend) : (a : RocksAction) → Decidable (Forward s a)
  | .commit _ => inferInstanceAs (Decidable (∀ _ ∈ _, ∀ _ ∈ _, _))
  | .begin | .add .. | .flush _ | .rollback _ | .close _ | .reopen => .isTrue trivial

end RocksBackend

/-! ## What a batch writes -/

section Write

variable {writer k : Nat} {columns : RocksColumns} {batch : List RocksPut} {stored : StoredRow}

theorem globalSeq_write :
    (columns.write writer batch).globalSeq = (buffered batch).or columns.globalSeq := by
  induction batch generalizing columns with
  | nil => rfl
  | cons p batch ih =>
      rw [RocksColumns.write, List.foldl_cons, ← RocksColumns.write, ih]
      cases p with
      | globalSeq seq =>
          rcases hlast : (batch.filterMap RocksPut.counter).getLast? with _ | last <;>
            simp [buffered, RocksPut.counter, RocksColumns.put, List.getLast?_cons, hlast]
      | events seq row => rfl
      | evByRun key => rfl
      | evByType key => rfl
      | idem key value => rfl

/-- An event that is stored afterwards was stored before or came with the batch. -/
theorem get_write (h : (columns.write writer batch).events.get k = some stored) :
    columns.events.get k = some stored ∨ (k ∈ eventSeqs batch ∧ stored.writer = writer) := by
  induction batch generalizing columns with
  | nil => exact .inl h
  | cons p batch ih =>
      rw [RocksColumns.write, List.foldl_cons, ← RocksColumns.write] at h
      rcases ih h with hfirst | ⟨hmem, hwriter⟩
      · cases p with
        | events seq row =>
            simp only [RocksColumns.put, SortedMap.get_put] at hfirst
            split_ifs at hfirst with hk
            · cases hfirst
              exact .inr ⟨by simp [eventSeqs, RocksPut.eventSeq, hk], rfl⟩
            · exact .inl hfirst
        | globalSeq seq => exact .inl hfirst
        | evByRun key => exact .inl hfirst
        | evByType key => exact .inl hfirst
        | idem key value => exact .inl hfirst
      · refine .inr ⟨?_, hwriter⟩
        simp only [eventSeqs, List.filterMap_cons]
        split
        · exact hmem
        · exact List.mem_cons_of_mem _ hmem

/-- Events stay stored, and those of the batch are stored. -/
theorem get_write_ne_none (h : columns.events.get k ≠ none ∨ k ∈ eventSeqs batch) :
    (columns.write writer batch).events.get k ≠ none := by
  induction batch generalizing columns with
  | nil => simpa [eventSeqs, RocksColumns.write] using h
  | cons p batch ih =>
      rw [RocksColumns.write, List.foldl_cons, ← RocksColumns.write]
      refine ih ?_
      cases p with
      | events seq row =>
          by_cases hk : k = seq
          · left
            simp [RocksColumns.put, hk]
          · rcases h with hstored | hmem
            · left
              rwa [RocksColumns.put, SortedMap.get_put_of_ne _ _ hk]
            · right
              simpa [eventSeqs, RocksPut.eventSeq, hk] using hmem
      | globalSeq seq => exact h
      | evByRun key => exact h
      | evByType key => exact h
      | idem key value => exact h

theorem eventSeqs_writeEvent (seq : Nat) (row : AuditEvent) :
    eventSeqs (writeEvent seq row) = [row.sequence] := by
  unfold writeEvent
  by_cases hkey : row.idempotencyKey.getD "" = "" <;>
    simp [eventSeqs, hkey, RocksPut.eventSeq]

theorem buffered_writeEvent (seq : Nat) (row : AuditEvent) :
    buffered (batch ++ writeEvent seq row) = some seq := by
  unfold writeEvent buffered
  rw [List.filterMap_append, List.filterMap_append]
  simp [RocksPut.counter]

end Write

/-! ## The invariant -/

namespace RocksBackend

variable {s s' : RocksBackend} {i j : Nat} {session session' : RocksSession}

theorem live_eq_some_iff :
    s.live i = some session ↔ s.sessions[i]? = some session ∧ session.closed = false := by
  simp [live, Option.filter_eq_some_iff]

theorem live_setSession_self (h : s.live i = some session) :
    (s.setSession i session').live i = if session'.closed then none else some session' := by
  have hlt : i < s.sessions.length := (List.getElem?_eq_some_iff.1 (live_eq_some_iff.1 h).1).1
  simp only [live, setSession, List.getElem?_set_self hlt]
  by_cases hclosed : session'.closed = true <;> simp [Option.filter, hclosed]

theorem live_setSession_of_ne (h : j ≠ i) : (s.setSession i session').live j = s.live j := by
  simp [live, setSession, List.getElem?_set_ne h.symm]

/-- What the batch of session `i` holds. -/
structure SoundBatch (s : RocksBackend) (i : Nat) (session : RocksSession) : Prop where
  le : ∀ k ∈ eventSeqs session.batch, k ≤ (buffered session.batch).getD 0
  last : ∀ seq ∈ buffered session.batch, seq ∈ eventSeqs session.batch
  counter : (buffered session.batch).getD 0 ≤ s.seq
  own : ∀ k ∈ eventSeqs session.batch, ∀ stored, s.columns.events.get k = some stored →
    stored.writer = i
  unnumbered : ∀ row ∈ session.pending, row.sequence = 0

/-- Stored sequences are covered by the stored counter, and no two sessions use the same one. -/
structure Sound (s : RocksBackend) : Prop where
  counter : s.columns.globalSeq.getD 0 ≤ s.seq
  stored : ∀ k stored, s.columns.events.get k = some stored →
    k ≤ s.columns.globalSeq.getD 0 ∧ stored.writer < s.sessions.length
  persisted : ∀ seq ∈ s.columns.globalSeq, s.columns.events.get seq ≠ none
  batches : ∀ i session, s.live i = some session → SoundBatch s i session
  apart : ∀ i j session session', s.live i = some session → s.live j = some session' → i ≠ j →
    ∀ k ∈ eventSeqs session.batch, k ∉ eventSeqs session'.batch

/-- The next sequence is in no batch and not stored. -/
theorem Sound.lt_next (h : Sound s) (hlive : s.live i = some session) :
    ∀ k ∈ eventSeqs session.batch, k < s.seq + 1 := fun k hk =>
  Nat.lt_succ_of_le (Nat.le_trans ((h.batches i session hlive).le k hk)
    (h.batches i session hlive).counter)

theorem Sound.get_next (h : Sound s) : s.columns.events.get (s.seq + 1) = none := by
  rcases hget : s.columns.events.get (s.seq + 1) with _ | stored
  · rfl
  · have hle := (h.stored _ _ hget).1
    have hcounter := h.counter
    omega

/-- A step that changes one session and at most raises the counter. -/
theorem Sound.update (h : Sound s) {seq : Nat} (hseq : s.seq ≤ seq)
    (hlive : s.live i = some session)
    (hbatch : session'.closed = false →
      SoundBatch { s.setSession i session' with seq := seq } i session')
    (hapart : session'.closed = false → ∀ j other, s.live j = some other → j ≠ i →
      ∀ k ∈ eventSeqs session'.batch, k ∉ eventSeqs other.batch) :
    Sound { s.setSession i session' with seq := seq } := by
  -- the session is the changed one, or one from before
  have hcases : ∀ j other, (s.setSession i session').live j = some other →
      (j = i ∧ other = session' ∧ session'.closed = false) ∨ (j ≠ i ∧ s.live j = some other) := by
    intro j other hother
    by_cases hj : j = i
    · subst hj
      rw [live_setSession_self hlive] at hother
      split_ifs at hother with hclosed
      exact .inl ⟨rfl, (Option.some.inj hother).symm, by simpa using hclosed⟩
    · exact .inr ⟨hj, by rwa [live_setSession_of_ne hj] at hother⟩
  refine
    { counter := Nat.le_trans h.counter hseq
      stored := ?_
      persisted := h.persisted
      batches := ?_
      apart := ?_ }
  · intro k stored hstored
    simpa [setSession] using h.stored k stored hstored
  · intro j other hother
    rcases hcases j other hother with ⟨rfl, rfl, hclosed⟩ | ⟨_, hother⟩
    · exact hbatch hclosed
    · have hold := h.batches j other hother
      exact ⟨hold.le, hold.last, Nat.le_trans hold.counter hseq, hold.own, hold.unnumbered⟩
  · intro j j' other other' hother hother' hne k hk
    rcases hcases j other hother with ⟨rfl, rfl, hclosed⟩ | ⟨_, hold⟩
    · rcases hcases j' other' hother' with ⟨rfl, _, _⟩ | ⟨hj', hold'⟩
      · exact (hne rfl).elim
      · exact hapart hclosed j' other' hold' hj' k hk
    · rcases hcases j' other' hother' with ⟨rfl, rfl, hclosed⟩ | ⟨_, hold'⟩
      · exact fun hk' => hapart hclosed j other hold hne k hk' hk
      · exact h.apart j j' other other' hold hold' hne k hk

theorem Sound.flush (h : Sound s) {row : AuditEvent} {pending : List AuditEvent}
    {batch : List RocksPut} {closed : Bool} (hlive : s.live i = some ⟨row :: pending, batch, closed⟩) :
    Sound { s.setSession i
      ⟨pending, batch ++ writeEvent (assignSeq s.seq row).1 (assignSeq s.seq row).2, closed⟩ with
        seq := (assignSeq s.seq row).1 } := by
  have hold := h.batches i _ hlive
  have hassign : assignSeq s.seq row = (s.seq + 1, { row with sequence := s.seq + 1 }) :=
    if_pos (hold.unnumbered row (by simp))
  have hseqs : eventSeqs (batch ++ writeEvent (s.seq + 1) { row with sequence := s.seq + 1 }) =
      eventSeqs batch ++ [s.seq + 1] := by
    rw [eventSeqs, List.filterMap_append]
    exact congrArg _ (eventSeqs_writeEvent _ _)
  rw [hassign]
  refine h.update (Nat.le_succ _) hlive (fun _ => ?_) (fun _ j other hother hne => ?_)
  · constructor
    · intro k hk
      rw [buffered_writeEvent]
      rw [hseqs] at hk
      rcases List.mem_append.1 hk with hk | hk
      · exact Nat.le_of_lt (h.lt_next hlive k hk)
      · exact Nat.le_of_eq (List.mem_singleton.1 hk)
    · intro seq hseq
      rw [buffered_writeEvent] at hseq
      rw [hseqs, ← Option.some.inj hseq]
      exact List.mem_append_right _ (List.mem_singleton_self _)
    · rw [buffered_writeEvent]
      exact Nat.le_refl _
    · intro k hk stored hstored
      rw [hseqs] at hk
      rcases List.mem_append.1 hk with hk | hk
      · exact hold.own k hk stored hstored
      · rcases List.mem_singleton.1 hk with rfl
        exact (Option.some_ne_none stored (hstored.symm.trans h.get_next)).elim
    · exact fun row' hrow' => hold.unnumbered row' (List.mem_cons_of_mem _ hrow')
  · intro k hk
    rw [hseqs] at hk
    rcases List.mem_append.1 hk with hk | hk
    · exact h.apart i j _ other hlive hother hne.symm k hk
    · intro hk'
      rcases List.mem_singleton.1 hk with rfl
      exact Nat.lt_irrefl _ (h.lt_next hother _ hk')

theorem Sound.commit (h : Sound s) {batch : List RocksPut} {closed : Bool}
    (hlive : s.live i = some ⟨[], batch, closed⟩) (hforward : Forward s (.commit i)) :
    Sound { s with columns := s.columns.write i batch } := by
  have hbatch := h.batches i _ hlive
  have hlt : i < s.sessions.length := (List.getElem?_eq_some_iff.1 (live_eq_some_iff.1 hlive).1).1
  have hcounter : (s.columns.write i batch).globalSeq.getD 0 =
      (buffered batch).getD (s.columns.globalSeq.getD 0) := by
    rw [globalSeq_write]
    cases buffered batch <;> rfl
  have hgrows : s.columns.globalSeq.getD 0 ≤ (s.columns.write i batch).globalSeq.getD 0 := by
    rw [hcounter]
    rcases hbuffered : buffered batch with _ | seq
    · exact Nat.le_refl _
    · exact hforward _ hlive seq hbuffered
  refine
    { counter := ?_, stored := ?_, persisted := ?_, batches := ?_, apart := h.apart }
  · rw [hcounter]
    rcases hbuffered : buffered batch with _ | seq
    · exact h.counter
    · have hle := hbatch.counter
      rwa [hbuffered] at hle
  · intro k stored hstored
    rcases get_write hstored with hold | ⟨hmem, rfl⟩
    · exact ⟨Nat.le_trans (h.stored k stored hold).1 hgrows, (h.stored k stored hold).2⟩
    · refine ⟨?_, hlt⟩
      have hle := hbatch.le k hmem
      rw [hcounter]
      rcases hbuffered : buffered batch with _ | seq
      · rw [hbuffered] at hle
        exact Nat.le_trans hle (Nat.zero_le _)
      · rwa [hbuffered] at hle
  · intro seq hseq
    rw [globalSeq_write] at hseq
    refine get_write_ne_none ?_
    rcases hbuffered : buffered batch with _ | last
    · rw [hbuffered, Option.none_or] at hseq
      exact .inl (h.persisted seq hseq)
    · rw [hbuffered, Option.some_or] at hseq
      exact .inr (hbatch.last seq (by rw [hbuffered]; exact hseq))
  · intro j other hother
    have hold := h.batches j other hother
    refine { hold with own := ?_ }
    intro k hk stored hstored
    rcases get_write hstored with hold' | ⟨hmem, hwriter⟩
    · exact hold.own k hk stored hold'
    · rw [hwriter]
      by_contra hne
      exact h.apart i j _ other hlive hother hne k hmem hk

theorem Sound.begin (h : Sound s) : Sound { s with sessions := s.sessions ++ [{}] } := by
  -- a session is an old one, or the new one with an empty batch
  have hcases : ∀ j other, live { s with sessions := s.sessions ++ [{}] } j = some other →
      s.live j = some other ∨ other = {} := by
    intro j other hother
    rcases live_eq_some_iff.1 hother with ⟨hget, hopen⟩
    rcases Nat.lt_or_ge j s.sessions.length with hlt | hge
    · rw [List.getElem?_append_left hlt] at hget
      exact .inl (live_eq_some_iff.2 ⟨hget, hopen⟩)
    · rw [List.getElem?_append_right hge] at hget
      exact .inr (List.mem_singleton.1 (List.mem_of_getElem? hget))
  refine { h with stored := ?_, batches := ?_, apart := ?_ }
  · intro k stored hstored
    have hold := h.stored k stored hstored
    exact ⟨hold.1, Nat.lt_of_lt_of_le hold.2 (by simp)⟩
  · intro j other hother
    rcases hcases j other hother with hold | rfl
    · exact { h.batches j other hold with }
    · exact ⟨by simp [eventSeqs], by simp [buffered], Nat.zero_le _, by simp [eventSeqs], by simp⟩
  · intro j j' other other' hother hother' hne k hk
    rcases hcases j other hother with hold | rfl
    · rcases hcases j' other' hother' with hold' | rfl
      · exact h.apart j j' other other' hold hold' hne k hk
      · simp [eventSeqs]
    · simp [eventSeqs] at hk

theorem Sound.reopened (h : Sound s) (hclosed : s.sessions.all RocksSession.closed = true) :
    Sound s.reopened := by
  have hnone : ∀ j other, s.live j ≠ some other := by
    intro j other hother
    rcases live_eq_some_iff.1 hother with ⟨hget, hopen⟩
    have hall := List.all_eq_true.1 hclosed other (List.mem_of_getElem? hget)
    rw [hopen] at hall
    exact Bool.false_ne_true hall
  exact
    { h with
      counter := Nat.le_refl _
      batches := fun j other hother => (hnone j other hother).elim
      apart := fun j _ other _ hother => (hnone j other hother).elim }

theorem Sound.step {a : RocksAction} (h : Sound s) (hrow : Unnumbered a) (hforward : Forward s a)
    (hstep : s.step a = some s') : Sound s' := by
  cases a with
  | begin =>
      cases hstep
      exact h.begin
  | add i row =>
      rcases Option.map_eq_some_iff.1 hstep with ⟨session, hlive, rfl⟩
      have hold := h.batches i session hlive
      refine h.update (Nat.le_refl _) hlive (fun _ => { hold with unnumbered := ?_ })
        (fun _ j other hother hne k hk => h.apart i j session other hlive hother hne.symm k hk)
      intro row' hrow'
      rcases List.mem_append.1 hrow' with hrow' | hrow'
      · exact hold.unnumbered row' hrow'
      · rcases List.mem_singleton.1 hrow' with rfl
        exact hrow
  | flush i =>
      simp only [RocksBackend.step] at hstep
      split at hstep
      · rename_i row pending batch closed hlive
        cases hstep
        exact h.flush hlive
      · cases hstep
  | commit i =>
      simp only [RocksBackend.step] at hstep
      split at hstep
      · rename_i batch closed hlive
        cases hstep
        exact h.commit hlive hforward
      · cases hstep
  | rollback i =>
      rcases Option.map_eq_some_iff.1 hstep with ⟨session, hlive, rfl⟩
      refine h.update (Nat.le_refl _) hlive (fun _ => ?_) (by simp [eventSeqs])
      exact ⟨by simp [eventSeqs], by simp [buffered], Nat.zero_le _, by simp [eventSeqs], by simp⟩
  | close i =>
      rcases Option.map_eq_some_iff.1 hstep with ⟨session, hlive, rfl⟩
      exact h.update (Nat.le_refl _) hlive (by simp) (by simp)
  | reopen =>
      simp only [RocksBackend.step] at hstep
      split_ifs at hstep with hclosed
      cases hstep
      exact h.reopened hclosed

theorem Sound.init : Sound {} where
  counter := Nat.le_refl _
  stored := by simp
  persisted := by simp
  batches := by simp [live]
  apart := by simp [live]

theorem Sound.of_reach (h : Reach RocksBackend.step (fun s a => Unnumbered a ∧ Forward s a) {} s) : Sound s :=
  Reach.invariant Sound.init (fun _ hs ha hstep => hs.step ha.1 ha.2 hstep) h

/-! ## No sequence is used twice -/

theorem Sound.law (h : Sound s) (a : RocksAction) : Law s a := by
  cases a with
  | commit i => exact fun session hlive => (h.batches i session hlive).own
  | reopen => exact fun k stored hstored => Nat.lt_succ_of_le (h.stored k stored hstored).1
  | begin => trivial
  | add i row => trivial
  | flush i => trivial
  | rollback i => trivial
  | close i => trivial

/-- While no commit takes the stored counter back, a commit replaces no event of another session,
and an opening goes on behind all stored sequences. -/
theorem keeps_sequences (s : RocksBackend) (a : RocksAction)
    (h : Reach step (fun s a => Unnumbered a ∧ Forward s a) {} s) : Law s a :=
  (Sound.of_reach h).law a

section Example

def exampleRow (eventId : String) : AuditEvent where
  sequence := 0
  eventId := eventId
  orgId := "org_test"
  projectId := "proj_test"
  environment := "dev"
  runId := "run_1"
  stepId := none
  stepIndex := none
  eventType := "tool.called"
  schemaVersion := "2026-05-01"
  actorType := none
  actorId := none
  traceId := none
  spanId := none
  parentSpanId := none
  payloadMode := "metadata_only"
  payload := PyJson.none
  payloadHash := none
  previousEventHash := none
  eventHash := "sha256:0"
  occurredAt := ⟨2026, 5, 13, 12, 0, 0, 0, some 0, by decide⟩
  ingestedAt := ⟨2026, 5, 13, 12, 0, 0, 0, some 0, by decide⟩
  idempotencyKey := none

/-- Two sessions flush in one order and commit in this order. -/
def twoSessions (first second : Nat) : List RocksAction :=
  [.begin, .begin, .add 0 (exampleRow "e_0"), .add 1 (exampleRow "e_1"), .flush 0, .flush 1,
    .commit first, .commit second, .close 0, .close 1, .reopen, .begin, .add 2 (exampleRow "e_2"),
    .flush 2]

theorem keeps_sequences_in_order :
    ∃ s, run step (fun s a => Unnumbered a ∧ Forward s a) {} (twoSessions 0 1) = some s ∧
      s.seq = 3 ∧ Law s (.commit 2) := by
  have hrun : (run step (fun s a => Unnumbered a ∧ Forward s a) {} (twoSessions 0 1)).map
      RocksBackend.seq = some 3 := by decide +kernel
  rcases Option.map_eq_some_iff.1 hrun with ⟨s, hrun, hseq⟩
  exact ⟨s, hrun, hseq, keeps_sequences s (.commit 2) (reach_of_run hrun)⟩

/-- Committed the other way round, the event of the second session is replaced after an opening. -/
theorem event_replaced :
    ¬ ∀ (s s' : RocksBackend) (a : RocksAction), Reach step (fun _ a => Unnumbered a) {} s →
      s.step a = some s' → Law s a := by
  intro hall
  let last := (run step (fun _ a => Unnumbered a) {} (twoSessions 1 0)).getD {}
  have hsome : (run step (fun _ a => Unnumbered a) {} (twoSessions 1 0)).isSome = true := by
    decide +kernel
  have hrun : run step (fun _ a => Unnumbered a) {} (twoSessions 1 0) = some last := by
    rcases hlast : run step (fun _ a => Unnumbered a) {} (twoSessions 1 0) with _ | s
    · simp [hlast] at hsome
    · simp [last, hlast]
  have hbatch : (last.live 2).map (fun session => eventSeqs session.batch) = some [2] := by
    decide +kernel
  have hwriter : (last.columns.events.get 2).map StoredRow.writer = some 1 := by decide +kernel
  have hstep : (last.step (.commit 2)).isSome = true := by decide +kernel
  rcases Option.map_eq_some_iff.1 hbatch with ⟨session, hlive, hseqs⟩
  rcases Option.map_eq_some_iff.1 hwriter with ⟨stored, hstored, hone⟩
  rcases Option.isSome_iff_exists.1 hstep with ⟨s', hstep⟩
  have hlaw := hall last s' (.commit 2) (reach_of_run hrun) hstep session hlive 2 (by simp [hseqs])
    stored hstored
  omega

end Example

/-- A commit that takes the stored counter back leaves an event that is not covered by it. -/
theorem not_covered_of_backward (h : Reach step (fun s a => Unnumbered a ∧ Forward s a) {} s)
    (hback : ¬Forward s (.commit i)) (hstep : s.step (.commit i) = some s') : ¬Law s' .reopen := by
  have hs := Sound.of_reach h
  simp only [RocksBackend.step] at hstep
  split at hstep
  · rename_i batch closed hlive
    cases hstep
    intro hlaw
    refine hback fun session hsession seq hseq => ?_
    rcases Option.some.inj (hlive.symm.trans hsession) with rfl
    -- the event under the old counter is still there
    rcases hold : s.columns.globalSeq with _ | last
    · exact Nat.zero_le _
    have hkept : (s.columns.write i batch).events.get last ≠ none :=
      get_write_ne_none (.inl (hs.persisted last hold))
    rcases Option.ne_none_iff_exists'.1 hkept with ⟨stored, hstored⟩
    have hlt := hlaw last stored hstored
    have hcounter : (s.columns.write i batch).globalSeq = some seq := by
      rw [globalSeq_write]
      exact congrArg (fun o => o.or s.columns.globalSeq) hseq
    simp only [reopened, hcounter, Option.getD_some] at hlt
    exact Nat.le_of_lt_succ hlt
  · cases hstep

end RocksBackend
end Collector
end ControlDB
