import ControlDB.Library.SortedMap

/-!
# A table with a secondary index

Rows under a primary key, and an ordered index whose entries lead to primary keys.  A write puts the
row and an entry, and removes nothing: an entry that was made when the row was written earlier stays.
A listing walks the index, so it has a row as often as the row has entries.

The index key of a write is any key from which the primary key can be read (`owns`).
-/

namespace ControlDB
namespace Library

variable {I K D : Type*} [LinearOrder I] [LinearOrder K]

structure IndexedTable (I K D : Type*) [LinearOrder I] [LinearOrder K] where
  rows : SortedMap I D := .empty
  index : SortedMap K I := .empty

/-- A row, its primary key and the key it is indexed under. -/
structure IndexedWrite (I K D : Type*) where
  id : I
  doc : D
  key : K

namespace IndexedTable

def put (t : IndexedTable I K D) (w : IndexedWrite I K D) : IndexedTable I K D where
  rows := t.rows.put w.id w.doc
  index := t.index.put w.key w.id

/-- A batch is written as a whole. -/
def write (t : IndexedTable I K D) (batch : List (IndexedWrite I K D)) : IndexedTable I K D :=
  batch.foldl put t

/-- The primary keys that a walk of the index from its end comes to, of the rows that satisfy the
condition, as many as the limit allows. -/
def listing (t : IndexedTable I K D) (p : D → Bool) (limit : Nat) : List I :=
  ((t.index.entries.reverse.map Prod.snd).filter fun id => (t.rows.get id).any p).take limit

/-- The primary keys of the rows that satisfy the condition. -/
def selected (t : IndexedTable I K D) (p : D → Bool) : List I :=
  (t.rows.entries.filter fun e => p e.2).map Prod.fst

/-- A listing has no row twice, and it has all of them if there are fewer than its limit. -/
def ListsOnce (t : IndexedTable I K D) (p : D → Bool) (limit : Nat) : Prop :=
  (t.listing p limit).Nodup ∧
    ((t.selected p).length < limit → ∀ id ∈ t.selected p, id ∈ t.listing p limit)

/-- An entry is under a key of its row, and leads to a row; every row has an entry. -/
structure Sound (owns : K → I → Prop) (t : IndexedTable I K D) : Prop where
  owned : ∀ k id, t.index.get k = some id → owns k id
  row : ∀ k id, t.index.get k = some id → t.rows.get id ≠ none
  entry : ∀ id, t.rows.get id ≠ none → ∃ k, t.index.get k = some id

/-- No row has two entries. -/
def Single (t : IndexedTable I K D) : Prop :=
  ∀ k k' id, t.index.get k = some id → t.index.get k' = some id → k = k'

/-- A batch indexes a row under one key, which is that of its entry if it has one. -/
def KeepsKeys (t : IndexedTable I K D) (batch : List (IndexedWrite I K D)) : Prop :=
  (∀ w ∈ batch, ∀ k, t.index.get k = some w.id → k = w.key) ∧
    ∀ w ∈ batch, ∀ w' ∈ batch, w.id = w'.id → w.key = w'.key

section Write

variable {t : IndexedTable I K D} {batch : List (IndexedWrite I K D)} {owns : K → I → Prop}

@[simp] theorem write_nil (t : IndexedTable I K D) : t.write [] = t := rfl

@[simp] theorem write_cons (t : IndexedTable I K D) (w : IndexedWrite I K D)
    (batch : List (IndexedWrite I K D)) : t.write (w :: batch) = (t.put w).write batch := rfl

/-- A row is there afterwards if it was before or is written. -/
theorem rows_write_ne_none {id : I} : (t.write batch).rows.get id ≠ none ↔
    t.rows.get id ≠ none ∨ ∃ w ∈ batch, w.id = id := by
  induction batch generalizing t with
  | nil => simp
  | cons w batch ih =>
      rw [write_cons, ih, put, SortedMap.get_put]
      by_cases hid : id = w.id
      · simp [hid]
      · have hne : ¬ w.id = id := fun h => hid h.symm
        simp [hid, hne]

/-- The document of a row is an old one or one of the batch. -/
theorem rows_write {id : I} {doc : D} (h : (t.write batch).rows.get id = some doc) :
    t.rows.get id = some doc ∨ ∃ w ∈ batch, w.id = id ∧ w.doc = doc := by
  induction batch generalizing t with
  | nil => exact .inl h
  | cons w batch ih =>
      rcases ih h with hfirst | ⟨w', hw', hsame⟩
      · rw [put, SortedMap.get_put] at hfirst
        split_ifs at hfirst with hid
        · exact .inr ⟨w, List.mem_cons_self, hid.symm, Option.some.inj hfirst⟩
        · exact .inl hfirst
      · exact .inr ⟨w', List.mem_cons_of_mem w hw', hsame⟩

/-- The entries afterwards are the old ones and those of the batch: an entry is only replaced by one
that leads to the same row. -/
theorem index_write (howns : ∀ ⦃k i j⦄, owns k i → owns k j → i = j)
    (ht : ∀ k id, t.index.get k = some id → owns k id) (hbatch : ∀ w ∈ batch, owns w.key w.id)
    {k : K} {id : I} : (t.write batch).index.get k = some id ↔
      t.index.get k = some id ∨ ∃ w ∈ batch, w.key = k ∧ w.id = id := by
  induction batch generalizing t with
  | nil => simp
  | cons w batch ih =>
      have hw : owns w.key w.id := hbatch w List.mem_cons_self
      have hput : ∀ k id, (t.put w).index.get k = some id ↔
          t.index.get k = some id ∨ w.key = k ∧ w.id = id := by
        intro k id
        rw [put, SortedMap.get_put]
        split_ifs with hk
        · subst hk
          constructor
          · intro h
            exact .inr ⟨rfl, Option.some.inj h⟩
          · rintro (hold | ⟨_, rfl⟩)
            · rw [howns hw (ht _ _ hold)]
            · rfl
        · have hne : ¬ w.key = k := fun h => hk h.symm
          simp [hne]
      have howned : ∀ k id, (t.put w).index.get k = some id → owns k id := by
        intro k id h
        rcases (hput k id).1 h with hold | ⟨rfl, rfl⟩
        · exact ht k id hold
        · exact hw
      rw [write_cons, ih howned fun w' hw' => hbatch w' (List.mem_cons_of_mem w hw'), hput, or_assoc]
      simp

theorem Sound.write (h : Sound owns t) (howns : ∀ ⦃k i j⦄, owns k i → owns k j → i = j)
    (hbatch : ∀ w ∈ batch, owns w.key w.id) : Sound owns (t.write batch) := by
  have hindex : ∀ k id, (t.write batch).index.get k = some id ↔
      t.index.get k = some id ∨ ∃ w ∈ batch, w.key = k ∧ w.id = id :=
    fun k id => index_write howns h.owned hbatch
  refine ⟨fun k id hget => ?_, fun k id hget => ?_, fun id hrow => ?_⟩
  · rcases (hindex k id).1 hget with hold | ⟨w, hw, rfl, rfl⟩
    · exact h.owned k id hold
    · exact hbatch w hw
  · rcases (hindex k id).1 hget with hold | ⟨w, hw, _, hid⟩
    · exact rows_write_ne_none.2 (.inl (h.row k id hold))
    · exact rows_write_ne_none.2 (.inr ⟨w, hw, hid⟩)
  · rcases rows_write_ne_none.1 hrow with hold | ⟨w, hw, rfl⟩
    · rcases h.entry id hold with ⟨k, hk⟩
      exact ⟨k, (hindex k id).2 (.inl hk)⟩
    · exact ⟨w.key, (hindex w.key w.id).2 (.inr ⟨w, hw, rfl, rfl⟩)⟩

/-- The condition says of a batch whether it leaves each row with one entry. -/
theorem single_write_iff (h : Sound owns t) (hsingle : t.Single)
    (howns : ∀ ⦃k i j⦄, owns k i → owns k j → i = j) (hbatch : ∀ w ∈ batch, owns w.key w.id) :
    (t.write batch).Single ↔ t.KeepsKeys batch := by
  have hindex : ∀ k id, (t.write batch).index.get k = some id ↔
      t.index.get k = some id ∨ ∃ w ∈ batch, w.key = k ∧ w.id = id :=
    fun k id => index_write howns h.owned hbatch
  have hnew : ∀ w ∈ batch, (t.write batch).index.get w.key = some w.id :=
    fun w hw => (hindex w.key w.id).2 (.inr ⟨w, hw, rfl, rfl⟩)
  constructor
  · intro hafter
    refine ⟨fun w hw k hk => ?_, fun w hw w' hw' hid => ?_⟩
    · exact hafter k w.key w.id ((hindex k w.id).2 (.inl hk)) (hnew w hw)
    · exact hafter w.key w'.key w.id (hnew w hw) (by rw [hid]; exact hnew w' hw')
  · rintro ⟨hold, hsame⟩ k k' id hk hk'
    rcases (hindex k id).1 hk with hk | ⟨w, hw, rfl, rfl⟩
    · rcases (hindex k' id).1 hk' with hk' | ⟨w', hw', rfl, rfl⟩
      · exact hsingle k k' id hk hk'
      · exact hold w' hw' k hk
    · rcases (hindex k' w.id).1 hk' with hk' | ⟨w', hw', rfl, hid⟩
      · exact (hold w hw k' hk').symm
      · exact hsame w hw w' hw' hid.symm

end Write

/-! ## Listings -/

section Listing

variable {t : IndexedTable I K D} {p : D → Bool} {limit : Nat} {id : I} {owns : K → I → Prop}

theorem mem_selected : id ∈ t.selected p ↔ ∃ doc, t.rows.get id = some doc ∧ p doc = true := by
  constructor
  · intro h
    rcases List.mem_map.1 h with ⟨e, he, rfl⟩
    rcases List.mem_filter.1 he with ⟨hmem, hp⟩
    exact ⟨e.2, SortedMap.get_eq_some_iff.2 hmem, hp⟩
  · rintro ⟨doc, hget, hp⟩
    exact List.mem_map.2 ⟨(id, doc), List.mem_filter.2 ⟨SortedMap.get_eq_some_iff.1 hget, hp⟩, rfl⟩

theorem any_iff_mem_selected : (t.rows.get id).any p = true ↔ id ∈ t.selected p := by
  rw [mem_selected]
  cases t.rows.get id <;> simp

/-- What a listing has is selected. -/
theorem mem_selected_of_listing (h : id ∈ t.listing p limit) : id ∈ t.selected p :=
  any_iff_mem_selected.1 (List.mem_filter.1 (List.mem_of_mem_take h)).2

/-- The values of an index where no row has two entries are distinct. -/
theorem single_iff_nodup : t.Single ↔ (t.index.entries.map Prod.snd).Nodup := by
  have hentries : t.index.entries.Nodup := t.index.sorted.imp fun h heq => absurd h (by simp [heq])
  rw [List.nodup_map_iff_inj_on hentries]
  constructor
  · intro h a ha b hb hsame
    have hkeys : a.1 = b.1 := h a.1 b.1 a.2 (SortedMap.get_eq_some_iff.2 ha)
      (SortedMap.get_eq_some_iff.2 (by rw [hsame]; exact hb))
    exact Prod.ext hkeys hsame
  · intro h k k' id hk hk'
    have hsame := h (k, id) (SortedMap.get_eq_some_iff.1 hk) (k', id)
      (SortedMap.get_eq_some_iff.1 hk') rfl
    exact congrArg Prod.fst hsame

/-- Where each row has one entry, listings are as they should be. -/
theorem Single.listsOnce (hsingle : t.Single) (h : Sound owns t) (p : D → Bool) (limit : Nat) :
    t.ListsOnce p limit := by
  have hwalk : (t.index.entries.reverse.map Prod.snd).Nodup := by
    rw [List.map_reverse]
    exact List.nodup_reverse.2 (single_iff_nodup.1 hsingle)
  refine ⟨(hwalk.filter _).sublist (List.take_sublist _ _), fun hfew id hid => ?_⟩
  -- the rows that the walk comes to are selected, so the limit is not reached
  have hlength : ((t.index.entries.reverse.map Prod.snd).filter fun id =>
      (t.rows.get id).any p).length ≤ (t.selected p).length := by
    have hnodup : ((t.index.entries.reverse.map Prod.snd).filter fun id =>
        (t.rows.get id).any p).Nodup := hwalk.filter _
    refine (List.subperm_of_subset hnodup fun id hid => ?_).length_le
    exact any_iff_mem_selected.1 (List.mem_filter.1 hid).2
  have hmem : id ∈ t.index.entries.reverse.map Prod.snd := by
    rcases mem_selected.1 hid with ⟨doc, hget, _⟩
    rcases h.entry id (by rw [hget]; simp) with ⟨k, hk⟩
    exact List.mem_map.2 ⟨(k, id), List.mem_reverse.2 (SortedMap.get_eq_some_iff.1 hk), rfl⟩
  rw [listing, List.take_of_length_le (Nat.le_trans hlength (Nat.le_of_lt hfew))]
  exact List.mem_filter.2 ⟨hmem, any_iff_mem_selected.2 hid⟩

/-- A listing that is long enough has a selected row as often as that has entries. -/
theorem key_unique_of_listing (hlisting : (t.listing p t.index.entries.length).Nodup)
    (hid : id ∈ t.selected p) {k k' : K} (hk : t.index.get k = some id)
    (hk' : t.index.get k' = some id) : k = k' := by
  have hall : (t.index.entries.reverse.map Prod.snd).filter (fun id => (t.rows.get id).any p) =
      t.listing p t.index.entries.length := by
    refine (List.take_of_length_le ?_).symm
    calc ((t.index.entries.reverse.map Prod.snd).filter fun id => (t.rows.get id).any p).length
        ≤ (t.index.entries.reverse.map Prod.snd).length := List.length_filter_le _ _
      _ = t.index.entries.length := by simp
  rw [← hall, List.filter_map] at hlisting
  -- both entries are among those of selected rows
  have hmem : ∀ {k}, t.index.get k = some id → (k, id) ∈ t.index.entries.reverse.filter
      ((fun id => (t.rows.get id).any p) ∘ Prod.snd) := by
    intro k hk
    exact List.mem_filter.2 ⟨List.mem_reverse.2 (SortedMap.get_eq_some_iff.1 hk),
      any_iff_mem_selected.2 hid⟩
  exact congrArg Prod.fst (List.inj_on_of_nodup_map hlisting (hmem hk) (hmem hk') rfl)

/-- Listings by conditions that select every row between them show whether a row has two entries. -/
theorem single_iff_listsOnce {ι : Type*} (h : Sound owns t) (conditions : ι → D → Bool)
    (hcover : ∀ id doc, t.rows.get id = some doc → ∃ i, conditions i doc = true) :
    t.Single ↔ ∀ i limit, t.ListsOnce (conditions i) limit := by
  refine ⟨fun hsingle i limit => hsingle.listsOnce h (conditions i) limit, ?_⟩
  intro hlists k k' id hk hk'
  rcases Option.ne_none_iff_exists'.1 (h.row k id hk) with ⟨doc, hdoc⟩
  rcases hcover id doc hdoc with ⟨i, hi⟩
  exact key_unique_of_listing (hlists i _).1 (mem_selected.2 ⟨doc, hdoc, hi⟩) hk hk'

end Listing

end IndexedTable
end Library
end ControlDB
