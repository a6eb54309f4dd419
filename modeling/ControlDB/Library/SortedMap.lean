import Mathlib

/-!
# Ordered key-value maps

A column of an ordered key-value store: a list of entries with strictly increasing keys.  `put`
inserts or replaces, `get` looks up, and the entry list itself is what an iterator walks, forwards
from a `seek` or backwards from its end.
-/

namespace ControlDB
namespace Library

variable {K V : Type*} [LinearOrder K]

/-- Insertion into an entry list at the key's place in the order; an equal key is replaced. -/
def insertEntry (k : K) (v : V) : List (K × V) → List (K × V)
  | [] => [(k, v)]
  | e :: rest =>
      if k < e.1 then (k, v) :: e :: rest
      else if k = e.1 then (k, v) :: rest
      else e :: insertEntry k v rest

/-- Inserting keeps exactly the entries under other keys. -/
theorem mem_insertEntry {k : K} {v : V} {l : List (K × V)}
    (hl : l.Pairwise fun a b => a.1 < b.1) {e : K × V} :
    e ∈ insertEntry k v l ↔ e = (k, v) ∨ (e ∈ l ∧ e.1 ≠ k) := by
  induction l with
  | nil => simp [insertEntry]
  | cons d l ih =>
      rcases List.pairwise_cons.1 hl with ⟨hd, hl'⟩
      unfold insertEntry
      split_ifs with hlt heq
      · -- every present key is greater than `k`
        have hne : ∀ e ∈ d :: l, e.1 ≠ k := by
          intro e he
          rcases List.mem_cons.1 he with rfl | hmem
          · exact hlt.ne'
          · exact (hlt.trans (hd e hmem)).ne'
        constructor
        · intro he
          rcases List.mem_cons.1 he with rfl | hmem
          · exact .inl rfl
          · exact .inr ⟨hmem, hne e hmem⟩
        · rintro (rfl | ⟨hmem, _⟩)
          · exact List.mem_cons_self
          · exact List.mem_cons_of_mem _ hmem
      -- the key is there, and nowhere else
      · have hne : ∀ e ∈ l, e.1 ≠ k := fun e he => heq ▸ (hd e he).ne'
        constructor
        · intro he
          rcases List.mem_cons.1 he with rfl | hmem
          · exact .inl rfl
          · exact .inr ⟨List.mem_cons_of_mem _ hmem, hne e hmem⟩
        · rintro (rfl | ⟨hmem, hek⟩)
          · exact List.mem_cons_self
          · rcases List.mem_cons.1 hmem with rfl | hmem'
            · exact (hek heq.symm).elim
            · exact List.mem_cons_of_mem _ hmem'
      -- the key comes later
      · rw [List.mem_cons, List.mem_cons, ih hl']
        constructor
        · rintro (rfl | rfl | ⟨hmem, hek⟩)
          · exact .inr ⟨.inl rfl, Ne.symm heq⟩
          · exact .inl rfl
          · exact .inr ⟨.inr hmem, hek⟩
        · rintro (rfl | ⟨rfl | hmem, hek⟩)
          · exact .inr (.inl rfl)
          · exact .inl rfl
          · exact .inr (.inr ⟨hmem, hek⟩)

theorem insertEntry_sorted {k : K} {v : V} {l : List (K × V)}
    (hl : l.Pairwise fun a b => a.1 < b.1) :
    (insertEntry k v l).Pairwise fun a b => a.1 < b.1 := by
  induction l with
  | nil => simp [insertEntry]
  | cons d l ih =>
      rcases List.pairwise_cons.1 hl with ⟨hd, hl'⟩
      unfold insertEntry
      split_ifs with hlt heq
      · refine List.pairwise_cons.2 ⟨?_, hl⟩
        intro e he
        rcases List.mem_cons.1 he with rfl | hmem
        · exact hlt
        · exact hlt.trans (hd e hmem)
      · exact List.pairwise_cons.2 ⟨fun e he => heq ▸ hd e he, hl'⟩
      -- what the recursion inserts comes after the first key
      · have hgt : d.1 < k := lt_of_le_of_ne (not_lt.1 hlt) (Ne.symm heq)
        refine List.pairwise_cons.2 ⟨?_, ih hl'⟩
        intro e he
        rcases (mem_insertEntry hl').1 he with rfl | ⟨hmem, _⟩
        · exact hgt
        · exact hd e hmem

/-- A key greater than all present ones goes to the end. -/
theorem insertEntry_of_forall_lt {k : K} {v : V} {l : List (K × V)} (hk : ∀ e ∈ l, e.1 < k) :
    insertEntry k v l = l ++ [(k, v)] := by
  induction l with
  | nil => rfl
  | cons d l ih =>
      have hd : d.1 < k := hk d List.mem_cons_self
      have hl := ih fun e he => hk e (List.mem_cons_of_mem _ he)
      simp [insertEntry, not_lt.2 hd.le, hd.ne', hl]

/-- Inserting an entry that is there changes nothing. -/
theorem insertEntry_eq_self {k : K} {v : V} {l : List (K × V)}
    (hl : l.Pairwise fun a b => a.1 < b.1) (hmem : (k, v) ∈ l) : insertEntry k v l = l := by
  induction l with
  | nil => exact absurd hmem List.not_mem_nil
  | cons d l ih =>
      rcases List.pairwise_cons.1 hl with ⟨hd, hl'⟩
      rcases List.mem_cons.1 hmem with rfl | htail
      · simp [insertEntry]
      · have hlt : d.1 < k := hd _ htail
        simp [insertEntry, not_lt.2 hlt.le, hlt.ne', ih hl' htail]

/-- Entries with strictly increasing keys. -/
structure SortedMap (K V : Type*) [LinearOrder K] where
  entries : List (K × V)
  sorted : entries.Pairwise fun a b => a.1 < b.1

namespace SortedMap

def empty : SortedMap K V := ⟨[], .nil⟩

def put (m : SortedMap K V) (k : K) (v : V) : SortedMap K V :=
  ⟨insertEntry k v m.entries, insertEntry_sorted m.sorted⟩

def get (m : SortedMap K V) (k : K) : Option V :=
  (m.entries.find? fun e => decide (e.1 = k)).map Prod.snd

/-- The entries an iterator walks after `Seek(k)`. -/
def seek (m : SortedMap K V) (k : K) : List (K × V) :=
  m.entries.dropWhile fun e => decide (e.1 < k)

@[simp] theorem entries_empty : (empty : SortedMap K V).entries = [] := rfl

@[simp] theorem get_empty (k : K) : (empty : SortedMap K V).get k = none := rfl

/-- Two entries with the same key are the same entry. -/
theorem entry_unique {m : SortedMap K V} {k : K} {v w : V}
    (hv : (k, v) ∈ m.entries) (hw : (k, w) ∈ m.entries) : v = w := by
  by_contra hne
  have hpair : ∀ ⦃a⦄, a ∈ m.entries → ∀ ⦃b⦄, b ∈ m.entries → a ≠ b → a.1 ≠ b.1 := by
    have hsymm : Std.Symm fun a b : K × V => a.1 ≠ b.1 := ⟨fun _ _ h => h.symm⟩
    exact (m.sorted.imp fun h => h.ne).forall
  exact hpair hv hw (by simpa using hne) rfl

theorem get_eq_some_iff {m : SortedMap K V} {k : K} {v : V} :
    m.get k = some v ↔ (k, v) ∈ m.entries := by
  constructor
  · intro h
    rcases Option.map_eq_some_iff.1 h with ⟨⟨k', v'⟩, hfind, rfl⟩
    have hk : k' = k := by simpa using List.find?_some hfind
    exact hk ▸ List.mem_of_find?_eq_some hfind
  · intro h
    -- the search stops at some entry with the key, and there is only one
    cases hfind : m.entries.find? fun e => decide (e.1 = k) with
    | none =>
        have hno := List.find?_eq_none.1 hfind (k, v) h
        simp at hno
    | some e =>
        have hk : e.1 = k := by simpa using List.find?_some hfind
        have hmem : (k, e.2) ∈ m.entries := by
          rw [← hk]
          exact List.mem_of_find?_eq_some hfind
        simp [get, hfind, entry_unique hmem h]

theorem mem_put_iff {m : SortedMap K V} {k : K} {v : V} {e : K × V} :
    e ∈ (m.put k v).entries ↔ e = (k, v) ∨ (e ∈ m.entries ∧ e.1 ≠ k) :=
  mem_insertEntry m.sorted

@[simp] theorem get_put_self (m : SortedMap K V) (k : K) (v : V) : (m.put k v).get k = some v :=
  get_eq_some_iff.2 (mem_put_iff.2 (.inl rfl))

theorem get_put_of_ne (m : SortedMap K V) {k k' : K} (v : V) (h : k' ≠ k) :
    (m.put k v).get k' = m.get k' := by
  have hiff : ∀ w, (m.put k v).get k' = some w ↔ m.get k' = some w := by
    intro w
    rw [get_eq_some_iff, get_eq_some_iff, mem_put_iff]
    simp [h]
  exact Option.ext hiff

theorem get_put (m : SortedMap K V) (k k' : K) (v : V) :
    (m.put k v).get k' = if k' = k then some v else m.get k' := by
  split_ifs with h
  · rw [h, get_put_self]
  · exact get_put_of_ne m v h

theorem put_eq_self {m : SortedMap K V} {k : K} {v : V} (h : m.get k = some v) : m.put k v = m := by
  rcases m with ⟨entries, hsorted⟩
  have hentries : insertEntry k v entries = entries :=
    insertEntry_eq_self hsorted (get_eq_some_iff.1 h)
  simp [put, hentries]

theorem entries_put_of_forall_lt {m : SortedMap K V} {k : K} {v : V}
    (hk : ∀ e ∈ m.entries, e.1 < k) : (m.put k v).entries = m.entries ++ [(k, v)] :=
  insertEntry_of_forall_lt hk

/-- After a run of `put`s an entry is an old one or one of those put. -/
theorem get_foldl_put {α : Type*} (f : α → K) (g : α → V) (l : List α) {m : SortedMap K V} {k : K}
    {v : V} (h : (l.foldl (fun m a => m.put (f a) (g a)) m).get k = some v) :
    m.get k = some v ∨ ∃ a ∈ l, k = f a ∧ v = g a := by
  induction l generalizing m with
  | nil => exact .inl h
  | cons a l ih =>
      rcases ih h with hfirst | ⟨b, hb, hk, hv⟩
      · rw [get_put] at hfirst
        split_ifs at hfirst with hk
        · exact .inr ⟨a, List.mem_cons_self, hk, (Option.some.inj hfirst).symm⟩
        · exact .inl hfirst
      · exact .inr ⟨b, List.mem_cons_of_mem _ hb, hk, hv⟩

/-- What is walked after a `seek` is stored and not before the key. -/
theorem mem_seek_iff {m : SortedMap K V} {k : K} {e : K × V} :
    e ∈ m.seek k ↔ e ∈ m.entries ∧ ¬ e.1 < k := by
  rcases m with ⟨entries, hsorted⟩
  induction entries with
  | nil => simp [seek]
  | cons d l ih =>
      rcases List.pairwise_cons.1 hsorted with ⟨hd, hl⟩
      -- an entry that is not skipped ends the skipping for all after it
      by_cases hlt : d.1 < k
      · have hrest := ih hl
        simp only [seek] at hrest ⊢
        rw [List.dropWhile_cons_of_pos (by simpa using hlt), hrest]
        constructor
        · rintro ⟨hmem, hge⟩
          exact ⟨List.mem_cons_of_mem _ hmem, hge⟩
        · rintro ⟨hmem, hge⟩
          rcases List.mem_cons.1 hmem with rfl | htail
          · exact absurd hlt hge
          · exact ⟨htail, hge⟩
      · simp only [seek]
        rw [List.dropWhile_cons_of_neg (by simpa using hlt)]
        refine ⟨fun hmem => ⟨hmem, ?_⟩, fun h => h.1⟩
        rcases List.mem_cons.1 hmem with rfl | htail
        · exact hlt
        · exact fun hbefore => hlt ((hd e htail).trans hbefore)

theorem mem_keys_seek_iff {m : SortedMap K V} {k key : K} :
    key ∈ (m.seek k).map Prod.fst ↔ (m.get key).isSome ∧ ¬ key < k := by
  constructor
  · intro hkey
    rcases List.mem_map.1 hkey with ⟨⟨key', v⟩, hentry, rfl⟩
    rcases mem_seek_iff.1 hentry with ⟨hmem, hge⟩
    exact ⟨Option.isSome_iff_exists.2 ⟨v, get_eq_some_iff.2 hmem⟩, hge⟩
  · rintro ⟨hget, hge⟩
    rcases Option.isSome_iff_exists.1 hget with ⟨v, hv⟩
    exact List.mem_map.2 ⟨(key, v), mem_seek_iff.2 ⟨get_eq_some_iff.1 hv, hge⟩, rfl⟩

theorem seek_sorted (m : SortedMap K V) (k : K) : (m.seek k).Pairwise fun a b => a.1 < b.1 :=
  m.sorted.sublist (List.dropWhile_sublist _)

/-- Seeking loses only entries: what is walked is stored. -/
theorem mem_of_mem_seek {m : SortedMap K V} {k : K} {e : K × V} (he : e ∈ m.seek k) :
    e ∈ m.entries :=
  (List.dropWhile_sublist _).subset he

end SortedMap
end Library
end ControlDB
