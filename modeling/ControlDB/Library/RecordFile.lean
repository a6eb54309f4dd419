import Mathlib

/-!
# Files of records read one after the other

A reader takes a value off the front of a text, and a file is read by repeating a reader until it
fails.  What is left over then, the *tail* of the file, is what the next record will be written
behind.

Readers are composed from `readBytes`; two properties carry over to the composition: a record takes
up some of the text, and what stands behind a record does not change it.
-/

namespace ControlDB
namespace Library

variable {σ α β : Type}

/-! ## Readers -/

/-- Takes a value off the front of a text, or fails. -/
abbrev Reader (σ : Type) := StateT (List σ) Option

/-- The next `n` symbols; a shorter text is a failure. -/
def readBytes (n : Nat) : Reader σ (List σ) := fun l =>
  if n ≤ l.length then some (l.take n, l.drop n) else none

/-- More text behind a value does not change how it is read. -/
def Stable (p : Reader σ α) : Prop :=
  ∀ ⦃l x rest⦄ (more : List σ), p l = some (x, rest) → p (l ++ more) = some (x, rest ++ more)

/-- A value that is read leaves at most the text behind its first `n` symbols. -/
def Consumes (n : Nat) (p : Reader σ α) : Prop :=
  ∀ ⦃l x rest⦄, p l = some (x, rest) → rest.length + n ≤ l.length

theorem readBytes_append {n : Nat} {a : List σ} (h : a.length = n) (b : List σ) :
    readBytes n (a ++ b) = some (a, b) := by
  subst h
  simp [readBytes]

theorem readBytes_eq_some_iff {n : Nat} {l a rest : List σ} :
    readBytes n l = some (a, rest) ↔ a.length = n ∧ l = a ++ rest := by
  constructor
  · intro h
    unfold readBytes at h
    split_ifs at h with hn
    cases h
    exact ⟨List.length_take_of_le hn, (List.take_append_drop n l).symm⟩
  · rintro ⟨rfl, rfl⟩
    exact readBytes_append rfl rest

theorem bind_eq_some_iff {p : Reader σ α} {q : α → Reader σ β} {l rest : List σ} {y : β} :
    (p >>= q) l = some (y, rest) ↔
      ∃ x mid, p l = some (x, mid) ∧ q x mid = some (y, rest) := by
  change (p l).bind (fun r => q r.1 r.2) = _ ↔ _
  rw [Option.bind_eq_some_iff]
  constructor
  · rintro ⟨⟨x, mid⟩, hp, hq⟩
    exact ⟨x, mid, hp, hq⟩
  · rintro ⟨x, mid, hp, hq⟩
    exact ⟨(x, mid), hp, hq⟩

/-- Bytes of the asked length are read first. -/
theorem readBytes_bind {n : Nat} {a : List σ} (h : a.length = n) (q : List σ → Reader σ β)
    (b : List σ) : (readBytes n >>= q) (a ++ b) = q a b := by
  change (readBytes n (a ++ b)).bind (fun r => q r.1 r.2) = q a b
  rw [readBytes_append h]
  rfl

theorem pure_eq_some_iff {x y : α} {l rest : List σ} :
    (pure x : Reader σ α) l = some (y, rest) ↔ x = y ∧ l = rest := by
  change some (x, l) = some (y, rest) ↔ _
  simp

theorem stable_readBytes (n : Nat) : Stable (readBytes n : Reader σ (List σ)) := by
  intro l a rest more h
  rcases readBytes_eq_some_iff.1 h with ⟨hlen, rfl⟩
  rw [List.append_assoc]
  exact readBytes_append hlen _

theorem stable_pure (x : α) : Stable (pure x : Reader σ α) := by
  intro l y rest more h
  rcases pure_eq_some_iff.1 h with ⟨rfl, rfl⟩
  exact pure_eq_some_iff.2 ⟨rfl, rfl⟩

theorem Stable.bind {p : Reader σ α} {q : α → Reader σ β} (hp : Stable p)
    (hq : ∀ x, Stable (q x)) : Stable (p >>= q) := by
  intro l y rest more h
  rcases bind_eq_some_iff.1 h with ⟨x, mid, hx, hy⟩
  exact bind_eq_some_iff.2 ⟨x, mid ++ more, hp more hx, hq x more hy⟩

theorem consumes_readBytes (n : Nat) : Consumes n (readBytes n : Reader σ (List σ)) := by
  intro l a rest h
  rcases readBytes_eq_some_iff.1 h with ⟨hlen, rfl⟩
  rw [List.length_append, hlen]
  omega

theorem Consumes.bind {m n : Nat} {p : Reader σ α} {q : α → Reader σ β} (hp : Consumes m p)
    (hq : ∀ x, Consumes n (q x)) : Consumes (m + n) (p >>= q) := by
  intro l y rest h
  rcases bind_eq_some_iff.1 h with ⟨x, mid, hx, hy⟩
  have hfirst := hp hx
  have hsecond := hq x hy
  omega

/-! ## Framed records -/

/-- A header of `n` symbols that tells the length of the payload, the payload, and a trailer of `m`
symbols. -/
def readFramed (n m : Nat) (len : List σ → Nat) (make : List σ → List σ → List σ → α) :
    Reader σ α := do
  let header ← readBytes n
  let payload ← readBytes (len header)
  let trailer ← readBytes m
  return make header payload trailer

section Framed

variable {n m : Nat} {len : List σ → Nat} {make : List σ → List σ → List σ → α}

theorem stable_readFramed : Stable (readFramed n m len make) :=
  (stable_readBytes n).bind fun _ => (stable_readBytes _).bind fun _ =>
    (stable_readBytes m).bind fun _ => stable_pure _

theorem readFramed_eq_some_iff {l rest : List σ} {x : α} :
    readFramed n m len make l = some (x, rest) ↔
      ∃ header payload trailer, header.length = n ∧ payload.length = len header ∧
        trailer.length = m ∧ l = header ++ (payload ++ (trailer ++ rest)) ∧
        x = make header payload trailer := by
  constructor
  · intro h
    rcases bind_eq_some_iff.1 h with ⟨header, _, hheader, h⟩
    rcases bind_eq_some_iff.1 h with ⟨payload, _, hpayload, h⟩
    rcases bind_eq_some_iff.1 h with ⟨trailer, _, htrailer, h⟩
    rcases pure_eq_some_iff.1 h with ⟨hmake, rfl⟩
    rcases readBytes_eq_some_iff.1 hheader with ⟨hn, rfl⟩
    rcases readBytes_eq_some_iff.1 hpayload with ⟨hlen, rfl⟩
    rcases readBytes_eq_some_iff.1 htrailer with ⟨hm, rfl⟩
    exact ⟨header, payload, trailer, hn, hlen, hm, rfl, hmake.symm⟩
  · rintro ⟨header, payload, trailer, hn, hlen, hm, rfl, rfl⟩
    rw [readFramed, readBytes_bind hn, readBytes_bind hlen, readBytes_bind hm]
    exact pure_eq_some_iff.2 ⟨rfl, rfl⟩

theorem consumes_readFramed (h : 0 < n) : Consumes 1 (readFramed n m len make) := by
  intro l x rest hread
  rcases readFramed_eq_some_iff.1 hread with ⟨header, payload, trailer, hn, -, -, rfl, -⟩
  simp only [List.length_append]
  omega

/-- Nothing is read where the text ends within the header, or before the end that it tells. -/
theorem readFramed_eq_none_iff {l : List σ} :
    readFramed n m len make l = none ↔
      l.length < n ∨ l.length < n + len (l.take n) + m := by
  constructor
  · intro hnone
    by_contra hlong
    simp only [not_or, Nat.not_lt] at hlong
    have hread : readFramed n m len make l = some
        (make (l.take n) ((l.drop n).take (len (l.take n)))
          ((l.drop (n + len (l.take n))).take m),
        (l.drop (n + len (l.take n))).drop m) := by
      refine readFramed_eq_some_iff.2 ⟨_, _, _, ?_, ?_, ?_, ?_, rfl⟩
      · exact List.length_take_of_le hlong.1
      · rw [List.length_take_of_le]
        rw [List.length_drop]
        omega
      · rw [List.length_take_of_le]
        rw [List.length_drop]
        omega
      · rw [List.take_append_drop, ← List.drop_drop, List.take_append_drop,
          List.take_append_drop]
    simp [hread] at hnone
  · intro hshort
    rcases hread : readFramed n m len make l with _ | ⟨x, rest⟩
    · rfl
    · rcases readFramed_eq_some_iff.1 hread with ⟨header, payload, trailer, hn, hlen, hm, rfl, -⟩
      rw [List.take_left' hn] at hshort
      simp only [List.length_append] at hshort
      omega

end Framed

/-! ## Record formats -/

/-- A reader whose records are not empty and end where their own symbols say. -/
structure RecordFormat (σ α : Type) where
  read : Reader σ α
  stable : Stable read
  consumes : Consumes 1 read

namespace RecordFormat

variable (f : RecordFormat σ α)

/-- At most `fuel` records, and the text behind them. -/
def readLoop : Nat → List σ → List α × List σ
  | 0, l => ([], l)
  | fuel + 1, l =>
      match f.read l with
      | none => ([], l)
      | some (x, rest) => (x :: (readLoop fuel rest).1, (readLoop fuel rest).2)

/-- The records of a file, up to the first place where none can be read. -/
def records (l : List σ) : List α :=
  (f.readLoop l.length l).1

/-- What stands behind the last record. -/
def tail (l : List σ) : List σ :=
  (f.readLoop l.length l).2

/-- The text of one record. -/
def Spells (w : List σ) (x : α) : Prop :=
  f.read w = some (x, [])

variable {f}

/-- A text has fewer records than symbols. -/
theorem readLoop_eq {fuel : Nat} {l : List σ} (h : l.length ≤ fuel) :
    f.readLoop fuel l = (f.records l, f.tail l) := by
  have hmore : ∀ (fuel more : Nat) (l : List σ), l.length ≤ fuel →
      f.readLoop (fuel + more) l = f.readLoop fuel l := by
    intro fuel more
    induction fuel with
    | zero =>
        intro l hl
        rcases List.length_eq_zero_iff.1 (Nat.le_zero.1 hl) with rfl
        cases more with
        | zero => rfl
        | succ more =>
            rcases hread : f.read [] with _ | ⟨x, rest⟩
            · simp [readLoop, hread]
            · exact (Nat.not_succ_le_zero _ (f.consumes hread)).elim
    | succ fuel ih =>
        intro l hl
        rw [Nat.add_right_comm]
        rcases hread : f.read l with _ | ⟨x, rest⟩
        · simp [readLoop, hread]
        · have hless := f.consumes hread
          have hrest := ih rest (by omega)
          simp [readLoop, hread, hrest]
  rw [← Nat.add_sub_cancel' h, hmore l.length _ l (Nat.le_refl _)]
  rfl

theorem of_read_eq_none {l : List σ} (h : f.read l = none) : f.records l = [] ∧ f.tail l = l := by
  have hloop : f.readLoop (l.length + 1) l = ([], l) := by simp [readLoop, h]
  rw [readLoop_eq (Nat.le_succ _)] at hloop
  exact Prod.mk.inj hloop

theorem of_read_eq_some {l rest : List σ} {x : α} (h : f.read l = some (x, rest)) :
    f.records l = x :: f.records rest ∧ f.tail l = f.tail rest := by
  have hless := f.consumes h
  have hrest : f.readLoop l.length rest = (f.records rest, f.tail rest) := readLoop_eq (by omega)
  have hloop : f.readLoop (l.length + 1) l = (x :: f.records rest, f.tail rest) := by
    simp [readLoop, h, hrest]
  rw [readLoop_eq (Nat.le_succ _)] at hloop
  exact Prod.mk.inj hloop

/-- What holds of a text without a record, and of a text once it holds of the rest behind the first
record, holds of all texts. -/
theorem recordInduction {motive : List σ → Prop}
    (stop : ∀ l, f.read l = none → motive l)
    (next : ∀ l x rest, f.read l = some (x, rest) → motive rest → motive l) (l : List σ) :
    motive l := by
  induction hlen : l.length using Nat.strongRecOn generalizing l with
  | ind n ih =>
      rcases hread : f.read l with _ | ⟨x, rest⟩
      · exact stop l hread
      · have hless := f.consumes hread
        exact next l x rest hread (ih rest.length (by omega) rest rfl)

theorem read_tail (l : List σ) : f.read (f.tail l) = none := by
  induction l using f.recordInduction with
  | stop l h => rwa [(of_read_eq_none h).2]
  | next l x rest h ih => rwa [(of_read_eq_some h).2]

/-- What every read value satisfies, all records of a file do. -/
theorem forall_mem_records {P : α → Prop} (hP : ∀ l x rest, f.read l = some (x, rest) → P x)
    (l : List σ) : ∀ x ∈ f.records l, P x := by
  induction l using f.recordInduction with
  | stop l h =>
      rw [(of_read_eq_none h).1]
      simp
  | next l x rest h ih =>
      rw [(of_read_eq_some h).1]
      exact List.forall_mem_cons.2 ⟨hP l x rest h, ih⟩

theorem records_tail (l : List σ) : f.records (f.tail l) = [] :=
  (of_read_eq_none (read_tail l)).1

/-- A reader that makes something else of the same symbols. -/
theorem records_map {g : RecordFormat σ β} {t : α → β}
    (h : ∀ l, g.read l = (f.read l).map fun r => (t r.1, r.2)) (l : List σ) :
    g.records l = (f.records l).map t := by
  induction l using f.recordInduction with
  | stop l hread =>
      have hnone : g.read l = none := by rw [h, hread, Option.map_none]
      rw [(of_read_eq_none hread).1, (of_read_eq_none hnone).1, List.map_nil]
  | next l x rest hread ih =>
      have hsome : g.read l = some (t x, rest) := by rw [h, hread, Option.map_some]
      rw [(of_read_eq_some hread).1, (of_read_eq_some hsome).1, List.map_cons, ih]

/-! ## Texts behind one another -/

/-- What is appended to a file is read behind its tail. -/
theorem append_eq (l m : List σ) :
    f.records (l ++ m) = f.records l ++ f.records (f.tail l ++ m) ∧
      f.tail (l ++ m) = f.tail (f.tail l ++ m) := by
  induction l using f.recordInduction with
  | stop l h =>
      rw [(of_read_eq_none h).1, (of_read_eq_none h).2]
      exact ⟨rfl, rfl⟩
  | next l x rest h ih =>
      rw [(of_read_eq_some h).1, (of_read_eq_some h).2, (of_read_eq_some (f.stable m h)).1,
        (of_read_eq_some (f.stable m h)).2, ih.1, ih.2]
      exact ⟨rfl, rfl⟩

theorem records_append (l m : List σ) :
    f.records (l ++ m) = f.records l ++ f.records (f.tail l ++ m) :=
  (append_eq l m).1

theorem tail_append (l m : List σ) : f.tail (l ++ m) = f.tail (f.tail l ++ m) :=
  (append_eq l m).2

/-- The records of a file stay, whatever is appended to it. -/
theorem records_sublist_append (l m : List σ) : (f.records l).Sublist (f.records (l ++ m)) := by
  rw [records_append]
  exact List.sublist_append_left _ _

/-- A file with nothing behind its last record. -/
def Clean (f : RecordFormat σ α) (l : List σ) : Prop :=
  f.tail l = []

instance [DecidableEq σ] (l : List σ) : Decidable (f.Clean l) :=
  inferInstanceAs (Decidable (_ = _))

theorem clean_nil : f.Clean [] := by
  rcases hread : f.read [] with _ | ⟨x, rest⟩
  · exact (of_read_eq_none hread).2
  · exact (Nat.not_succ_le_zero _ (f.consumes hread)).elim

theorem records_nil : f.records [] = [] := by
  have h := records_tail (f := f) []
  rwa [clean_nil] at h

theorem Clean.records_append {l : List σ} (h : f.Clean l) (m : List σ) :
    f.records (l ++ m) = f.records l ++ f.records m := by
  rw [RecordFormat.records_append, h, List.nil_append]

theorem Clean.append {l m : List σ} (hl : f.Clean l) (hm : f.Clean m) : f.Clean (l ++ m) := by
  unfold Clean
  rw [tail_append, hl, List.nil_append, hm]

/-! ## Spelled records -/

theorem Spells.records_eq {w : List σ} {x : α} (h : f.Spells w x) : f.records w = [x] := by
  rw [(of_read_eq_some h).1, records_nil]

theorem Spells.clean {w : List σ} {x : α} (h : f.Spells w x) : f.Clean w := by
  unfold Clean
  rw [(of_read_eq_some h).2]
  exact clean_nil

/-- No record is read from a part of one. -/
theorem Spells.read_take {w : List σ} {x : α} (h : f.Spells w x) {n : Nat} (hn : n < w.length) :
    f.read (w.take n) = none := by
  rcases hread : f.read (w.take n) with _ | ⟨y, rest⟩
  · rfl
  · -- the symbols cut off would be left behind the record
    have hwhole := f.stable (w.drop n) hread
    rw [List.take_append_drop, h] at hwhole
    have hleft : rest ++ w.drop n = [] := (congrArg Prod.snd (Option.some.inj hwhole)).symm
    have hlen : (w.drop n).length = 0 := by simp [(List.append_eq_nil_iff.1 hleft).2]
    rw [List.length_drop] at hlen
    omega

section Encoded

variable {encode : α → List σ} {xs : List α}

theorem clean_encoded (h : ∀ x ∈ xs, f.Spells (encode x) x) : f.Clean (xs.flatMap encode) := by
  induction xs with
  | nil => exact clean_nil
  | cons x xs ih =>
      rw [List.flatMap_cons]
      exact (h x (by simp)).clean.append (ih fun y hy => h y (List.mem_cons_of_mem _ hy))

theorem records_encoded (h : ∀ x ∈ xs, f.Spells (encode x) x) :
    f.records (xs.flatMap encode) = xs := by
  induction xs with
  | nil => exact records_nil
  | cons x xs ih =>
      have hx : f.Spells (encode x) x := h x (by simp)
      rw [List.flatMap_cons, hx.clean.records_append, hx.records_eq,
        ih fun y hy => h y (List.mem_cons_of_mem _ hy)]
      rfl

end Encoded

/-! ## Formats that read exactly what is written -/

/-- A valid value is read from its own text, and what is read stood there as the text of a valid
value. -/
structure Exact (f : RecordFormat σ α) (encode : α → List σ) (valid : α → Prop) : Prop where
  spells : ∀ x, valid x → f.Spells (encode x) x
  text : ∀ {l x rest}, f.read l = some (x, rest) → valid x ∧ l = encode x ++ rest

namespace Exact

variable {encode : α → List σ} {valid : α → Prop}

/-- A file is the texts of its records and its tail. -/
theorem flatMap_records (h : f.Exact encode valid) (l : List σ) :
    (f.records l).flatMap encode ++ f.tail l = l := by
  induction l using f.recordInduction with
  | stop l hread => simp [of_read_eq_none hread]
  | next l x rest hread ih =>
      rw [(of_read_eq_some hread).1, (of_read_eq_some hread).2, List.flatMap_cons,
        List.append_assoc, ih]
      exact (h.text hread).2.symm

/-- All records of a file have a property exactly when the file is written from values that have
it, with nothing that reads as a record behind them. -/
theorem forall_records_iff (h : f.Exact encode valid) (P : α → Prop) (l : List σ) :
    (∀ x ∈ f.records l, P x) ↔
      ∃ (xs : List α) (t : List σ),
        l = xs.flatMap encode ++ t ∧ (∀ x ∈ xs, valid x ∧ P x) ∧ f.read t = none := by
  constructor
  · intro hP
    have hvalid : ∀ x ∈ f.records l, valid x :=
      forall_mem_records (fun _ _ _ hread => (h.text hread).1) l
    exact ⟨f.records l, f.tail l, (h.flatMap_records l).symm,
      fun x hx => ⟨hvalid x hx, hP x hx⟩, read_tail l⟩
  · rintro ⟨xs, t, rfl, hxs, ht⟩
    have hspells : ∀ x ∈ xs, f.Spells (encode x) x := fun x hx => h.spells x (hxs x hx).1
    rw [(clean_encoded hspells).records_append, records_encoded hspells, (of_read_eq_none ht).1,
      List.append_nil]
    exact fun x hx => (hxs x hx).2

end Exact
end RecordFormat
end Library
end ControlDB
