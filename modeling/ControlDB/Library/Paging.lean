import Mathlib

/-!
# Pages behind a cursor

A client that follows the cursor of a paged listing, from its first page to the one without a
cursor.  The elements are numbered by `key`, a cursor is the number to go on behind, and a page is
filled from a *scan* of what is left.  The scan may visit the elements in another order than their
numbers, group by group (`rank`); `Aligned` says when the pages still are the listing in order.
-/

namespace ControlDB
namespace Library

variable {α β ε : Type}

/-- Following the cursor from `c` gives these pages. -/
inductive Pages (fetch : Option Nat → Except ε (List α × Option Nat)) :
    Option Nat → List (List α) → Prop
  | last {c : Option Nat} {page : List α} : fetch c = .ok (page, none) → Pages fetch c [page]
  | more {c : Option Nat} {page : List α} {next : Nat} {rest : List (List α)} :
      fetch c = .ok (page, some next) → Pages fetch (some next) rest → Pages fetch c (page :: rest)

theorem Pages.map {fetch : Option Nat → Except ε (List α × Option Nat)}
    {fetch' : Option Nat → Except ε (List β × Option Nat)} (view : α → β)
    (hview : ∀ c page next, fetch c = .ok (page, next) → fetch' c = .ok (page.map view, next))
    {c : Option Nat} {pages : List (List α)} (h : Pages fetch c pages) :
    Pages fetch' c (pages.map (List.map view)) := by
  induction h with
  | last hfetch => exact .last (hview _ _ _ hfetch)
  | more hfetch _ ih => exact .more (hview _ _ _ hfetch) ih

/-- The pages are determined. -/
theorem Pages.unique {fetch : Option Nat → Except ε (List α × Option Nat)} {c : Option Nat}
    {pages pages' : List (List α)} (h : Pages fetch c pages) (h' : Pages fetch c pages') :
    pages = pages' := by
  induction h generalizing pages' with
  | last hfetch =>
      cases h' with
      | last hfetch' =>
          cases hfetch.symm.trans hfetch'
          rfl
      | more hfetch' _ => cases hfetch.symm.trans hfetch'
  | more hfetch _ ih =>
      cases h' with
      | last hfetch' => cases hfetch.symm.trans hfetch'
      | more hfetch' hrest' =>
          cases hfetch.symm.trans hfetch'
          rw [ih hrest']

theorem Pages.first {fetch : Option Nat → Except ε (List α × Option Nat)} {c : Option Nat}
    {pages : List (List α)} (h : Pages fetch c pages) : ∃ page next, fetch c = .ok (page, next) := by
  cases h with
  | last hok => exact ⟨_, _, hok⟩
  | more hok _ => exact ⟨_, _, hok⟩

/-- The first page is what the first fetch returns. -/
theorem Pages.mem_flatten {fetch : Option Nat → Except ε (List α × Option Nat)} {c next : Option Nat}
    {pages : List (List α)} (h : Pages fetch c pages) {page : List α}
    (hfetch : fetch c = .ok (page, next)) {x : α} (hx : x ∈ page) : x ∈ pages.flatten := by
  cases h with
  | last hok =>
      cases hok.symm.trans hfetch
      exact List.mem_flatten.2 ⟨page, List.mem_cons_self, hx⟩
  | more hok _ =>
      cases hok.symm.trans hfetch
      exact List.mem_flatten.2 ⟨page, List.mem_cons_self, hx⟩

/-! ## Ordered lists -/

section Keys

variable {K : Type*} [LinearOrder K] {key : α → K}

/-- Lists in order with the same elements are the same. -/
theorem eq_of_perm_of_keys {l m : List α} (hperm : l.Perm m) (hl : l.Pairwise fun a b => key a < key b)
    (hm : m.Pairwise fun a b => key a < key b) : l = m :=
  hperm.eq_of_pairwise (fun _ _ _ _ hab hba => absurd hab hba.asymm) hl hm

/-- Sorting by distinct keys puts elements in order. -/
theorem insertionSort_ordered {l : List α} (h : l.Pairwise fun a b => key a ≠ key b) :
    (l.insertionSort fun a b => key a ≤ key b).Pairwise fun a b => key a < key b := by
  have hperm := List.perm_insertionSort (fun a b => key a ≤ key b) l
  have hne := hperm.symm.pairwise h fun hab => hab.symm
  have htotal : Std.Total fun a b : α => key a ≤ key b := ⟨fun a b => le_total (key a) (key b)⟩
  have htrans : IsTrans α fun a b => key a ≤ key b := ⟨fun _ _ _ => le_trans⟩
  have hle : (l.insertionSort fun a b => key a ≤ key b).Pairwise fun a b => key a ≤ key b :=
    List.pairwise_insertionSort _ _
  exact (hle.and hne).imp fun hab => lt_of_le_of_ne hab.1 hab.2

end Keys

section Ordered

variable {key rank : α → Nat} {all : List α}

/-- The elements behind a cursor. -/
def after (key : α → Nat) (all : List α) : Option Nat → List α
  | none => all
  | some c => all.filter fun x => decide (c < key x)

theorem mem_after_iff {c : Option Nat} {x : α} :
    x ∈ after key all c ↔ x ∈ all ∧ ∀ k ∈ c, k < key x := by
  cases c with
  | none => simp [after]
  | some c => simp [after]

theorem after_sublist (key : α → Nat) (all : List α) (c : Option Nat) :
    (after key all c).Sublist all := by
  cases c with
  | none => exact List.Sublist.refl _
  | some c => exact List.filter_sublist

/-- The cursor is the number of an element, or there is none yet. -/
def Resumes (key : α → Nat) (all : List α) (c : Option Nat) : Prop :=
  ∀ k ∈ c, ∃ x ∈ all, key x = k

theorem resumes_of_mem {c : Option Nat} {x : α} (hx : x ∈ after key all c) :
    Resumes key all (some (key x)) := by
  intro k hk
  exact ⟨x, (after_sublist key all c).subset hx, Option.mem_some_iff.1 hk⟩

/-- What is behind an element is behind what the element is behind. -/
theorem after_subset {c : Option Nat} {x : α} (hx : x ∈ after key all c) :
    after key all (some (key x)) ⊆ after key all c := by
  intro y hy
  rcases List.mem_filter.1 hy with ⟨hmem, hlt⟩
  cases c with
  | none => exact hmem
  | some c =>
      have hcx : c < key x := of_decide_eq_true (List.mem_filter.1 hx).2
      exact List.mem_filter.2 ⟨hmem, decide_eq_true (hcx.trans (of_decide_eq_true hlt))⟩

/-- What comes behind the last of the first `n` elements are the others. -/
theorem filter_gt_last {l : List α} (hl : l.Pairwise fun a b => key a < key b) {n : Nat} {x : α}
    (hx : (l.take n).getLast? = some x) :
    l.filter (fun y => decide (key x < key y)) = l.drop n := by
  rcases List.getLast?_eq_some_iff.1 hx with ⟨front, hfront⟩
  have hsplit := hl
  rw [← List.take_append_drop n l, List.pairwise_append] at hsplit
  have hfirst : (l.take n).filter (fun y => decide (key x < key y)) = [] := by
    rw [List.filter_eq_nil_iff]
    intro y hy
    rw [hfront] at hy
    have htake := hsplit.1
    rw [hfront, List.pairwise_append] at htake
    rcases List.mem_append.1 hy with hy | hy
    · have hlt := htake.2.2 y hy x (by simp)
      simpa using hlt.le
    · simp [List.mem_singleton.1 hy]
  have hrest : (l.drop n).filter (fun y => decide (key x < key y)) = l.drop n := by
    rw [List.filter_eq_self]
    intro y hy
    exact decide_eq_true (hsplit.2.2 x (List.mem_of_getLast? hx) y hy)
  calc l.filter (fun y => decide (key x < key y))
      = (l.take n).filter (fun y => decide (key x < key y)) ++
          (l.drop n).filter (fun y => decide (key x < key y)) := by
        rw [← List.filter_append, List.take_append_drop]
    _ = l.drop n := by rw [hfirst, hrest, List.nil_append]

theorem after_last (hall : all.Pairwise fun a b => key a < key b) {c : Option Nat} {n : Nat} {x : α}
    (hx : ((after key all c).take n).getLast? = some x) :
    after key all (some (key x)) = (after key all c).drop n := by
  rw [← filter_gt_last (hall.sublist (after_sublist key all c)) hx]
  cases c with
  | none => rfl
  | some c =>
      -- what is behind `x` is behind the old cursor as well
      have hmem : x ∈ all.filter fun y => decide (c < key y) :=
        List.mem_of_mem_take (List.mem_of_getLast? hx)
      have hlt : c < key x := by simpa using (List.mem_filter.1 hmem).2
      simp only [after, List.filter_filter]
      refine List.filter_congr fun y _ => ?_
      by_cases hy : key x < key y
      · simp [hy, hlt.trans hy]
      · simp [hy]

/-- The order of a scan: by group, and by number in a group. -/
def Before (key rank : α → Nat) (a b : α) : Prop :=
  rank a < rank b ∨ (rank a = rank b ∧ key a < key b)

theorem Before.trans {a b c : α} (hab : Before key rank a b) (hbc : Before key rank b c) :
    Before key rank a c := by
  unfold Before at *
  omega

theorem Before.asymm {a b : α} (hab : Before key rank a b) : ¬Before key rank b a := by
  unfold Before at *
  omega

/-- An ordered list starts with what comes before everything else. -/
theorem take_perm_of_before {r : α → α → Prop} (hasymm : ∀ {a b}, r a b → ¬r b a) {s l m : List α}
    (hs : s.Pairwise r) (hperm : s.Perm (l ++ m)) (hbefore : ∀ a ∈ l, ∀ b ∈ m, r a b) :
    (s.take l.length).Perm l := by
  induction s generalizing l with
  | nil =>
      have hnil : l = [] := (List.append_eq_nil_iff.1 (List.nil_perm.1 hperm)).1
      simp [hnil]
  | cons a s ih =>
      rcases List.pairwise_cons.1 hs with ⟨ha, hs'⟩
      rcases l with _ | ⟨d, l'⟩
      · simp
      -- the first of the list is one of those that come before
      have hal : a ∈ d :: l' := by
        rcases List.mem_append.1 (hperm.mem_iff.1 List.mem_cons_self) with hal | ham
        · exact hal
        · have hda := hbefore d List.mem_cons_self a ham
          rcases List.mem_cons.1 (hperm.mem_iff.2 (List.mem_append_left m List.mem_cons_self)) with
            rfl | hds
          · exact (hasymm hda hda).elim
          · exact (hasymm hda (ha d hds)).elim
      rcases List.append_of_mem hal with ⟨front, back, hsplit⟩
      have hmove : (d :: l').Perm (a :: (front ++ back)) := by
        rw [hsplit]
        exact List.perm_middle
      have hrest : s.Perm ((front ++ back) ++ m) :=
        (hperm.trans (hmove.append_right m)).cons_inv
      have htake := ih hs' hrest fun x hx b hb =>
        hbefore x (hmove.mem_iff.2 (List.mem_cons_of_mem _ hx)) b hb
      have hlength : (d :: l').length = (front ++ back).length + 1 := by
        simpa using hmove.length_eq
      rw [hlength, List.take_succ_cons]
      exact (htake.cons a).trans hmove.symm

/-! ## Pages of a scan -/

/-- A page is filled from a scan of what is left: what the scan visits first, put in order.  The
cursor to go on with is the number of the element that the scan visited last. -/
structure PageOf (key rank : α → Nat) (limit : Nat) (left scanned page : List α)
    (next : Option Nat) : Prop where
  perm : scanned.Perm left
  ordered : scanned.Pairwise (Before key rank)
  taken : page.Perm (scanned.take limit)
  sorted : page.Pairwise fun a b => key a < key b
  done : next = none → scanned.length ≤ limit
  more : ∀ k, next = some k →
    limit ≤ scanned.length ∧ ∃ x, (scanned.take limit).getLast? = some x ∧ key x = k

/-- A full page with something behind it, or every full page, carries a cursor. -/
theorem pageOf_of_scan {limit last : Nat} {left scanned page : List α} {goesOn : Prop}
    [Decidable goesOn] (hlimit : 1 ≤ limit) (hperm : scanned.Perm left)
    (hordered : scanned.Pairwise (Before key rank)) (htaken : page.Perm (scanned.take limit))
    (hsorted : page.Pairwise fun a b => key a < key b)
    (hlast : ∀ x, (scanned.take limit).getLast? = some x → key x = last)
    (hgoesOn : ¬ goesOn → scanned.length ≤ limit) :
    PageOf key rank limit left scanned page
      (if (scanned.take limit).length = limit ∧ goesOn then some last else none) where
  perm := hperm
  ordered := hordered
  taken := htaken
  sorted := hsorted
  done := by
    intro hnone
    split_ifs at hnone with hfull
    by_cases hmore : goesOn
    · have hshort : (scanned.take limit).length ≠ limit := fun h => hfull ⟨h, hmore⟩
      rw [List.length_take] at hshort
      omega
    · exact hgoesOn hmore
  more := by
    intro k hk
    split_ifs at hk with hfull
    cases hk
    have hlength := hfull.1
    rw [List.length_take] at hlength
    have hlong : limit ≤ scanned.length := by omega
    have hnonempty : scanned.take limit ≠ [] := by
      rw [← List.length_pos_iff, hfull.1]
      exact hlimit
    rcases Option.isSome_iff_exists.1 (List.getLast?_isSome.2 hnonempty) with ⟨x, hx⟩
    exact ⟨hlong, x, hx, hlast x hx⟩

/-- At every end of a page, nothing before it is of a later group and nothing behind it of an
earlier one. -/
def Aligned (rank : α → Nat) (limit : Nat) (l : List α) : Prop :=
  ∀ m x, l[(m + 1) * limit - 1]? = some x →
    (∀ y ∈ l.take ((m + 1) * limit), rank y ≤ rank x) ∧
      ∀ y ∈ l.drop ((m + 1) * limit), rank x ≤ rank y

/-- In one group there is nothing to be out of line. -/
theorem aligned_of_same (limit : Nat) {l : List α} (h : ∀ x ∈ l, ∀ y ∈ l, rank x ≤ rank y) :
    Aligned rank limit l := by
  intro m x hx
  have hmem : x ∈ l := List.mem_of_getElem? hx
  exact ⟨fun y hy => h y (List.mem_of_mem_take hy) x hmem,
    fun y hy => h x hmem y (List.mem_of_mem_drop hy)⟩

section Aligned

variable {limit : Nat} {l : List α}

/-- The page comes first, and the rest is aligned in itself. -/
theorem aligned_iff (hlimit : 1 ≤ limit) :
    Aligned rank limit l ↔
      (∀ x, l[limit - 1]? = some x →
        (∀ y ∈ l.take limit, rank y ≤ rank x) ∧ ∀ y ∈ l.drop limit, rank x ≤ rank y) ∧
      Aligned rank limit (l.drop limit) := by
  have hshift : ∀ m, limit + ((m + 1) * limit - 1) = (m + 1 + 1) * limit - 1 := by
    intro m
    have hpos : 1 ≤ (m + 1) * limit := Nat.mul_pos (Nat.succ_pos m) hlimit
    rw [Nat.succ_mul (m + 1)]
    omega
  have htwo : ∀ m, (m + 1 + 1) * limit = limit + (m + 1) * limit := by
    intro m
    rw [Nat.succ_mul (m + 1), Nat.add_comm]
  constructor
  · intro h
    constructor
    · intro x hx
      simpa using h 0 x (by simpa using hx)
    · intro m x hx
      rw [List.getElem?_drop, hshift] at hx
      rcases h (m + 1) x hx with ⟨hbefore, hbehind⟩
      rw [htwo] at hbefore hbehind
      refine ⟨fun y hy => hbefore y ?_, fun y hy => hbehind y ?_⟩
      · rw [List.take_drop] at hy
        exact List.mem_of_mem_drop hy
      · rwa [List.drop_drop] at hy
  · rintro ⟨hhead, hrest⟩ m x hx
    cases m with
    | zero => simpa using hhead x (by simpa using hx)
    | succ m =>
        rw [← hshift, ← List.getElem?_drop] at hx
        rcases hrest m x hx with ⟨hbefore, hbehind⟩
        rw [htwo]
        constructor
        · intro y hy
          rw [List.take_add, List.mem_append] at hy
          rcases hy with hy | hy
          · -- the end of the first page lies between
            have hmem : x ∈ l.drop limit := List.mem_of_getElem? hx
            have hlong : limit - 1 < l.length := by
              have hdrop := List.length_pos_of_mem hmem
              rw [List.length_drop] at hdrop
              omega
            rcases hhead _ (List.getElem?_eq_getElem hlong) with ⟨hfirst, hother⟩
            exact (hfirst y hy).trans (hother x hmem)
          · exact hbefore y hy
        · intro y hy
          rw [← List.drop_drop] at hy
          exact hbehind y hy

end Aligned

section Page

variable {limit : Nat} {left scanned page : List α} {next : Option Nat}

namespace PageOf

theorem length_le (h : PageOf key rank limit left scanned page next) : page.length ≤ limit := by
  rw [h.taken.length_eq]
  exact List.length_take_le _ _

theorem nodup (h : PageOf key rank limit left scanned page next) : scanned.Nodup := by
  refine h.ordered.imp ?_
  rintro a b hab rfl
  exact hab.asymm hab

/-- A page without a cursor is all that is left. -/
theorem eq_of_done (h : PageOf key rank limit left scanned page none)
    (hleft : left.Pairwise fun a b => key a < key b) : page = left := by
  have htaken := h.taken
  rw [List.take_of_length_le (h.done rfl)] at htaken
  exact eq_of_perm_of_keys (htaken.trans h.perm) h.sorted hleft

/-- The element visited last comes behind the others of its page. -/
theorem before_last (h : PageOf key rank limit left scanned page next) {x y : α}
    (hx : (scanned.take limit).getLast? = some x) (hy : y ∈ scanned.take limit) :
    y = x ∨ Before key rank y x := by
  rcases List.getLast?_eq_some_iff.1 hx with ⟨front, hfront⟩
  have hordered := h.ordered.sublist (List.take_sublist limit scanned)
  rw [hfront] at hordered hy
  rcases List.mem_append.1 hy with hy | hy
  · exact .inr ((List.pairwise_append.1 hordered).2.2 y hy x (by simp))
  · exact .inl (List.mem_singleton.1 hy)

theorem before_of_mem_drop (h : PageOf key rank limit left scanned page next) {x y : α}
    (hx : x ∈ scanned.take limit) (hy : y ∈ scanned.drop limit) : Before key rank x y := by
  have hordered := h.ordered
  rw [← List.take_append_drop limit scanned, List.pairwise_append] at hordered
  exact hordered.2.2 x hx y hy

/-- What comes before an element of the page is on the page. -/
theorem mem_take_of_before (h : PageOf key rank limit left scanned page next) {x y : α}
    (hx : x ∈ scanned.take limit) (hy : y ∈ scanned) (hyx : Before key rank y x) :
    y ∈ scanned.take limit := by
  rw [← List.take_append_drop limit scanned] at hy
  rcases List.mem_append.1 hy with hy | hy
  · exact hy
  · exact absurd (h.before_of_mem_drop hx hy) hyx.asymm

end PageOf

/-- The last of the first `n` elements. -/
theorem getLast?_take_eq {l : List α} {n : Nat} (hn : 1 ≤ n) (hle : n ≤ l.length) :
    (l.take n).getLast? = l[n - 1]? := by
  rw [List.getLast?_eq_getElem?, List.length_take_of_le hle, List.getElem?_take_of_lt (by omega)]

/-- If the listing is in line with the scan at the end of the page, the page is its beginning, and
the cursor is the number of its last element. -/
theorem PageOf.eq_take (h : PageOf key rank limit left scanned page next)
    (hleft : left.Pairwise fun a b => key a < key b) {x : α}
    (hx : (left.take limit).getLast? = some x) (hbefore : ∀ y ∈ left.take limit, rank y ≤ rank x)
    (hbehind : ∀ y ∈ left.drop limit, rank x ≤ rank y) :
    page = left.take limit ∧ (limit ≤ left.length → (scanned.take limit).getLast? = some x) := by
  have hsplit := hleft
  rw [← List.take_append_drop limit left, List.pairwise_append] at hsplit
  have hcross : ∀ a ∈ left.take limit, ∀ b ∈ left.drop limit, Before key rank a b := by
    intro a ha b hb
    have hrank := (hbefore a ha).trans (hbehind b hb)
    have hkey := hsplit.2.2 a ha b hb
    unfold Before
    omega
  have hperm : scanned.Perm (left.take limit ++ left.drop limit) := by
    rw [List.take_append_drop]
    exact h.perm
  have hfirst := take_perm_of_before (fun hab => hab.asymm) h.ordered hperm hcross
  have htake : scanned.take (left.take limit).length = scanned.take limit := by
    rw [List.length_take]
    rcases Nat.le_total limit left.length with hle | hle
    · rw [Nat.min_eq_left hle]
    · rw [Nat.min_eq_right hle, ← h.perm.length_eq, List.take_length,
        List.take_of_length_le (h.perm.length_eq ▸ hle)]
  rw [htake] at hfirst
  refine ⟨eq_of_perm_of_keys (h.taken.trans hfirst) h.sorted hsplit.1, fun hlong => ?_⟩
  -- of two candidates for the last place each would come before the other
  have hmem : x ∈ scanned.take limit := hfirst.mem_iff.2 (List.mem_of_getLast? hx)
  rcases Option.isSome_iff_exists.1 (List.getLast?_isSome.2 (List.ne_nil_of_mem hmem)) with ⟨z, hz⟩
  rcases h.before_last hz hmem with rfl | hxz
  · exact hz
  · have hzmem : z ∈ left.take limit := hfirst.mem_iff.1 (List.mem_of_getLast? hz)
    rcases List.getLast?_eq_some_iff.1 hx with ⟨front, hfront⟩
    have htaken := hsplit.1
    rw [hfront, List.pairwise_append] at htaken
    rw [hfront] at hzmem
    rcases List.mem_append.1 hzmem with hzmem | hzmem
    · have hkey := htaken.2.2 z hzmem x (by simp)
      have hrank := hbefore z (by simp [hfront, hzmem])
      unfold Before at hxz
      omega
    · rw [List.mem_singleton.1 hzmem] at hz
      exact hz

end Page

/-! ## Following the cursor -/

section Follow

variable {limit : Nat} {fetch : Option Nat → Except ε (List α × Option Nat)} {c : Option Nat}

/-- Every fetch with the number of an element is a page of the scan behind it. -/
def Scans (key rank : α → Nat) (limit : Nat) (all : List α)
    (fetch : Option Nat → Except ε (List α × Option Nat)) : Prop :=
  ∀ c, Resumes key all c → ∃ scanned page next, fetch c = .ok (page, next) ∧
    PageOf key rank limit (after key all c) scanned page next

/-- If the listing is aligned, its pages are the listing. -/
theorem pages_of_aligned (hall : all.Pairwise fun a b => key a < key b) (hlimit : 1 ≤ limit)
    (hfetch : Scans key rank limit all fetch) (hc : Resumes key all c)
    (haligned : Aligned rank limit (after key all c)) :
    ∃ pages, Pages fetch c pages ∧ (∀ page ∈ pages, page.length ≤ limit) ∧
      pages.flatten = after key all c := by
  -- every page with a cursor leaves less to list
  induction hn : (after key all c).length using Nat.strong_induction_on generalizing c with
  | _ n ih =>
      have hleft := hall.sublist (after_sublist key all c)
      rcases hfetch c hc with ⟨scanned, page, next, hok, hpage⟩
      cases next with
      | none => exact ⟨[page], .last hok, by simpa using hpage.length_le,
          by simpa using hpage.eq_of_done hleft⟩
      | some k =>
          rcases hpage.more k rfl with ⟨hlong, z, hz, rfl⟩
          rw [hpage.perm.length_eq] at hlong
          rcases (aligned_iff hlimit).1 haligned with ⟨hhead, hrest⟩
          have hlast : ((after key all c).take limit).getLast? = (after key all c)[limit - 1]? :=
            getLast?_take_eq hlimit hlong
          have hsome : (after key all c)[limit - 1]? = some ((after key all c)[limit - 1]) :=
            List.getElem?_eq_getElem (by omega)
          rcases hhead _ hsome with ⟨hbefore, hbehind⟩
          rcases hpage.eq_take hleft (hlast.trans hsome) hbefore hbehind with ⟨rfl, hvisited⟩
          have hlastz : ((after key all c).take limit).getLast? = some z := by
            rw [hlast, hsome, ← hvisited hlong, hz]
          have hnext := after_last hall hlastz
          have hz' : Resumes key all (some (key z)) :=
            resumes_of_mem (List.mem_of_mem_take (List.mem_of_getLast? hlastz))
          have hshorter : (after key all (some (key z))).length < n := by
            rw [hnext, List.length_drop]
            omega
          rcases ih _ hshorter hz' (hnext ▸ hrest) rfl with ⟨pages, hpages, hlengths, hflat⟩
          refine ⟨(after key all c).take limit :: pages, .more hok hpages, ?_, ?_⟩
          · intro page hmem
            rcases List.mem_cons.1 hmem with rfl | hmem
            · exact List.length_take_le _ _
            · exact hlengths page hmem
          · rw [List.flatten_cons, hflat, hnext, List.take_append_drop]

/-- An element that the cursor has not passed is on the next page again. -/
theorem PageOf.mem_next {left left' scanned scanned' page page' : List α} {next next' : Option Nat}
    (h : PageOf key rank limit left scanned page next)
    (h' : PageOf key rank limit left' scanned' page' next') (hsub : left' ⊆ left) {x : α}
    (hx : x ∈ page) (hx' : x ∈ left') : x ∈ page' := by
  classical
  rw [h.taken.mem_iff] at hx
  rw [h'.taken.mem_iff]
  by_contra hout
  have hdrop : x ∈ scanned'.drop limit := by
    have hscanned : x ∈ scanned' := h'.perm.mem_iff.2 hx'
    rw [← List.take_append_drop limit scanned'] at hscanned
    exact (List.mem_append.1 hscanned).resolve_left hout
  -- a full page would come before it, made of other elements of the page that it is on
  have hsubset : scanned'.take limit ⊆ (scanned.take limit).erase x := by
    intro y hy
    have hyx := h'.before_of_mem_drop hy hdrop
    have hmem : y ∈ scanned :=
      h.perm.mem_iff.2 (hsub (h'.perm.mem_iff.1 (List.mem_of_mem_take hy)))
    have hne : y ≠ x := by
      rintro rfl
      exact hyx.asymm hyx
    exact (List.mem_erase_of_ne hne).2 (h.mem_take_of_before hx hmem hyx)
  have hnodup : (scanned'.take limit).Nodup := h'.nodup.sublist (List.take_sublist _ _)
  have hcount := (List.subperm_of_subset hnodup hsubset).length_le
  have hfull := List.length_pos_of_mem hdrop
  have hroom := List.length_pos_of_mem hx
  rw [List.length_drop] at hfull
  rw [List.length_erase_of_mem hx] at hcount
  rw [List.length_take] at hcount hroom
  rw [List.length_take] at hcount
  omega

/-- If a page is the beginning of the listing and no element of it is listed again, its cursor is
the number of its last element. -/
theorem PageOf.last_visited {left scanned : List α} {next : Option Nat}
    (h : PageOf key rank limit left scanned (left.take limit) next)
    (hleft : left.Pairwise fun a b => key a < key b) {x z : α}
    (hx : (left.take limit).getLast? = some x) (hz : (scanned.take limit).getLast? = some z)
    (honce : ∀ y ∈ left.take limit, ¬ key z < key y) : z = x := by
  have hzpage : z ∈ left.take limit := h.taken.mem_iff.2 (List.mem_of_getLast? hz)
  rcases List.getLast?_eq_some_iff.1 hx with ⟨front, hfront⟩
  have hordered := hleft.sublist (List.take_sublist limit _)
  rw [hfront, List.pairwise_append] at hordered
  rw [hfront] at hzpage
  rcases List.mem_append.1 hzpage with hz | hz
  · exact absurd (hordered.2.2 z hz x (by simp)) (honce x (List.mem_of_getLast? hx))
  · exact List.mem_singleton.1 hz

/-- The page ends in line with the scan. -/
theorem PageOf.in_line {left scanned : List α} {next : Option Nat}
    (h : PageOf key rank limit left scanned (left.take limit) next)
    (hleft : left.Nodup) {x : α} (hx : (scanned.take limit).getLast? = some x) :
    (∀ y ∈ left.take limit, rank y ≤ rank x) ∧ ∀ y ∈ left.drop limit, rank x ≤ rank y := by
  constructor
  · intro y hy
    rcases h.before_last hx (h.taken.mem_iff.1 hy) with rfl | hbefore
    · exact le_rfl
    · unfold Before at hbefore
      omega
  · intro y hy
    have hout : y ∉ scanned.take limit := by
      intro hmem
      rw [← List.take_append_drop limit left, List.nodup_append] at hleft
      exact hleft.2.2 y (h.taken.mem_iff.2 hmem) y hy rfl
    have hmem : y ∈ scanned := h.perm.mem_iff.2 (List.mem_of_mem_drop hy)
    rw [← List.take_append_drop limit scanned] at hmem
    have hbefore := h.before_of_mem_drop (List.mem_of_getLast? hx)
      ((List.mem_append.1 hmem).resolve_left hout)
    unfold Before at hbefore
    omega

/-- If the pages are the listing, and a page without a cursor is not full, the listing is aligned. -/
theorem aligned_of_pages (hall : all.Pairwise fun a b => key a < key b) (hlimit : 1 ≤ limit)
    (hfetch : Scans key rank limit all fetch)
    (hfull : ∀ c, Resumes key all c → ∀ page, fetch c = .ok (page, none) → page.length < limit)
    (hc : Resumes key all c) {pages : List (List α)} (hpages : Pages fetch c pages)
    (hflat : pages.flatten = after key all c) : Aligned rank limit (after key all c) := by
  induction hpages with
  | @last c page hok =>
      -- the page is not full, so there is no end of a page
      have hshort := hfull c hc page hok
      rw [List.flatten_singleton] at hflat
      intro m x hx
      have hpos : limit ≤ (m + 1) * limit := Nat.le_mul_of_pos_left limit (Nat.succ_pos m)
      have hlt := (List.getElem?_eq_some_iff.1 hx).1
      rw [← hflat] at hlt
      omega
  | @more c page k rest hok hrest ih =>
      have hleft := hall.sublist (after_sublist key all c)
      have hnodup : (after key all c).Nodup := hleft.imp fun hlt heq => hlt.ne (congrArg key heq)
      rcases hfetch c hc with ⟨scanned, page', next, hok', hpage⟩
      cases hok.symm.trans hok'
      rcases hpage.more k rfl with ⟨hlong, z, hz, rfl⟩
      -- the page has `limit` elements, so it is the beginning of the listing
      have hlength : page.length = limit := by
        rw [hpage.taken.length_eq, List.length_take_of_le hlong]
      rw [hpage.perm.length_eq] at hlong
      rw [List.flatten_cons] at hflat
      have hother : rest.flatten = (after key all c).drop limit := by
        rw [← hflat, ← hlength, List.drop_left]
      have hfirst : page = (after key all c).take limit := by
        rw [← hflat, ← hlength, List.take_left]
      subst hfirst
      have hzmem : z ∈ after key all c :=
        List.mem_of_mem_take (hpage.taken.mem_iff.2 (List.mem_of_getLast? hz))
      have hz' : Resumes key all (some (key z)) := resumes_of_mem hzmem
      -- an element of the page behind its cursor would be on the next page as well
      have honce : ∀ y ∈ (after key all c).take limit, ¬ key z < key y := by
        intro y hy hlt
        rcases hfetch _ hz' with ⟨scanned', page', next', hok', hpage'⟩
        have hyleft : y ∈ after key all (some (key z)) :=
          List.mem_filter.2 ⟨(after_sublist key all c).subset (List.mem_of_mem_take hy), decide_eq_true hlt⟩
        have hynext := hrest.mem_flatten hok' (hpage.mem_next hpage' (after_subset hzmem) hy hyleft)
        rw [hother] at hynext
        rw [← List.take_append_drop limit (after key all c), List.nodup_append] at hnodup
        exact hnodup.2.2 y hy y hynext rfl
      have hlt : limit - 1 < (after key all c).length := by omega
      have hlast := (getLast?_take_eq hlimit hlong).trans (List.getElem?_eq_getElem hlt)
      have hzlast := hpage.last_visited hleft hlast hz honce
      rw [← hzlast] at hlast
      have hnext := after_last hall hlast
      refine (aligned_iff hlimit).2 ⟨fun y hy => ?_, ?_⟩
      · rw [List.getElem?_eq_getElem hlt, ← hzlast] at hy
        cases hy
        exact hpage.in_line hnodup hz
      · rw [← hnext]
        exact ih hz' (by rw [hother, hnext])

end Follow

end Ordered
end Library
end ControlDB
