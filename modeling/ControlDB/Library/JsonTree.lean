import ControlDB.Library.Delimited

/-!
# JSON trees and their texts

Trees over arbitrary leaves and keys, printed without spaces.  The text of a leaf need not be
readable on its own: a number ends where the next punctuation mark begins.  `LeafCode` asks for no
more than that, and `text_injective` lifts it to whole trees.
-/

namespace ControlDB
namespace Library

universe u

inductive JsonTree (L K : Type u)
  | leaf (l : L)
  | arr (items : List (JsonTree L K))
  | obj (members : List (K × JsonTree L K))

namespace JsonTree

variable {L K : Type u}

/-! ## Printing -/

section Print

variable (leafText : L → List Char) (keyText : K → List Char)

mutual

def text : JsonTree L K → List Char
  | leaf l => leafText l
  | arr items => '[' :: itemsText items
  | obj members => '{' :: membersText members

/-- The items of an array with its closing bracket. -/
def itemsText : List (JsonTree L K) → List Char
  | [] => [']']
  | t :: rest => text t ++ moreItems rest

def moreItems : List (JsonTree L K) → List Char
  | [] => [']']
  | t :: rest => ',' :: (text t ++ moreItems rest)

/-- The members of an object with its closing brace. -/
def membersText : List (K × JsonTree L K) → List Char
  | [] => ['}']
  | (k, t) :: rest => keyText k ++ ':' :: (text t ++ moreMembers rest)

def moreMembers : List (K × JsonTree L K) → List Char
  | [] => ['}']
  | (k, t) :: rest => ',' :: (keyText k ++ ':' :: (text t ++ moreMembers rest))

end

end Print

/-! ## Sorting the members -/

section SortedKeys

variable [LinearOrder K]

mutual

/-- The tree with the members of every object sorted by key. -/
def sortKeys : JsonTree L K → JsonTree L K
  | leaf l => leaf l
  | arr items => arr (sortItems items)
  | obj members => obj ((sortMembers members).insertionSort fun a b => a.1 ≤ b.1)

def sortItems : List (JsonTree L K) → List (JsonTree L K)
  | [] => []
  | t :: rest => sortKeys t :: sortItems rest

def sortMembers : List (K × JsonTree L K) → List (K × JsonTree L K)
  | [] => []
  | (k, t) :: rest => (k, sortKeys t) :: sortMembers rest

end

theorem map_fst_sortMembers (members : List (K × JsonTree L K)) :
    (sortMembers members).map Prod.fst = members.map Prod.fst := by
  induction members with
  | nil => rfl
  | cons m rest ih =>
      rcases m with ⟨k, t⟩
      simp [sortMembers, ih]

theorem sortMembers_eq_map (members : List (K × JsonTree L K)) :
    sortMembers members = members.map fun m => (m.1, m.2.sortKeys) := by
  induction members with
  | nil => rfl
  | cons m rest ih =>
      rcases m with ⟨k, t⟩
      simp [sortMembers, ih]

omit [LinearOrder K] in
/-- Two lists with the same distinct keys in the same order hold the same values if they hold the
same entries. -/
theorem eq_of_perm_of_keys {V : Type*} {l m : List (K × V)} (hkeys : l.map Prod.fst = m.map Prod.fst)
    (hnodup : (l.map Prod.fst).Nodup) (hperm : l.Perm m) : l = m := by
  induction l generalizing m with
  | nil => exact hperm.nil_eq
  | cons e l ih =>
      cases m with
      | nil => cases hkeys
      | cons f m =>
          rcases List.cons.inj hkeys with ⟨hkey, hrest⟩
          rcases List.nodup_cons.1 hnodup with ⟨hnew, hnodup'⟩
          -- the first key occurs only once, so the first entry is where the other list has it
          have hef : e = f := by
            rcases List.mem_cons.1 (hperm.subset List.mem_cons_self) with heq | htail
            · exact heq
            · exact (hnew (hrest ▸ List.mem_map_of_mem htail)).elim
          rw [hef] at hperm ⊢
          rw [ih hrest hnodup' hperm.cons_inv]

/-- With distinct keys, the sorted object determines the sorted values of its members. -/
theorem sortMembers_eq_of_sortKeys {members members' : List (K × JsonTree L K)}
    (hkeys : members.map Prod.fst = members'.map Prod.fst)
    (hnodup : (members.map Prod.fst).Nodup)
    (h : (obj members).sortKeys = (obj members').sortKeys) :
    sortMembers members = sortMembers members' := by
  apply eq_of_perm_of_keys
  · rw [map_fst_sortMembers, map_fst_sortMembers, hkeys]
  · rw [map_fst_sortMembers]
    exact hnodup
  · simp only [sortKeys, obj.injEq] at h
    exact ((List.perm_insertionSort _ _).symm.trans (by rw [h])).trans (List.perm_insertionSort _ _)

/-- With distinct keys, sorted objects are the same if their sorted members are, in some order. -/
theorem sortKeys_obj_eq_iff {members members' : List (K × JsonTree L K)}
    (hnodup : (members.map Prod.fst).Nodup) :
    (obj members).sortKeys = (obj members').sortKeys ↔
      (sortMembers members).Perm (sortMembers members') := by
  have hsort : ∀ l : List (K × JsonTree L K), (l.insertionSort fun a b => a.1 ≤ b.1).Perm l :=
    fun l => List.perm_insertionSort _ l
  have hordered : ∀ l : List (K × JsonTree L K),
      ((l.insertionSort fun a b => a.1 ≤ b.1).map Prod.fst).Pairwise (· ≤ ·) := fun l =>
    List.pairwise_map.2 (List.pairwise_insertionSort _ l)
  simp only [sortKeys, obj.injEq]
  constructor
  · intro h
    exact ((hsort _).symm.trans (by rw [h])).trans (hsort _)
  · intro hperm
    have hperm' := ((hsort (sortMembers members)).trans hperm).trans (hsort _).symm
    apply eq_of_perm_of_keys
    · exact (hperm'.map Prod.fst).eq_of_pairwise (fun _ _ _ _ => le_antisymm) (hordered _) (hordered _)
    · rw [((hsort _).map Prod.fst).nodup_iff, map_fst_sortMembers]
      exact hnodup
    · exact hperm'

end SortedKeys

/-! ## Reading a text back -/

/-- Nothing follows, or a mark that ends a value. -/
def Ended (x : List Char) : Prop :=
  x = [] ∨ ∃ c rest, x = c :: rest ∧ (c = ',' ∨ c = ']' ∨ c = '}')

/-- Leaf texts are told apart when a value ends behind them, and do not begin with punctuation. -/
structure LeafCode (leafText : L → List Char) : Prop where
  read : ∀ {l m x y}, Ended x → Ended y → leafText l ++ x = leafText m ++ y → l = m ∧ x = y
  head : ∀ l, ∃ c rest, leafText l = c :: rest ∧ c ≠ '[' ∧ c ≠ '{' ∧ c ≠ ']'

/-- Key texts are told apart by the colon behind them. -/
structure KeyCode (keyText : K → List Char) : Prop where
  read : ∀ {k m x y}, keyText k ++ ':' :: x = keyText m ++ ':' :: y → k = m ∧ x = y
  head : ∀ k, ∃ c rest, keyText k = c :: rest ∧ c ≠ '}'

/-- Texts without such marks are told apart when values end behind them. -/
theorem eq_of_append_ended {u v x y : List Char}
    (hu : ∀ c ∈ u, c ≠ ',' ∧ c ≠ ']' ∧ c ≠ '}') (hv : ∀ c ∈ v, c ≠ ',' ∧ c ≠ ']' ∧ c ≠ '}')
    (hx : Ended x) (hy : Ended y) (h : u ++ x = v ++ y) : u = v ∧ x = y := by
  -- what one text has more than the other would begin with the mark behind the shorter one
  have hnone : ∀ {w z : List Char}, Ended (w ++ z) →
      (∀ c ∈ w, c ≠ ',' ∧ c ≠ ']' ∧ c ≠ '}') → w = [] := by
    intro w z hended hw
    cases w with
    | nil => rfl
    | cons c w =>
        have hc := hw c List.mem_cons_self
        rcases hended with hnil | ⟨d, rest, heq, hd⟩
        · simp at hnil
        · rw [(List.cons.inj heq).1] at hc
          rcases hd with rfl | rfl | rfl <;> simp at hc
  rcases List.append_eq_append_iff.1 h with ⟨w, rfl, rfl⟩ | ⟨w, rfl, rfl⟩
  · obtain rfl := hnone hx fun c hc => hv c (List.mem_append_right _ hc)
    simp
  · obtain rfl := hnone hy fun c hc => hu c (List.mem_append_right _ hc)
    simp

section Injective

variable {leafText : L → List Char} {keyText : K → List Char}

theorem ended_moreItems (items : List (JsonTree L K)) (x : List Char) :
    Ended (moreItems leafText keyText items ++ x) := by
  cases items with
  | nil => exact .inr ⟨']', x, rfl, by simp⟩
  | cons t rest => exact .inr ⟨',', _, rfl, by simp⟩

theorem ended_moreMembers (members : List (K × JsonTree L K)) (x : List Char) :
    Ended (moreMembers leafText keyText members ++ x) := by
  cases members with
  | nil => exact .inr ⟨'}', x, rfl, by simp⟩
  | cons m rest => exact .inr ⟨',', _, rfl, by simp⟩

/-- A value never begins like the end of an array. -/
theorem text_head (hleaf : LeafCode leafText) (keyText : K → List Char)
    (t : JsonTree L K) : ∃ c rest, text leafText keyText t = c :: rest ∧ c ≠ ']' := by
  cases t with
  | leaf l =>
      rcases hleaf.head l with ⟨c, rest, htext, _, _, hc⟩
      exact ⟨c, rest, by simp [text, htext], hc⟩
  | arr items => exact ⟨'[', _, rfl, by decide⟩
  | obj members => exact ⟨'{', _, rfl, by decide⟩

mutual

/-- A value that ends is determined by its text, and so is what follows it. -/
theorem text_read (hleaf : LeafCode leafText) (hkey : KeyCode keyText) :
    ∀ {t u : JsonTree L K} {x y : List Char}, Ended x → Ended y →
    text leafText keyText t ++ x = text leafText keyText u ++ y → t = u ∧ x = y
  | leaf l, leaf m, x, y, hx, hy, h => by
      rcases hleaf.read hx hy h with ⟨rfl, rfl⟩
      exact ⟨rfl, rfl⟩
  | leaf l, arr items, x, y, _, _, h => by
      rcases hleaf.head l with ⟨c, rest, htext, hc, _, _⟩
      simp [text, htext, hc] at h
  | leaf l, obj members, x, y, _, _, h => by
      rcases hleaf.head l with ⟨c, rest, htext, _, hc, _⟩
      simp [text, htext, hc] at h
  | arr items, leaf m, x, y, _, _, h => by
      rcases hleaf.head m with ⟨c, rest, htext, hc, _, _⟩
      simp [text, htext, Ne.symm hc] at h
  | arr items, arr items', x, y, _, _, h => by
      rcases itemsText_read hleaf hkey (by simpa [text] using h) with ⟨rfl, rfl⟩
      exact ⟨rfl, rfl⟩
  | arr items, obj members, x, y, _, _, h => by simp [text] at h
  | obj members, leaf m, x, y, _, _, h => by
      rcases hleaf.head m with ⟨c, rest, htext, _, hc, _⟩
      simp [text, htext, Ne.symm hc] at h
  | obj members, arr items, x, y, _, _, h => by simp [text] at h
  | obj members, obj members', x, y, _, _, h => by
      rcases membersText_read hleaf hkey (by simpa [text] using h) with ⟨rfl, rfl⟩
      exact ⟨rfl, rfl⟩

theorem itemsText_read (hleaf : LeafCode leafText) (hkey : KeyCode keyText) :
    ∀ {l m : List (JsonTree L K)} {x y : List Char},
    itemsText leafText keyText l ++ x = itemsText leafText keyText m ++ y → l = m ∧ x = y
  | [], [], x, y, h => ⟨rfl, by simpa [itemsText] using h⟩
  | [], u :: us, x, y, h => by
      rcases text_head hleaf keyText u with ⟨c, rest, htext, hc⟩
      simp [itemsText, htext, Ne.symm hc] at h
  | t :: ts, [], x, y, h => by
      rcases text_head hleaf keyText t with ⟨c, rest, htext, hc⟩
      simp [itemsText, htext, hc] at h
  | t :: ts, u :: us, x, y, h => by
      simp only [itemsText, List.append_assoc] at h
      rcases text_read hleaf hkey (ended_moreItems ts x) (ended_moreItems us y) h with ⟨rfl, hrest⟩
      rcases moreItems_read hleaf hkey hrest with ⟨rfl, rfl⟩
      exact ⟨rfl, rfl⟩

theorem moreItems_read (hleaf : LeafCode leafText) (hkey : KeyCode keyText) :
    ∀ {l m : List (JsonTree L K)} {x y : List Char},
    moreItems leafText keyText l ++ x = moreItems leafText keyText m ++ y → l = m ∧ x = y
  | [], [], x, y, h => ⟨rfl, by simpa [moreItems] using h⟩
  | [], u :: us, x, y, h => by simp [moreItems] at h
  | t :: ts, [], x, y, h => by simp [moreItems] at h
  | t :: ts, u :: us, x, y, h => by
      simp only [moreItems, List.cons_append, List.cons.injEq, true_and, List.append_assoc] at h
      rcases text_read hleaf hkey (ended_moreItems ts x) (ended_moreItems us y) h with ⟨rfl, hrest⟩
      rcases moreItems_read hleaf hkey hrest with ⟨rfl, rfl⟩
      exact ⟨rfl, rfl⟩

theorem membersText_read (hleaf : LeafCode leafText) (hkey : KeyCode keyText) :
    ∀ {l m : List (K × JsonTree L K)} {x y : List Char},
    membersText leafText keyText l ++ x = membersText leafText keyText m ++ y → l = m ∧ x = y
  | [], [], x, y, h => ⟨rfl, by simpa [membersText] using h⟩
  | [], (k, u) :: us, x, y, h => by
      rcases hkey.head k with ⟨c, rest, htext, hc⟩
      simp [membersText, htext, Ne.symm hc] at h
  | (k, t) :: ts, [], x, y, h => by
      rcases hkey.head k with ⟨c, rest, htext, hc⟩
      simp [membersText, htext, hc] at h
  | (k, t) :: ts, (k', u) :: us, x, y, h => by
      -- the key is read first, then the value up to its end, then the other members
      simp only [membersText, List.append_assoc, List.cons_append] at h
      rcases hkey.read h with ⟨rfl, hvalue⟩
      rcases text_read hleaf hkey (ended_moreMembers ts x) (ended_moreMembers us y) hvalue with ⟨rfl, hrest⟩
      rcases moreMembers_read hleaf hkey hrest with ⟨rfl, rfl⟩
      exact ⟨rfl, rfl⟩

theorem moreMembers_read (hleaf : LeafCode leafText) (hkey : KeyCode keyText) :
    ∀ {l m : List (K × JsonTree L K)} {x y : List Char},
    moreMembers leafText keyText l ++ x = moreMembers leafText keyText m ++ y → l = m ∧ x = y
  | [], [], x, y, h => ⟨rfl, by simpa [moreMembers] using h⟩
  | [], (k, u) :: us, x, y, h => by simp [moreMembers] at h
  | (k, t) :: ts, [], x, y, h => by simp [moreMembers] at h
  | (k, t) :: ts, (k', u) :: us, x, y, h => by
      simp only [moreMembers, List.cons_append, List.cons.injEq, true_and, List.append_assoc] at h
      rcases hkey.read h with ⟨rfl, hvalue⟩
      rcases text_read hleaf hkey (ended_moreMembers ts x) (ended_moreMembers us y) hvalue with ⟨rfl, hrest⟩
      rcases moreMembers_read hleaf hkey hrest with ⟨rfl, rfl⟩
      exact ⟨rfl, rfl⟩

end

theorem text_injective (hleaf : LeafCode leafText) (hkey : KeyCode keyText) :
    Function.Injective (text leafText keyText : JsonTree L K → List Char) := by
  intro t u h
  have hread := text_read hleaf hkey (t := t) (u := u) (.inl rfl) (.inl rfl) (by simpa using h)
  exact hread.1

end Injective

end JsonTree
end Library
end ControlDB
