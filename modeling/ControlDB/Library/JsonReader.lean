import ControlDB.Library.JsonMembers

/-!
# Reading JSON trees

The recursive part of a JSON reader, over readers of leaves and of keys: arrays, objects, and the
spaces around values and marks.  `build` makes a tree of the members that were read.  More fuel changes
no result (`readValue_of_le`), two units for each character are enough (`read_enough`), and a tree that
is printed with spaces between its parts is read as it was (`readText_lay`).
-/

namespace ControlDB
namespace Library
namespace JsonTree

universe u

variable {L K K' : Type u}

/-- What is read off the front of a text, and what is left of it. -/
abbrev Reader (α : Type u) := List Char → Option (α × List Char)

def isSpace (c : Char) : Bool :=
  c = ' ' || c = '\t' || c = '\n' || c = '\r'

def skipSpace (text : List Char) : List Char :=
  text.dropWhile isSpace

section Read

variable (readLeaf : Reader L) (readKey : Reader K') (build : List (K' × JsonTree L K) → JsonTree L K)

mutual

def readValue : Nat → Reader (JsonTree L K)
  | 0, _ => none
  | fuel + 1, '{' :: rest =>
      match skipSpace rest with
      | '}' :: rest => some (build [], rest)
      | rest => (readMembers fuel rest).map fun r => (build r.1, r.2)
  | fuel + 1, '[' :: rest =>
      match skipSpace rest with
      | ']' :: rest => some (arr [], rest)
      | rest => (readItems fuel rest).map fun r => (arr r.1, r.2)
  | _ + 1, text => (readLeaf text).map fun r => (leaf r.1, r.2)

/-- The items up to the closing bracket. -/
def readItems : Nat → Reader (List (JsonTree L K))
  | 0, _ => none
  | fuel + 1, text =>
      (readValue fuel text).bind fun r =>
        match skipSpace r.2 with
        | ']' :: rest => some ([r.1], rest)
        | ',' :: rest => (readItems fuel (skipSpace rest)).map fun r' => (r.1 :: r'.1, r'.2)
        | _ => none

/-- The members up to the closing brace. -/
def readMembers : Nat → Reader (List (K' × JsonTree L K))
  | 0, _ => none
  | fuel + 1, text =>
      (readKey text).bind fun k =>
        match skipSpace k.2 with
        | ':' :: rest =>
            (readValue fuel (skipSpace rest)).bind fun r =>
              match skipSpace r.2 with
              | '}' :: rest => some ([(k.1, r.1)], rest)
              | ',' :: rest =>
                  (readMembers fuel (skipSpace rest)).map fun r' => ((k.1, r.1) :: r'.1, r'.2)
              | _ => none
        | _ => none

end

end Read

section Fuel

variable {readLeaf : Reader L} {readKey : Reader K'}
  {build : List (K' × JsonTree L K) → JsonTree L K}

theorem readValue_zero (text : List Char) : readValue readLeaf readKey build 0 text = none := by
  rw [readValue]

theorem readItems_zero (text : List Char) : readItems readLeaf readKey build 0 text = none := by
  rw [readItems]

theorem readMembers_zero (text : List Char) : readMembers readLeaf readKey build 0 text = none := by
  rw [readMembers]

/-- What `readValue` does. -/
theorem readValue_iff {fuel : Nat} {text : List Char} {r : JsonTree L K × List Char} :
    readValue readLeaf readKey build (fuel + 1) text = some r ↔
      (∃ rest, text = '{' :: rest ∧ ((∃ rest', skipSpace rest = '}' :: rest' ∧ r = (build [], rest')) ∨
        (∀ rest', skipSpace rest ≠ '}' :: rest') ∧
          ∃ r', readMembers readLeaf readKey build fuel (skipSpace rest) = some r' ∧
            r = (build r'.1, r'.2))) ∨
      (∃ rest, text = '[' :: rest ∧ ((∃ rest', skipSpace rest = ']' :: rest' ∧ r = (arr [], rest')) ∨
        (∀ rest', skipSpace rest ≠ ']' :: rest') ∧
          ∃ r', readItems readLeaf readKey build fuel (skipSpace rest) = some r' ∧
            r = (arr r'.1, r'.2))) ∨
      ((∀ rest, text ≠ '{' :: rest) ∧ (∀ rest, text ≠ '[' :: rest) ∧
        ∃ r', readLeaf text = some r' ∧ r = (leaf r'.1, r'.2)) := by
  rw [readValue.eq_def]
  rcases text with _ | ⟨c, text⟩
  · simp [eq_comm]
  · by_cases hbrace : c = '{'
    · subst hbrace
      rcases hskip : skipSpace text with _ | ⟨d, rest⟩
      · simp [hskip, eq_comm]
      · by_cases hd : d = '}'
        · subst hd
          simp [hskip, eq_comm]
        · simp [hskip, hd, eq_comm]
    · by_cases hbracket : c = '['
      · subst hbracket
        rcases hskip : skipSpace text with _ | ⟨d, rest⟩
        · simp [hskip, eq_comm]
        · by_cases hd : d = ']'
          · subst hd
            simp [hskip, eq_comm]
          · simp [hskip, hd, eq_comm]
      · simp [hbrace, hbracket, eq_comm]

theorem readItems_iff {fuel : Nat} {text : List Char} {r : List (JsonTree L K) × List Char} :
    readItems readLeaf readKey build (fuel + 1) text = some r ↔
      ∃ t rest, readValue readLeaf readKey build fuel text = some (t, rest) ∧
        ((∃ rest', skipSpace rest = ']' :: rest' ∧ r = ([t], rest')) ∨
          ∃ rest' r', skipSpace rest = ',' :: rest' ∧
            readItems readLeaf readKey build fuel (skipSpace rest') = some r' ∧
              r = (t :: r'.1, r'.2)) := by
  rw [readItems, Option.bind_eq_some_iff, Prod.exists]
  refine exists_congr fun t => exists_congr fun rest => and_congr_right fun _ => ?_
  rcases skipSpace rest with _ | ⟨d, rest'⟩
  · simp
  · by_cases hbracket : d = ']'
    · subst hbracket
      simp [eq_comm]
    · by_cases hcomma : d = ','
      · subst hcomma
        simp [eq_comm]
      · simp [hbracket, hcomma]

theorem readMembers_iff {fuel : Nat} {text : List Char} {r : List (K' × JsonTree L K) × List Char} :
    readMembers readLeaf readKey build (fuel + 1) text = some r ↔
      ∃ k rest, readKey text = some (k, rest) ∧ ∃ rest', skipSpace rest = ':' :: rest' ∧
        ∃ t rest, readValue readLeaf readKey build fuel (skipSpace rest') = some (t, rest) ∧
          ((∃ rest', skipSpace rest = '}' :: rest' ∧ r = ([(k, t)], rest')) ∨
            ∃ rest' r', skipSpace rest = ',' :: rest' ∧
              readMembers readLeaf readKey build fuel (skipSpace rest') = some r' ∧
                r = ((k, t) :: r'.1, r'.2)) := by
  rw [readMembers, Option.bind_eq_some_iff, Prod.exists]
  refine exists_congr fun k => exists_congr fun rest => and_congr_right fun _ => ?_
  rcases skipSpace rest with _ | ⟨d, rest'⟩
  · simp
  · by_cases hcolon : d = ':'
    · subst hcolon
      simp only [List.cons.injEq, true_and, exists_eq_left', Option.bind_eq_some_iff, Prod.exists]
      refine exists_congr fun t => exists_congr fun rest => and_congr_right fun _ => ?_
      rcases skipSpace rest with _ | ⟨d, rest'⟩
      · simp
      · by_cases hbrace : d = '}'
        · subst hbrace
          simp [eq_comm]
        · by_cases hcomma : d = ','
          · subst hcomma
            simp [eq_comm]
          · simp [hbrace, hcomma]
    · simp [hcolon]

/-- One more unit of fuel changes no result. -/
theorem read_succ (fuel : Nat) :
    (∀ text r, readValue readLeaf readKey build fuel text = some r →
      readValue readLeaf readKey build (fuel + 1) text = some r) ∧
    (∀ text r, readItems readLeaf readKey build fuel text = some r →
      readItems readLeaf readKey build (fuel + 1) text = some r) ∧
    ∀ text r, readMembers readLeaf readKey build fuel text = some r →
      readMembers readLeaf readKey build (fuel + 1) text = some r := by
  induction fuel with
  | zero => simp [readValue_zero, readItems_zero, readMembers_zero]
  | succ fuel ih =>
      rcases ih with ⟨ihvalue, ihitems, ihmembers⟩
      refine ⟨fun text r h => ?_, fun text r h => ?_, fun text r h => ?_⟩
      · rw [readValue_iff] at h ⊢
        rcases h with ⟨rest, htext, hclose | ⟨hopen, r', hr', hr⟩⟩ |
          ⟨rest, htext, hclose | ⟨hopen, r', hr', hr⟩⟩ | hleaf
        · exact .inl ⟨rest, htext, .inl hclose⟩
        · exact .inl ⟨rest, htext, .inr ⟨hopen, r', ihmembers _ _ hr', hr⟩⟩
        · exact .inr (.inl ⟨rest, htext, .inl hclose⟩)
        · exact .inr (.inl ⟨rest, htext, .inr ⟨hopen, r', ihitems _ _ hr', hr⟩⟩)
        · exact .inr (.inr hleaf)
      · rw [readItems_iff] at h ⊢
        rcases h with ⟨t, rest, hvalue, hclose | ⟨rest', r', hcomma, hr', hr⟩⟩
        · exact ⟨t, rest, ihvalue _ _ hvalue, .inl hclose⟩
        · exact ⟨t, rest, ihvalue _ _ hvalue, .inr ⟨rest', r', hcomma, ihitems _ _ hr', hr⟩⟩
      · rw [readMembers_iff] at h ⊢
        rcases h with ⟨k, rest, hkey, rest', hcolon, t, rest₁, hvalue,
          hclose | ⟨rest₂, r', hcomma, hr', hr⟩⟩
        · exact ⟨k, rest, hkey, rest', hcolon, t, rest₁, ihvalue _ _ hvalue, .inl hclose⟩
        · exact ⟨k, rest, hkey, rest', hcolon, t, rest₁, ihvalue _ _ hvalue,
            .inr ⟨rest₂, r', hcomma, ihmembers _ _ hr', hr⟩⟩

theorem readValue_of_le {fuel fuel' : Nat} (hle : fuel ≤ fuel') {text : List Char}
    {r : JsonTree L K × List Char} (h : readValue readLeaf readKey build fuel text = some r) :
    readValue readLeaf readKey build fuel' text = some r :=
  Nat.le_induction h (fun fuel _ ih => (read_succ fuel).1 text r ih) fuel' hle

theorem readItems_of_le {fuel fuel' : Nat} (hle : fuel ≤ fuel') {text : List Char}
    {r : List (JsonTree L K) × List Char}
    (h : readItems readLeaf readKey build fuel text = some r) :
    readItems readLeaf readKey build fuel' text = some r :=
  Nat.le_induction h (fun fuel _ ih => (read_succ fuel).2.1 text r ih) fuel' hle

theorem readMembers_of_le {fuel fuel' : Nat} (hle : fuel ≤ fuel') {text : List Char}
    {r : List (K' × JsonTree L K) × List Char}
    (h : readMembers readLeaf readKey build fuel text = some r) :
    readMembers readLeaf readKey build fuel' text = some r :=
  Nat.le_induction h (fun fuel _ ih => (read_succ fuel).2.2 text r ih) fuel' hle

end Fuel

/-! ## Enough fuel -/

theorem length_skipSpace_le (text : List Char) : (skipSpace text).length ≤ text.length :=
  (List.dropWhile_suffix _).length_le

/-- A reader takes a character at least. -/
def Consumes {α : Type u} (read : Reader α) : Prop :=
  ∀ {text r}, read text = some r → r.2.length < text.length

section Enough

variable {readLeaf : Reader L} {readKey : Reader K'}
  {build : List (K' × JsonTree L K) → JsonTree L K}

theorem length_lt_of_skipSpace {text rest : List Char} {c : Char} (h : skipSpace text = c :: rest) :
    rest.length < text.length :=
  calc rest.length < (skipSpace text).length := by rw [h]; exact Nat.lt_succ_self _
    _ ≤ text.length := length_skipSpace_le text

variable (build) in
theorem read_length_lt (hleaf : Consumes readLeaf) (hkey : Consumes readKey) (fuel : Nat) :
    (∀ text r, readValue readLeaf readKey build fuel text = some r → r.2.length < text.length) ∧
    (∀ text r, readItems readLeaf readKey build fuel text = some r → r.2.length < text.length) ∧
    ∀ text r, readMembers readLeaf readKey build fuel text = some r → r.2.length < text.length := by
  induction fuel with
  | zero => simp [readValue_zero, readItems_zero, readMembers_zero]
  | succ fuel ih =>
      rcases ih with ⟨ihvalue, ihitems, ihmembers⟩
      refine ⟨fun text r h => ?_, fun text r h => ?_, fun text r h => ?_⟩
      · rcases readValue_iff.1 h with ⟨rest, rfl, ⟨rest', hclose, rfl⟩ | ⟨_, r', hr', rfl⟩⟩ |
          ⟨rest, rfl, ⟨rest', hclose, rfl⟩ | ⟨_, r', hr', rfl⟩⟩ | ⟨_, _, r', hr', rfl⟩
        · exact (length_lt_of_skipSpace hclose).trans (Nat.lt_succ_self _)
        · exact ((ihmembers _ _ hr').trans_le (length_skipSpace_le rest)).trans (Nat.lt_succ_self _)
        · exact (length_lt_of_skipSpace hclose).trans (Nat.lt_succ_self _)
        · exact ((ihitems _ _ hr').trans_le (length_skipSpace_le rest)).trans (Nat.lt_succ_self _)
        · exact hleaf hr'
      · rcases readItems_iff.1 h with ⟨t, rest, hvalue, ⟨rest', hclose, rfl⟩ | ⟨rest', r', hcomma, hr', rfl⟩⟩
        · exact (length_lt_of_skipSpace hclose).trans (ihvalue _ _ hvalue)
        · calc r'.2.length < (skipSpace rest').length := ihitems _ _ hr'
            _ ≤ rest'.length := length_skipSpace_le rest'
            _ < rest.length := length_lt_of_skipSpace hcomma
            _ < text.length := ihvalue _ _ hvalue
      · rcases readMembers_iff.1 h with ⟨k, rest, hread, rest', hcolon, t, rest₁, hvalue, htail⟩
        have hmember : rest₁.length < text.length :=
          calc rest₁.length < (skipSpace rest').length := ihvalue _ _ hvalue
            _ ≤ rest'.length := length_skipSpace_le rest'
            _ < rest.length := length_lt_of_skipSpace hcolon
            _ < text.length := hkey hread
        rcases htail with ⟨rest₂, hclose, rfl⟩ | ⟨rest₂, r', hcomma, hr', rfl⟩
        · exact (length_lt_of_skipSpace hclose).trans hmember
        · calc r'.2.length < (skipSpace rest₂).length := ihmembers _ _ hr'
            _ ≤ rest₂.length := length_skipSpace_le rest₂
            _ < rest₁.length := length_lt_of_skipSpace hcomma
            _ < text.length := hmember

/-- Two units of fuel for each character are enough. -/
theorem read_enough (hleaf : Consumes readLeaf) (hkey : Consumes readKey) (fuel : Nat) :
    (∀ text r, readValue readLeaf readKey build fuel text = some r →
      readValue readLeaf readKey build (2 * text.length) text = some r) ∧
    (∀ text r, readItems readLeaf readKey build fuel text = some r →
      readItems readLeaf readKey build (2 * text.length + 1) text = some r) ∧
    ∀ text r, readMembers readLeaf readKey build fuel text = some r →
      readMembers readLeaf readKey build (2 * text.length + 1) text = some r := by
  induction fuel with
  | zero => simp [readValue_zero, readItems_zero, readMembers_zero]
  | succ fuel ih =>
      rcases ih with ⟨ihvalue, ihitems, ihmembers⟩
      rcases read_length_lt build hleaf hkey fuel with ⟨hvalueLt, _, _⟩
      -- what is read behind the first character needs less
      have hfuel : ∀ {text rest : List Char}, rest.length < text.length →
          2 * (skipSpace rest).length + 1 ≤ 2 * text.length - 1 := by
        intro text rest hlt
        have hskip := length_skipSpace_le rest
        omega
      refine ⟨fun text r h => ?_, fun text r h => ?_, fun text r h => ?_⟩
      · have hpos : 2 * text.length = 2 * text.length - 1 + 1 := by
          have hlt := (read_length_lt build hleaf hkey (fuel + 1)).1 text r h
          omega
        rw [hpos]
        refine readValue_iff.2 ?_
        rcases readValue_iff.1 h with ⟨rest, htext, hclose | ⟨hopen, r', hr', hr⟩⟩ |
          ⟨rest, htext, hclose | ⟨hopen, r', hr', hr⟩⟩ | hread
        · exact .inl ⟨rest, htext, .inl hclose⟩
        · have hlt : rest.length < text.length := by rw [htext]; exact Nat.lt_succ_self _
          have hmembers := readMembers_of_le (hfuel hlt) (ihmembers _ _ hr')
          exact .inl ⟨rest, htext, .inr ⟨hopen, r', hmembers, hr⟩⟩
        · exact .inr (.inl ⟨rest, htext, .inl hclose⟩)
        · have hlt : rest.length < text.length := by rw [htext]; exact Nat.lt_succ_self _
          have hitems := readItems_of_le (hfuel hlt) (ihitems _ _ hr')
          exact .inr (.inl ⟨rest, htext, .inr ⟨hopen, r', hitems, hr⟩⟩)
        · exact .inr (.inr hread)
      · refine readItems_iff.2 ?_
        rcases readItems_iff.1 h with ⟨t, rest, hvalue, hclose | ⟨rest', r', hcomma, hr', hr⟩⟩
        · exact ⟨t, rest, ihvalue _ _ hvalue, .inl hclose⟩
        · have hlt := (length_lt_of_skipSpace hcomma).trans (hvalueLt _ _ hvalue)
          have hle := (hfuel hlt).trans (Nat.sub_le _ _)
          exact ⟨t, rest, ihvalue _ _ hvalue,
            .inr ⟨rest', r', hcomma, readItems_of_le hle (ihitems _ _ hr'), hr⟩⟩
      · refine readMembers_iff.2 ?_
        rcases readMembers_iff.1 h with ⟨k, rest, hread, rest', hcolon, t, rest₁, hvalue, htail⟩
        have hlt := (length_lt_of_skipSpace hcolon).trans (hkey hread)
        have hle : 2 * (skipSpace rest').length ≤ 2 * text.length :=
          Nat.mul_le_mul_left 2 ((length_skipSpace_le rest').trans hlt.le)
        refine ⟨k, rest, hread, rest', hcolon, t, rest₁, readValue_of_le hle (ihvalue _ _ hvalue), ?_⟩
        rcases htail with hclose | ⟨rest₂, r', hcomma, hr', hr⟩
        · exact .inl hclose
        · have hlt₁ := (hvalueLt _ _ hvalue).trans_le (length_skipSpace_le rest')
          have hlt₂ := ((length_lt_of_skipSpace hcomma).trans hlt₁).trans hlt
          have hle' := (hfuel hlt₂).trans (Nat.sub_le _ _)
          exact .inr ⟨rest₂, r', hcomma, readMembers_of_le hle' (ihmembers _ _ hr'), hr⟩

end Enough

/-- The value of a whole text, with spaces around it. -/
def readText (readLeaf : Reader L) (readKey : Reader K')
    (build : List (K' × JsonTree L K) → JsonTree L K) (text : List Char) : Option (JsonTree L K) :=
  (readValue readLeaf readKey build (2 * (skipSpace text).length) (skipSpace text)).bind fun r =>
    if skipSpace r.2 = [] then some r.1 else none

/-! ## What is read -/

section Built

variable {readLeaf : Reader L} {readKey : Reader K'}
  {build : List (K' × JsonTree L K) → JsonTree L K}

/-- A property that leaves have when they are read, and that a tree has when its parts have it, holds
of every tree that is read. -/
theorem read_induction {P : JsonTree L K → Prop}
    (hleaf : ∀ text r, readLeaf text = some r → P (leaf r.1))
    (harr : ∀ items : List (JsonTree L K), (∀ t ∈ items, P t) → P (arr items))
    (hbuild : ∀ members : List (K' × JsonTree L K), (∀ m ∈ members, P m.2) → P (build members))
    (fuel : Nat) :
    (∀ text r, readValue readLeaf readKey build fuel text = some r → P r.1) ∧
    (∀ text r, readItems readLeaf readKey build fuel text = some r → ∀ t ∈ r.1, P t) ∧
    ∀ text r, readMembers readLeaf readKey build fuel text = some r → ∀ m ∈ r.1, P m.2 := by
  induction fuel with
  | zero => simp [readValue_zero, readItems_zero, readMembers_zero]
  | succ fuel ih =>
      rcases ih with ⟨ihvalue, ihitems, ihmembers⟩
      refine ⟨fun text r h => ?_, fun text r h => ?_, fun text r h => ?_⟩
      · rcases readValue_iff.1 h with ⟨rest, _, ⟨rest', _, rfl⟩ | ⟨_, r', hr', rfl⟩⟩ |
          ⟨rest, _, ⟨rest', _, rfl⟩ | ⟨_, r', hr', rfl⟩⟩ | ⟨_, _, r', hr', rfl⟩
        · exact hbuild [] (by simp)
        · exact hbuild r'.1 (ihmembers _ _ hr')
        · exact harr [] (by simp)
        · exact harr r'.1 (ihitems _ _ hr')
        · exact hleaf text r' hr'
      · rcases readItems_iff.1 h with ⟨t, rest, hvalue, ⟨_, _, rfl⟩ | ⟨_, r', _, hr', rfl⟩⟩
        · exact List.forall_mem_singleton.2 (ihvalue _ _ hvalue)
        · exact List.forall_mem_cons.2 ⟨ihvalue _ _ hvalue, ihitems _ _ hr'⟩
      · rcases readMembers_iff.1 h with ⟨k, _, _, _, _, t, _, hvalue, ⟨_, _, rfl⟩ | ⟨_, r', _, hr', rfl⟩⟩
        · exact List.forall_mem_singleton.2 (ihvalue _ _ hvalue)
        · exact List.forall_mem_cons.2 ⟨ihvalue _ _ hvalue, ihmembers _ _ hr'⟩

/-- What holds of every tree that is read holds of the value of a whole text. -/
theorem readText_induction {P : JsonTree L K → Prop}
    (hleaf : ∀ text r, readLeaf text = some r → P (leaf r.1))
    (harr : ∀ items : List (JsonTree L K), (∀ t ∈ items, P t) → P (arr items))
    (hbuild : ∀ members : List (K' × JsonTree L K), (∀ m ∈ members, P m.2) → P (build members))
    {text : List Char} {t : JsonTree L K} (h : readText readLeaf readKey build text = some t) : P t := by
  rcases Option.bind_eq_some_iff.1 h with ⟨r, hread, hend⟩
  have hvalue := (read_induction hleaf harr hbuild _).1 _ r hread
  split_ifs at hend
  cases hend
  exact hvalue

end Built

/-! ## Layouts -/

/-- Nothing but spaces. -/
def Blank (gap : List Char) : Prop :=
  ∀ c ∈ gap, isSpace c = true

/-- The spaces that a printer puts in front of a part at a depth, behind a comma and behind a colon. -/
structure Layout where
  line : Nat → List Char
  comma : List Char
  colon : List Char
  blank_line : ∀ depth, Blank (line depth)
  blank_comma : Blank comma
  blank_colon : Blank colon

/-- No spaces at all. -/
def Layout.compact : Layout where
  line _ := []
  comma := []
  colon := []
  blank_line := by simp [Blank]
  blank_comma := by simp [Blank]
  blank_colon := by simp [Blank]

section Lay

variable (layout : Layout) (leafText : L → List Char) (keyText : K → List Char)

mutual

/-- The text of a tree that stands at a depth. -/
def lay : Nat → JsonTree L K → List Char
  | _, leaf l => leafText l
  | depth, arr items => '[' :: layItems depth items
  | depth, obj members => '{' :: layMembers depth members

/-- The items of an array with its closing bracket. -/
def layItems : Nat → List (JsonTree L K) → List Char
  | _, [] => [']']
  | depth, t :: rest =>
      layout.line (depth + 1) ++ (lay (depth + 1) t ++ layMoreItems depth rest)

def layMoreItems : Nat → List (JsonTree L K) → List Char
  | depth, [] => layout.line depth ++ [']']
  | depth, t :: rest =>
      ',' :: (layout.comma ++
        (layout.line (depth + 1) ++ (lay (depth + 1) t ++ layMoreItems depth rest)))

/-- The members of an object with its closing brace. -/
def layMembers : Nat → List (K × JsonTree L K) → List Char
  | _, [] => ['}']
  | depth, (k, t) :: rest =>
      layout.line (depth + 1) ++ (keyText k ++ ':' ::
        (layout.colon ++ (lay (depth + 1) t ++ layMoreMembers depth rest)))

def layMoreMembers : Nat → List (K × JsonTree L K) → List Char
  | depth, [] => layout.line depth ++ ['}']
  | depth, (k, t) :: rest =>
      ',' :: (layout.comma ++ (layout.line (depth + 1) ++ (keyText k ++ ':' ::
        (layout.colon ++ (lay (depth + 1) t ++ layMoreMembers depth rest)))))

end

mutual

/-- Without spaces a tree is printed as `text` prints it. -/
theorem lay_compact : ∀ (depth : Nat) (t : JsonTree L K),
    lay .compact leafText keyText depth t = text leafText keyText t
  | _, leaf l => by rw [lay, text]
  | depth, arr items => by rw [lay, text, layItems_compact depth items]
  | depth, obj members => by rw [lay, text, layMembers_compact depth members]

theorem layItems_compact : ∀ (depth : Nat) (items : List (JsonTree L K)),
    layItems .compact leafText keyText depth items = itemsText leafText keyText items
  | _, [] => by rw [layItems, itemsText]
  | depth, t :: rest => by
      rw [layItems, itemsText, lay_compact (depth + 1) t, layMoreItems_compact depth rest]
      rfl

theorem layMoreItems_compact : ∀ (depth : Nat) (items : List (JsonTree L K)),
    layMoreItems .compact leafText keyText depth items = moreItems leafText keyText items
  | _, [] => by rw [layMoreItems, moreItems]; rfl
  | depth, t :: rest => by
      rw [layMoreItems, moreItems, lay_compact (depth + 1) t, layMoreItems_compact depth rest]
      rfl

theorem layMembers_compact : ∀ (depth : Nat) (members : List (K × JsonTree L K)),
    layMembers .compact leafText keyText depth members = membersText leafText keyText members
  | _, [] => by rw [layMembers, membersText]
  | depth, (k, t) :: rest => by
      rw [layMembers, membersText, lay_compact (depth + 1) t, layMoreMembers_compact depth rest]
      rfl

theorem layMoreMembers_compact : ∀ (depth : Nat) (members : List (K × JsonTree L K)),
    layMoreMembers .compact leafText keyText depth members = moreMembers leafText keyText members
  | _, [] => by rw [layMoreMembers, moreMembers]; rfl
  | depth, (k, t) :: rest => by
      rw [layMoreMembers, moreMembers, lay_compact (depth + 1) t, layMoreMembers_compact depth rest]
      rfl

end

/-- What holds of every character of the parts holds of every character of the text. -/
def Layout.Every (layout : Layout) (p : Char → Prop) : Prop :=
  (∀ depth, ∀ c ∈ layout.line depth, p c) ∧ (∀ c ∈ layout.comma, p c) ∧ ∀ c ∈ layout.colon, p c

variable {layout leafText keyText} {p : Char → Prop}

mutual

theorem forall_mem_lay (hlayout : layout.Every p) (hmarks : ∀ c ∈ ['[', ']', '{', '}', ',', ':'], p c)
    (hleaf : ∀ l, ∀ c ∈ leafText l, p c) (hkey : ∀ k, ∀ c ∈ keyText k, p c) :
    ∀ (depth : Nat) (t : JsonTree L K), ∀ c ∈ lay layout leafText keyText depth t, p c
  | _, leaf l => by
      rw [lay]
      exact hleaf l
  | depth, arr items => by
      rw [lay]
      exact List.forall_mem_cons.2 ⟨hmarks _ (by simp),
        forall_mem_layItems hlayout hmarks hleaf hkey depth items⟩
  | depth, obj members => by
      rw [lay]
      exact List.forall_mem_cons.2 ⟨hmarks _ (by simp),
        forall_mem_layMembers hlayout hmarks hleaf hkey depth members⟩

theorem forall_mem_layItems (hlayout : layout.Every p)
    (hmarks : ∀ c ∈ ['[', ']', '{', '}', ',', ':'], p c)
    (hleaf : ∀ l, ∀ c ∈ leafText l, p c) (hkey : ∀ k, ∀ c ∈ keyText k, p c) :
    ∀ (depth : Nat) (items : List (JsonTree L K)),
      ∀ c ∈ layItems layout leafText keyText depth items, p c
  | _, [] => by
      rw [layItems]
      exact List.forall_mem_singleton.2 (hmarks _ (by simp))
  | depth, t :: rest => by
      rw [layItems]
      exact List.forall_mem_append.2 ⟨hlayout.1 _, List.forall_mem_append.2
        ⟨forall_mem_lay hlayout hmarks hleaf hkey _ t,
          forall_mem_layMoreItems hlayout hmarks hleaf hkey depth rest⟩⟩

theorem forall_mem_layMoreItems (hlayout : layout.Every p)
    (hmarks : ∀ c ∈ ['[', ']', '{', '}', ',', ':'], p c)
    (hleaf : ∀ l, ∀ c ∈ leafText l, p c) (hkey : ∀ k, ∀ c ∈ keyText k, p c) :
    ∀ (depth : Nat) (items : List (JsonTree L K)),
      ∀ c ∈ layMoreItems layout leafText keyText depth items, p c
  | depth, [] => by
      rw [layMoreItems]
      exact List.forall_mem_append.2
        ⟨hlayout.1 _, List.forall_mem_singleton.2 (hmarks _ (by simp))⟩
  | depth, t :: rest => by
      rw [layMoreItems]
      exact List.forall_mem_cons.2 ⟨hmarks _ (by simp), List.forall_mem_append.2
        ⟨hlayout.2.1, List.forall_mem_append.2 ⟨hlayout.1 _, List.forall_mem_append.2
          ⟨forall_mem_lay hlayout hmarks hleaf hkey _ t,
            forall_mem_layMoreItems hlayout hmarks hleaf hkey depth rest⟩⟩⟩⟩

theorem forall_mem_layMembers (hlayout : layout.Every p)
    (hmarks : ∀ c ∈ ['[', ']', '{', '}', ',', ':'], p c)
    (hleaf : ∀ l, ∀ c ∈ leafText l, p c) (hkey : ∀ k, ∀ c ∈ keyText k, p c) :
    ∀ (depth : Nat) (members : List (K × JsonTree L K)),
      ∀ c ∈ layMembers layout leafText keyText depth members, p c
  | _, [] => by
      rw [layMembers]
      exact List.forall_mem_singleton.2 (hmarks _ (by simp))
  | depth, (k, t) :: rest => by
      rw [layMembers]
      exact List.forall_mem_append.2 ⟨hlayout.1 _, List.forall_mem_append.2 ⟨hkey k,
        List.forall_mem_cons.2 ⟨hmarks _ (by simp), List.forall_mem_append.2 ⟨hlayout.2.2,
          List.forall_mem_append.2 ⟨forall_mem_lay hlayout hmarks hleaf hkey _ t,
            forall_mem_layMoreMembers hlayout hmarks hleaf hkey depth rest⟩⟩⟩⟩⟩

theorem forall_mem_layMoreMembers (hlayout : layout.Every p)
    (hmarks : ∀ c ∈ ['[', ']', '{', '}', ',', ':'], p c)
    (hleaf : ∀ l, ∀ c ∈ leafText l, p c) (hkey : ∀ k, ∀ c ∈ keyText k, p c) :
    ∀ (depth : Nat) (members : List (K × JsonTree L K)),
      ∀ c ∈ layMoreMembers layout leafText keyText depth members, p c
  | depth, [] => by
      rw [layMoreMembers]
      exact List.forall_mem_append.2
        ⟨hlayout.1 _, List.forall_mem_singleton.2 (hmarks _ (by simp))⟩
  | depth, (k, t) :: rest => by
      rw [layMoreMembers]
      exact List.forall_mem_cons.2 ⟨hmarks _ (by simp), List.forall_mem_append.2
        ⟨hlayout.2.1, List.forall_mem_append.2 ⟨hlayout.1 _, List.forall_mem_append.2 ⟨hkey k,
          List.forall_mem_cons.2 ⟨hmarks _ (by simp), List.forall_mem_append.2 ⟨hlayout.2.2,
            List.forall_mem_append.2 ⟨forall_mem_lay hlayout hmarks hleaf hkey _ t,
              forall_mem_layMoreMembers hlayout hmarks hleaf hkey depth rest⟩⟩⟩⟩⟩⟩⟩

end

end Lay

/-! ## Printed trees -/

theorem skipSpace_cons {c : Char} (hc : isSpace c = false) (rest : List Char) :
    skipSpace (c :: rest) = c :: rest := by
  rw [skipSpace, List.dropWhile_cons_of_neg (by simp [hc])]

theorem skipSpace_append {gap : List Char} (hgap : Blank gap) (rest : List Char) :
    skipSpace (gap ++ rest) = skipSpace rest :=
  List.dropWhile_append_of_pos hgap

/-- What may stand behind a value: nothing, a space, or the next mark. -/
def Stops (x : List Char) : Prop :=
  x = [] ∨ ∃ c rest, x = c :: rest ∧ (isSpace c = true ∨ c = ',' ∨ c = ']' ∨ c = '}')

theorem stops_append {gap : List Char} (hgap : Blank gap) {c : Char}
    (hc : c = ',' ∨ c = ']' ∨ c = '}') (rest : List Char) : Stops (gap ++ c :: rest) := by
  cases gap with
  | nil => exact .inr ⟨c, rest, rfl, .inr hc⟩
  | cons d gap => exact .inr ⟨d, _, rfl, .inl (hgap d List.mem_cons_self)⟩

/-- The texts of these leaves are read as the leaves, where a value ends behind them. -/
structure LeafReads (P : L → Prop) (leafText : L → List Char) (readLeaf : Reader L) : Prop where
  read : ∀ {l x}, P l → Stops x → readLeaf (leafText l ++ x) = some (l, x)
  head : ∀ {l}, P l → ∃ c rest, leafText l = c :: rest ∧ isSpace c = false ∧ c ≠ '{' ∧ c ≠ '[' ∧ c ≠ ']'

/-- The texts of keys are read as the keys that `raw` makes of them. -/
structure KeyReads (raw : K → K') (keyText : K → List Char) (readKey : Reader K') : Prop where
  read : ∀ k x, readKey (keyText k ++ x) = some (raw k, x)
  head : ∀ k, ∃ c rest, keyText k = c :: rest ∧ isSpace c = false ∧ c ≠ '}'

section RoundTrip

variable {readLeaf : Reader L} {readKey : Reader K'}
  {build : List (K' × JsonTree L K) → JsonTree L K} {P : L → Prop} {layout : Layout}
  {leafText : L → List Char} {keyText : K → List Char} {raw : K → K'}

variable (layout) in
/-- A printed value begins with neither a space nor the end of an array. -/
theorem lay_head (keyText : K → List Char) (hleaf : LeafReads P leafText readLeaf) (depth : Nat)
    {t : JsonTree L K} (ht : t.EveryLeaf P) :
    ∃ c rest, lay layout leafText keyText depth t = c :: rest ∧ isSpace c = false ∧ c ≠ ']' := by
  cases t with
  | leaf l =>
      rcases hleaf.head ht with ⟨c, rest, htext, hspace, _, _, hc⟩
      exact ⟨c, rest, by rw [lay, htext], hspace, hc⟩
  | arr items => exact ⟨'[', _, by rw [lay], by decide, by decide⟩
  | obj members => exact ⟨'{', _, by rw [lay], by decide, by decide⟩

variable (layout) in
theorem skipSpace_lay (keyText : K → List Char) (hleaf : LeafReads P leafText readLeaf) (depth : Nat)
    {t : JsonTree L K} (ht : t.EveryLeaf P) (x : List Char) :
    skipSpace (lay layout leafText keyText depth t ++ x) =
      lay layout leafText keyText depth t ++ x := by
  rcases lay_head layout keyText hleaf depth ht with ⟨c, rest, htext, hspace, _⟩
  rw [htext]
  exact skipSpace_cons hspace _

theorem skipSpace_layItems (keyText : K → List Char) (hleaf : LeafReads P leafText readLeaf)
    (depth : Nat) {t : JsonTree L K} (ht : t.EveryLeaf P) (items : List (JsonTree L K))
    (x : List Char) :
    skipSpace (layItems layout leafText keyText depth (t :: items) ++ x) =
      lay layout leafText keyText (depth + 1) t ++
        (layMoreItems layout leafText keyText depth items ++ x) := by
  rw [layItems, List.append_assoc, List.append_assoc, skipSpace_append (layout.blank_line _)]
  exact skipSpace_lay layout keyText hleaf _ ht _

theorem skipSpace_layMembers (leafText : L → List Char) (hkey : KeyReads raw keyText readKey)
    (depth : Nat) (k : K) (t : JsonTree L K) (members : List (K × JsonTree L K)) (x : List Char) :
    skipSpace (layMembers layout leafText keyText depth ((k, t) :: members) ++ x) =
      keyText k ++ ':' :: (layout.colon ++ (lay layout leafText keyText (depth + 1) t ++
        (layMoreMembers layout leafText keyText depth members ++ x))) := by
  rcases hkey.head k with ⟨c, rest, htext, hspace, _⟩
  rw [layMembers, List.append_assoc, skipSpace_append (layout.blank_line _), htext]
  simp only [List.cons_append, List.append_assoc]
  exact skipSpace_cons hspace _

/-- Behind an item comes the end of the array, or a comma and the next item. -/
theorem skipSpace_layMoreItems_nil (depth : Nat) (x : List Char) :
    skipSpace (layMoreItems layout leafText keyText depth [] ++ x) = ']' :: x := by
  rw [layMoreItems, List.append_assoc, skipSpace_append (layout.blank_line _)]
  exact skipSpace_cons (by decide) x

theorem layMoreItems_cons (depth : Nat) (t : JsonTree L K) (items : List (JsonTree L K)) :
    layMoreItems layout leafText keyText depth (t :: items) =
      ',' :: (layout.comma ++ layItems layout leafText keyText depth (t :: items)) := by
  rw [layMoreItems, layItems]

theorem skipSpace_layMoreMembers_nil (depth : Nat) (x : List Char) :
    skipSpace (layMoreMembers layout leafText keyText depth [] ++ x) = '}' :: x := by
  rw [layMoreMembers, List.append_assoc, skipSpace_append (layout.blank_line _)]
  exact skipSpace_cons (by decide) x

theorem layMoreMembers_cons (depth : Nat) (m : K × JsonTree L K) (members : List (K × JsonTree L K)) :
    layMoreMembers layout leafText keyText depth (m :: members) =
      ',' :: (layout.comma ++ layMembers layout leafText keyText depth (m :: members)) := by
  rcases m with ⟨k, t⟩
  rw [layMoreMembers, layMembers]

theorem stops_layMoreItems (depth : Nat) (items : List (JsonTree L K)) (x : List Char) :
    Stops (layMoreItems layout leafText keyText depth items ++ x) := by
  cases items with
  | nil =>
      rw [layMoreItems, List.append_assoc]
      exact stops_append (layout.blank_line _) (by simp) x
  | cons t items =>
      rw [layMoreItems]
      exact .inr ⟨',', _, rfl, by simp⟩

theorem stops_layMoreMembers (depth : Nat) (members : List (K × JsonTree L K)) (x : List Char) :
    Stops (layMoreMembers layout leafText keyText depth members ++ x) := by
  cases members with
  | nil =>
      rw [layMoreMembers, List.append_assoc]
      exact stops_append (layout.blank_line _) (by simp) x
  | cons m members =>
      rw [layMoreMembers_cons]
      exact .inr ⟨',', _, rfl, by simp⟩

mutual

/-- A tree with distinct keys is read from its text, with enough fuel. -/
theorem exists_readValue_lay (hleaf : LeafReads P leafText readLeaf)
    (hkey : KeyReads raw keyText readKey)
    (hbuild : ∀ members : List (K × JsonTree L K), (members.map Prod.fst).Nodup →
      build (members.map fun m => (raw m.1, m.2)) = obj members) :
    ∀ (t : JsonTree L K) (depth : Nat) (x : List Char), t.EveryLeaf P →
      t.EveryObject List.Nodup → Stops x →
      ∃ fuel, readValue readLeaf readKey build fuel
        (lay layout leafText keyText depth t ++ x) = some (t, x)
  | leaf l, depth, x, hl, _, hx => by
      rcases hleaf.head hl with ⟨c, rest, htext, _, hbrace, hbracket, _⟩
      have hread := hleaf.read hl hx
      rw [lay]
      refine ⟨1, readValue_iff.2 (.inr (.inr ⟨fun _ h => ?_, fun _ h => ?_, (l, x), hread, rfl⟩))⟩
      · rw [htext] at h
        exact hbrace (List.cons.inj h).1
      · rw [htext] at h
        exact hbracket (List.cons.inj h).1
  | arr [], depth, x, _, _, _ =>
      ⟨1, readValue_iff.2 (.inr (.inl ⟨']' :: x, by rw [lay, layItems]; rfl,
        .inl ⟨x, skipSpace_cons (by decide) x, rfl⟩⟩))⟩
  | arr (t :: items), depth, x, hl, hd, _ => by
      rcases exists_readItems_lay hleaf hkey hbuild (t :: items) depth x (List.cons_ne_nil _ _) hl hd
        with ⟨fuel, hread⟩
      rcases lay_head layout keyText hleaf (depth + 1) hl.1 with ⟨c, rest, htext, _, hc⟩
      rw [lay]
      refine ⟨fuel + 1, readValue_iff.2 (.inr (.inl
        ⟨layItems layout leafText keyText depth (t :: items) ++ x, rfl, .inr ⟨fun rest' h => ?_,
          (t :: items, x), hread, rfl⟩⟩))⟩
      rw [skipSpace_layItems keyText hleaf depth hl.1, htext] at h
      exact hc (List.cons.inj h).1
  | obj [], depth, x, _, _, _ =>
      ⟨1, readValue_iff.2 (.inl ⟨'}' :: x, by rw [lay, layMembers]; rfl,
        .inl ⟨x, skipSpace_cons (by decide) x, by rw [← hbuild [] List.nodup_nil]; rfl⟩⟩)⟩
  | obj ((k, t) :: members), depth, x, hl, hd, _ => by
      rcases exists_readMembers_lay hleaf hkey hbuild ((k, t) :: members) depth x
        (List.cons_ne_nil _ _) hl hd.2 with ⟨fuel, hread⟩
      rcases hkey.head k with ⟨c, rest, htext, _, hc⟩
      rw [lay]
      refine ⟨fuel + 1, readValue_iff.2 (.inl
        ⟨layMembers layout leafText keyText depth ((k, t) :: members) ++ x, rfl,
          .inr ⟨fun rest' h => ?_, _, hread, ?_⟩⟩)⟩
      · rw [skipSpace_layMembers leafText hkey, htext] at h
        exact hc (List.cons.inj h).1
      · exact congrArg (fun t => (t, x)) (hbuild _ hd.1).symm

theorem exists_readItems_lay (hleaf : LeafReads P leafText readLeaf)
    (hkey : KeyReads raw keyText readKey)
    (hbuild : ∀ members : List (K × JsonTree L K), (members.map Prod.fst).Nodup →
      build (members.map fun m => (raw m.1, m.2)) = obj members) :
    ∀ (items : List (JsonTree L K)) (depth : Nat) (x : List Char), items ≠ [] →
      EveryLeafItem P items → EveryItem List.Nodup items →
      ∃ fuel, readItems readLeaf readKey build fuel
        (skipSpace (layItems layout leafText keyText depth items ++ x)) = some (items, x)
  | [], _, _, hne, _, _ => absurd rfl hne
  | [t], depth, x, _, hl, hd => by
      rcases exists_readValue_lay hleaf hkey hbuild t (depth + 1)
        (layMoreItems layout leafText keyText depth [] ++ x) hl.1 hd.1 (stops_layMoreItems _ _ x)
        with ⟨fuel, hread⟩
      rw [skipSpace_layItems keyText hleaf depth hl.1]
      exact ⟨fuel + 1, readItems_iff.2 ⟨t, _, hread, .inl ⟨x, skipSpace_layMoreItems_nil depth x, rfl⟩⟩⟩
  | t :: t' :: items, depth, x, _, hl, hd => by
      rcases exists_readValue_lay hleaf hkey hbuild t (depth + 1)
        (layMoreItems layout leafText keyText depth (t' :: items) ++ x) hl.1 hd.1
        (stops_layMoreItems _ _ x) with ⟨fuel, hread⟩
      rcases exists_readItems_lay hleaf hkey hbuild (t' :: items) depth x (List.cons_ne_nil _ _) hl.2
        hd.2 with ⟨fuel', hrest⟩
      rw [skipSpace_layItems keyText hleaf depth hl.1]
      have hcomma : skipSpace (layMoreItems layout leafText keyText depth (t' :: items) ++ x) =
          ',' :: (layout.comma ++ (layItems layout leafText keyText depth (t' :: items) ++ x)) := by
        rw [layMoreItems_cons, List.cons_append, List.append_assoc]
        exact skipSpace_cons (by decide) _
      refine ⟨max fuel fuel' + 1, readItems_iff.2 ⟨t, _, readValue_of_le (Nat.le_max_left _ _) hread,
        .inr ⟨_, (t' :: items, x), hcomma, ?_, rfl⟩⟩⟩
      rw [skipSpace_append layout.blank_comma]
      exact readItems_of_le (Nat.le_max_right _ _) hrest

theorem exists_readMembers_lay (hleaf : LeafReads P leafText readLeaf)
    (hkey : KeyReads raw keyText readKey)
    (hbuild : ∀ members : List (K × JsonTree L K), (members.map Prod.fst).Nodup →
      build (members.map fun m => (raw m.1, m.2)) = obj members) :
    ∀ (members : List (K × JsonTree L K)) (depth : Nat) (x : List Char), members ≠ [] →
      EveryLeafMember P members → EveryMember List.Nodup members →
      ∃ fuel, readMembers readLeaf readKey build fuel
        (skipSpace (layMembers layout leafText keyText depth members ++ x)) =
          some (members.map fun m => (raw m.1, m.2), x)
  | [], _, _, hne, _, _ => absurd rfl hne
  | [(k, t)], depth, x, _, hl, hd => by
      rcases exists_readValue_lay hleaf hkey hbuild t (depth + 1)
        (layMoreMembers layout leafText keyText depth [] ++ x) hl.1 hd.1 (stops_layMoreMembers _ _ x)
        with ⟨fuel, hread⟩
      rw [skipSpace_layMembers leafText hkey]
      have hvalue := skipSpace_lay layout keyText hleaf (depth + 1) hl.1
        (layMoreMembers layout leafText keyText depth [] ++ x)
      rw [← skipSpace_append layout.blank_colon] at hvalue
      rw [← hvalue] at hread
      exact ⟨fuel + 1, readMembers_iff.2 ⟨raw k, _, hkey.read k _, _, skipSpace_cons (by decide) _, t,
        _, hread, .inl ⟨x, skipSpace_layMoreMembers_nil depth x, rfl⟩⟩⟩
  | (k, t) :: (k', t') :: members, depth, x, _, hl, hd => by
      rcases exists_readValue_lay hleaf hkey hbuild t (depth + 1)
        (layMoreMembers layout leafText keyText depth ((k', t') :: members) ++ x) hl.1 hd.1
        (stops_layMoreMembers _ _ x) with ⟨fuel, hread⟩
      rcases exists_readMembers_lay hleaf hkey hbuild ((k', t') :: members) depth x
        (List.cons_ne_nil _ _) hl.2 hd.2 with ⟨fuel', hrest⟩
      rw [skipSpace_layMembers leafText hkey]
      have hvalue := skipSpace_lay layout keyText hleaf (depth + 1) hl.1
        (layMoreMembers layout leafText keyText depth ((k', t') :: members) ++ x)
      rw [← skipSpace_append layout.blank_colon] at hvalue
      rw [← hvalue] at hread
      have hcomma :
          skipSpace (layMoreMembers layout leafText keyText depth ((k', t') :: members) ++ x) =
            ',' :: (layout.comma ++
              (layMembers layout leafText keyText depth ((k', t') :: members) ++ x)) := by
        rw [layMoreMembers_cons, List.cons_append, List.append_assoc]
        exact skipSpace_cons (by decide) _
      refine ⟨max fuel fuel' + 1, readMembers_iff.2 ⟨raw k, _, hkey.read k _, _,
        skipSpace_cons (by decide) _, t, _, readValue_of_le (Nat.le_max_left _ _) hread,
        .inr ⟨_, (((k', t') :: members).map fun m => (raw m.1, m.2), x), hcomma, ?_, rfl⟩⟩⟩
      rw [skipSpace_append layout.blank_comma]
      exact readMembers_of_le (Nat.le_max_right _ _) hrest

end

/-- A printed tree is what its text is read as. -/
theorem readText_lay (hleafConsumes : Consumes readLeaf) (hkeyConsumes : Consumes readKey)
    (hleaf : LeafReads P leafText readLeaf) (hkey : KeyReads raw keyText readKey)
    (hbuild : ∀ members : List (K × JsonTree L K), (members.map Prod.fst).Nodup →
      build (members.map fun m => (raw m.1, m.2)) = obj members)
    {t : JsonTree L K} (ht : t.EveryLeaf P) (hnodup : t.EveryObject List.Nodup) :
    readText readLeaf readKey build (lay layout leafText keyText 0 t) = some t := by
  have hexists : ∃ fuel, readValue readLeaf readKey build fuel
      (lay layout leafText keyText 0 t ++ []) = some (t, []) :=
    exists_readValue_lay hleaf hkey hbuild t 0 [] ht hnodup (.inl rfl)
  rcases hexists with ⟨fuel, hread⟩
  have hskip := skipSpace_lay layout keyText hleaf 0 ht []
  rw [List.append_nil] at hread hskip
  have henough := (read_enough hleafConsumes hkeyConsumes fuel).1 _ _ hread
  rw [readText, hskip, henough]
  rfl

end RoundTrip

end JsonTree
end Library
end ControlDB
