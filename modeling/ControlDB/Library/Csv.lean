import Mathlib

/-!
# Comma-separated texts

Rows of cells, written with commas and line ends.  A cell is quoted only where it must be, and a quote
in it is doubled; a lone empty cell is quoted, since an empty line is a row without cells.  The reader
is a machine over characters; it takes `\r\n`, `\n` and `\r` for line ends, and reads every text that
was written as the rows it was written for (`read_text`).
-/

namespace ControlDB
namespace Library
namespace Csv

abbrev Cell := List Char

abbrev Row := List Cell

/-! ## Writing -/

def isSpecial (c : Char) : Bool :=
  c = ',' || c = '"' || c = '\n' || c = '\r'

def doubleQuotes (cell : Cell) : List Char :=
  cell.flatMap fun c => if c = '"' then ['"', '"'] else [c]

def quoted (cell : Cell) : List Char :=
  '"' :: (doubleQuotes cell ++ ['"'])

def cellText (cell : Cell) : List Char :=
  if cell.any isSpecial then quoted cell else cell

def lineEnd : List Char :=
  ['\r', '\n']

def moreCells (cells : List Cell) : List Char :=
  cells.flatMap fun cell => ',' :: cellText cell

def rowText : Row → List Char
  | [] => lineEnd
  | [[]] => quoted [] ++ lineEnd
  | cell :: cells => cellText cell ++ moreCells cells ++ lineEnd

def text (rows : List Row) : List Char :=
  rows.flatMap rowText

/-! ## Reading -/

inductive Mode
  | startRow
  | afterReturn
  | startCell
  | inCell
  | inQuotes
  | afterQuote
  deriving DecidableEq

/-- The mode, the characters of the cell so far, the cells of the row so far, and the rows read. -/
structure Reader where
  mode : Mode := .startRow
  cell : Cell := []
  row : Row := []
  rows : List Row := []
  deriving DecidableEq

namespace Reader

def add (r : Reader) (mode : Mode) (c : Char) : Reader :=
  { r with mode := mode, cell := r.cell ++ [c] }

def endCell (r : Reader) (mode : Mode) : Reader :=
  { r with mode := mode, cell := [], row := r.row ++ [r.cell] }

def endRow (r : Reader) (mode : Mode) : Reader :=
  { mode := mode, rows := r.rows ++ [r.row] }

/-- Where a row goes on behind its line end. -/
def lineMode (c : Char) : Mode :=
  if c = '\r' then .afterReturn else .startRow

/-- A character in front of a cell or in one without quotes. -/
def plain (r : Reader) (c : Char) : Reader :=
  if c = '\n' ∨ c = '\r' then (r.endCell .startCell).endRow (lineMode c)
  else if c = ',' then r.endCell .startCell
  else r.add .inCell c

def startCell (r : Reader) (c : Char) : Reader :=
  if c = '"' then { r with mode := .inQuotes } else r.plain c

def startRow (r : Reader) (c : Char) : Reader :=
  if c = '\n' ∨ c = '\r' then r.endRow (lineMode c) else r.startCell c

def step (r : Reader) (c : Char) : Reader :=
  match r.mode with
  | .startRow => r.startRow c
  | .afterReturn => if c = '\n' then { r with mode := .startRow } else r.startRow c
  | .startCell => r.startCell c
  | .inCell => r.plain c
  | .inQuotes => if c = '"' then { r with mode := .afterQuote } else r.add .inQuotes c
  | .afterQuote => if c = '"' then r.add .inQuotes c else r.plain c

/-- A last row need not have a line end. -/
def finish (r : Reader) : List Row :=
  match r.mode with
  | .startRow => r.rows
  | .afterReturn => r.rows
  | _ => r.rows ++ [r.row ++ [r.cell]]

def run (r : Reader) (text : List Char) : Reader :=
  text.foldl step r

@[simp] theorem run_nil (r : Reader) : r.run [] = r := rfl

@[simp] theorem run_cons (r : Reader) (c : Char) (text : List Char) :
    r.run (c :: text) = (r.step c).run text := rfl

theorem run_append (r : Reader) (text rest : List Char) :
    r.run (text ++ rest) = (r.run text).run rest := by
  rw [run, run, run, List.foldl_append]

end Reader

def read (text : List Char) : List Row :=
  (Reader.run {} text).finish

/-! ## What is written is read back -/

section RoundTrip

variable {row : Row} {rows : List Row}

/-- Characters that are not special go into the cell. -/
theorem run_plain {cell : Cell} (hcell : cell.any isSpecial = false) (before : Cell) :
    Reader.run ⟨.inCell, before, row, rows⟩ cell = ⟨.inCell, before ++ cell, row, rows⟩ := by
  induction cell generalizing before with
  | nil => rw [Reader.run_nil, List.append_nil]
  | cons c cell ih =>
      simp only [List.any_cons, Bool.or_eq_false_iff, isSpecial, decide_eq_false_iff_not] at hcell
      rcases hcell with ⟨⟨⟨⟨hcomma, hquote⟩, hnl⟩, hcr⟩, hrest⟩
      have hstep : Reader.step ⟨.inCell, before, row, rows⟩ c = ⟨.inCell, before ++ [c], row, rows⟩ := by
        simp [Reader.step, Reader.plain, Reader.add, hcomma, hnl, hcr]
      rw [Reader.run_cons, hstep, ih (by simpa [isSpecial] using hrest), List.append_assoc,
        List.singleton_append]

/-- Between quotes every character goes into the cell. -/
theorem run_doubleQuotes (cell before : Cell) :
    Reader.run ⟨.inQuotes, before, row, rows⟩ (doubleQuotes cell) =
      ⟨.inQuotes, before ++ cell, row, rows⟩ := by
  induction cell generalizing before with
  | nil => rw [doubleQuotes, List.flatMap_nil, Reader.run_nil, List.append_nil]
  | cons c cell ih =>
      rw [doubleQuotes, List.flatMap_cons, Reader.run_append]
      have hchar : Reader.run ⟨.inQuotes, before, row, rows⟩ (if c = '"' then ['"', '"'] else [c]) =
          ⟨.inQuotes, before ++ [c], row, rows⟩ := by
        split_ifs with hquote
        · subst hquote
          rfl
        · simp [Reader.step, Reader.add, hquote]
      rw [hchar, ← doubleQuotes, ih, List.append_assoc, List.singleton_append]

/-- The modes in which a whole cell stands behind the reader. -/
def Mode.Closed (mode : Mode) : Prop :=
  mode = .startCell ∨ mode = .inCell ∨ mode = .afterQuote

/-- A cell is read in front of which a cell may begin. -/
theorem run_cellText {start : Reader} (hcell : start.cell = []) (cell : Cell)
    (hstart : start.mode = .startCell ∨ start.mode = .startRow ∧ cell ≠ []) :
    ∃ mode : Mode, mode.Closed ∧
      start.run (cellText cell) = ⟨mode, cell, start.row, start.rows⟩ := by
  rcases start with ⟨mode, before, row, rows⟩
  dsimp only at hcell hstart ⊢
  subst hcell
  unfold cellText
  split_ifs with hspecial
  · -- the opening quote, the cell, and the closing quote
    have hopen : Reader.step ⟨mode, [], row, rows⟩ '"' = ⟨.inQuotes, [], row, rows⟩ := by
      rcases hstart with rfl | ⟨rfl, _⟩ <;> rfl
    refine ⟨.afterQuote, .inr (.inr rfl), ?_⟩
    rw [quoted, Reader.run_cons, hopen, Reader.run_append, run_doubleQuotes, List.nil_append]
    rfl
  · rw [Bool.not_eq_true] at hspecial
    cases cell with
    | nil =>
        rcases hstart with rfl | ⟨_, hne⟩
        · exact ⟨.startCell, .inl rfl, rfl⟩
        · exact absurd rfl hne
    | cons c cell =>
        have hspecial' := hspecial
        simp only [List.any_cons, Bool.or_eq_false_iff, isSpecial, decide_eq_false_iff_not] at hspecial
        rcases hspecial with ⟨⟨⟨⟨hcomma, hquote⟩, hnl⟩, hcr⟩, _⟩
        have hstep : Reader.step ⟨mode, [], row, rows⟩ c = ⟨.inCell, [c], row, rows⟩ := by
          rcases hstart with rfl | ⟨rfl, _⟩ <;>
            simp [Reader.step, Reader.startRow, Reader.startCell, Reader.plain, Reader.add, hcomma,
              hquote, hnl, hcr]
        rw [List.any_cons, Bool.or_eq_false_iff] at hspecial'
        refine ⟨.inCell, .inr (.inl rfl), ?_⟩
        rw [Reader.run_cons, hstep, run_plain hspecial'.2, List.singleton_append]

/-- A comma ends a cell. -/
theorem step_comma {mode : Mode} (h : mode.Closed) (cell : Cell) :
    Reader.step ⟨mode, cell, row, rows⟩ ',' = ⟨.startCell, [], row ++ [cell], rows⟩ := by
  rcases h with rfl | rfl | rfl <;> rfl

/-- A line end ends the cell and the row. -/
theorem run_lineEnd {mode : Mode} (h : mode.Closed) (cell : Cell) :
    Reader.run ⟨mode, cell, row, rows⟩ lineEnd = { rows := rows ++ [row ++ [cell]] } := by
  rcases h with rfl | rfl | rfl <;> rfl

/-- The cells behind the first one. -/
theorem run_moreCells {mode : Mode} (h : mode.Closed) (cell : Cell) (cells : List Cell) :
    Reader.run ⟨mode, cell, row, rows⟩ (moreCells cells ++ lineEnd) =
      { rows := rows ++ [row ++ cell :: cells] } := by
  induction cells generalizing mode cell row with
  | nil => exact run_lineEnd h cell
  | cons next cells ih =>
      rcases @run_cellText ⟨.startCell, [], row ++ [cell], rows⟩ rfl next (.inl rfl) with
        ⟨mode', hclosed, hcell⟩
      have htext : moreCells (next :: cells) ++ lineEnd =
          ',' :: (cellText next ++ (moreCells cells ++ lineEnd)) := by
        simp only [moreCells, List.flatMap_cons, List.cons_append, List.append_assoc]
      rw [htext, Reader.run_cons, step_comma h, Reader.run_append, hcell, ih hclosed, List.append_assoc,
        List.singleton_append]

/-- A first cell that is not alone, or not empty. -/
theorem run_cells (cell : Cell) (cells : List Cell) (hne : cells ≠ [] ∨ cell ≠ []) :
    Reader.run { rows := rows } (cellText cell ++ moreCells cells ++ lineEnd) =
      { rows := rows ++ [cell :: cells] } := by
  rw [List.append_assoc]
  by_cases hempty : cell = []
  · -- an empty first cell leaves the reader at the start of the row
    subst hempty
    rcases cells with _ | ⟨next, cells⟩
    · simp at hne
    · rcases @run_cellText ⟨.startCell, [], [[]], rows⟩ rfl next (.inl rfl) with
        ⟨mode, hclosed, hcell⟩
      have hcomma : Reader.step ({ rows := rows } : Reader) ',' = ⟨.startCell, [], [[]], rows⟩ := by
        simp [Reader.step, Reader.startRow, Reader.startCell, Reader.plain, Reader.endCell]
      have htext : cellText [] ++ (moreCells (next :: cells) ++ lineEnd) =
          ',' :: (cellText next ++ (moreCells cells ++ lineEnd)) := by
        have hnil : cellText [] = [] := if_neg (by rw [List.any_nil]; decide)
        rw [hnil, List.nil_append, moreCells, List.flatMap_cons, List.cons_append, List.cons_append,
          List.append_assoc, ← moreCells]
      rw [htext, Reader.run_cons, hcomma, Reader.run_append, hcell, run_moreCells hclosed]
      rfl
  · rcases @run_cellText { rows := rows } rfl cell (.inr ⟨rfl, hempty⟩) with ⟨mode, hclosed, hcell⟩
    rw [Reader.run_append, hcell, run_moreCells hclosed]
    rfl

theorem run_emptyCell : Reader.run { rows := rows } (quoted [] ++ lineEnd) = { rows := rows ++ [[[]]] } := by
  rfl

theorem run_rowText (rows : List Row) (row : Row) :
    Reader.run { rows := rows } (rowText row) = { rows := rows ++ [row] } := by
  rcases row with _ | ⟨_ | ⟨c, cell⟩, cells⟩
  · rfl
  · cases cells with
    | nil => exact run_emptyCell
    | cons next cells => exact run_cells [] (next :: cells) (.inl (List.cons_ne_nil _ _))
  · rw [rowText]
    · exact run_cells (c :: cell) cells (.inr (List.cons_ne_nil _ _))
    · simp

/-- What was written is read as it was. -/
theorem read_text (rows : List Row) : read (text rows) = rows := by
  have hrun : ∀ before : List Row,
      Reader.run { rows := before } (text rows) = { rows := before ++ rows } := by
    induction rows with
    | nil =>
        intro before
        rw [text, List.flatMap_nil, Reader.run_nil, List.append_nil]
    | cons row rows ih =>
        intro before
        rw [text, List.flatMap_cons, Reader.run_append, run_rowText, ← text, ih, List.append_assoc,
          List.singleton_append]
  rw [read, hrun []]
  rfl

end RoundTrip

/-- The rows of a text are determined by it. -/
theorem text_injective : Function.Injective text :=
  Function.LeftInverse.injective read_text

end Csv
end Library
end ControlDB
