import DominoTiling.Grid
import DominoTiling.PuzzleError
import DominoTiling.BoardText.Reader

/-!
# Boards

A board is a grid of pip counts, the puzzle to solve. It is made from rows of equal length
(`ofRows`), or read from the text of such rows (`parse`, `decode`), and has one text of its own
(`text`), without any blank space.

`parse` reads a board text by itself: the whole text is read before its rows are looked at, and a
bad shape is reported as such. `decode` reads a board as one value of a larger text: a bad shape
is one more reason to refuse the text, and what follows the rows is looked at last. `encode` writes a
board as one value.
-/

namespace DominoTiling

abbrev Board := Grid Nat

namespace Board

theorem size_flatten {rows : List (List Nat)} {cols : Nat} (h : ∀ r ∈ rows, r.length = cols) :
    rows.flatten.toArray.size = rows.length * cols := by
  rw [List.size_toArray, List.length_flatten, List.map_congr_left h, List.map_const',
    List.sum_replicate_nat]

/-- The board with these rows. There must be a cell, and all rows must be as long as the first. A
cell takes four bytes. -/
def ofRows (rows : List (List Nat)) : Except Failure Board := do
  let cols := (rows.head?.map List.length).getD 0
  if rows.length = 0 ∨ cols = 0 then
    throw (.error (.nonPositiveDimensions rows.length cols))
  if hlt : rows.length * cols < 2 ^ 64 then
    allocate 4 (rows.length * cols)
    match h : rows.findIdx? (fun r => r.length != cols) with
    | some i =>
      throw (.error (.raggedBoard i cols ((rows[i]?.map List.length).getD 0)))
    | none =>
      have hsize := size_flatten fun r hr => by simpa using List.findIdx?_eq_none_iff.1 h r hr
      return ⟨rows.length, cols, rows.flatten.toArray, hsize, by rw [hsize]; exact hlt⟩
  else
    throw (.fault .overflow)

/-- The largest pip count on the board, 0 if there is no cell. -/
def maxPips (b : Board) : Nat := b.cells.foldl max 0

def bracketed (items : List (List Char)) : List Char :=
  '[' :: [','].intercalate items ++ [']']

/-- The rows of a board as text, without blank space. -/
def rowsText (rows : List (List Nat)) : List Char :=
  bracketed (rows.map fun row => bracketed (row.map (Nat.toDigits 10)))

def text (b : Board) : String := String.ofList (rowsText b.toRows)

/-- A board is shown as its text. -/
instance : ToString Board := ⟨text⟩

/-- A sequence as one value. The first item stands behind the bracket, each other behind a comma. -/
def encodeSequence {α : Type} (item : α → List Char) : List α → List Char
  | [] => ['[', ']']
  | a :: as => '[' :: item a ++ as.flatMap (fun a => ',' :: item a) ++ [']']

def encodeRow : List Nat → List Char := encodeSequence (Nat.toDigits 10)

/-- Writes a board as one value: the sequence of its rows. -/
def encode (b : Board) : String := String.ofList (encodeSequence encodeRow b.toRows)

/-- A reading of rows, with a stop turned into an error at its place in the whole text. -/
def atPlace {α : Type} (text : List Char) (reading : Except BoardText.Stop α) : Except Failure α :=
  reading.mapError fun stop =>
    .error (.unreadableBoard (.malformed stop.cause (stop.position text)))

def parse (s : String) : Except Failure Board := do
  let text := s.toList
  let (rows, rest) ← atPlace text (BoardText.readRows text)
  atPlace text (BoardText.readEnd rest)
  ofRows rows

/-- The board that a string stands for. -/
def ofString (s : String) : Except Failure Board := parse s

/-- Reads a board as one value. -/
def decode (s : String) : Except Failure Board := do
  let text := s.toList
  let (rows, rest) ← atPlace text (BoardText.readRows text)
  let board ← (ofRows rows).mapError fun
    | .error e => .error (.unreadableBoard (.misshapen e.message))
    | .fault f => .fault f
  atPlace text (BoardText.readEnd rest)
  return board

end Board
end DominoTiling
