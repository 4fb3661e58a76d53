import DominoTiling.Board
import DominoTiling.Domino
import DominoTiling.Dimensions

/-!
# Laying dominoes out

Dominoes are laid side by side from the left, row below row, each with its first side on the left.
Where the number of columns is odd, the last domino of a row shows its first side only.
-/

namespace DominoTiling.Layout

/-- What is left of a supply, how many of it have been laid, and the cells they filled. -/
structure Laid where
  supply : List Domino
  placed : Nat
  cells : Array Nat

/-- Fills `cols` more cells of a row. Where the supply ends, the number of dominoes laid. -/
def fillRow : (cols : Nat) → Laid → Except Nat Laid
  | 0, l => .ok l
  | _ + 1, ⟨[], placed, _⟩ => .error placed
  | 1, ⟨d :: ds, placed, cells⟩ => .ok ⟨ds, placed + 1, cells.push d.side1⟩
  | cols + 2, ⟨d :: ds, placed, cells⟩ =>
    fillRow cols ⟨ds, placed + 1, (cells.push d.side1).push d.side2⟩

def fillRows (cols : Nat) : (rows : Nat) → Laid → Except Nat Laid
  | 0, l => .ok l
  | rows + 1, l => do fillRows cols rows (← fillRow cols l)

/-- The board of this size with the dominoes laid out on it. While it is filled, a cell takes eight
bytes. -/
def board (rows cols : Nat) (dominoes : List Domino) : Except Failure Board := do
  if hlt : rows * cols < 2 ^ 64 then
    allocate 8 (rows * cols)
    match fillRows cols rows ⟨dominoes, 0, #[]⟩ with
    | .error placed => throw (.error (.exhausted placed rows cols))
    | .ok laid =>
      if h : laid.cells.size = rows * cols then
        return ⟨rows, cols, laid.cells, h, by rw [h]; exact hlt⟩
      else
        throw (.error (.exhausted laid.placed rows cols))
  else
    throw (.fault .overflow)

/-- The dominoes that a row shows, two cells each. -/
def rowPairs : List Nat → List Domino
  | m :: n :: rest => ⟨m, n⟩ :: rowPairs rest
  | _ => []

/-- The dominoes that a board shows, row by row, in column pairs. -/
def pairs (b : Board) : List Domino := b.toRows.flatMap rowPairs

end DominoTiling.Layout
