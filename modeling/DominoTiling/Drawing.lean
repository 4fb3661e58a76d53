import DominoTiling.Placement

/-!
# Drawings

A board is drawn as a frame around its pips. Without a solution the frame has no inner walls; with
one, a wall stands wherever two neighbours lie under different dominoes (`board`). A set is listed
with one line for each pip count, the dominoes on the line of their second side (`dominoes`).
-/

namespace DominoTiling.Drawing

def topBorder (cols : Nat) : List Char :=
  (List.replicate cols ['+', '-', '-', '-']).flatten ++ ['+', '\n']

/-- Is there a wall to the left of the cell `(x, y)`? The first column has the border there. -/
def leftWall (p : Placement) (showSolution : Bool) (x y : Nat) : Except Fault Bool := do
  if y = 0 then return true
  if !showSolution then return false
  let here ← p.get x y
  let left ← p.get x (y - 1)
  return here != left

/-- Is there a wall below the cell `(x, y)`? The last row has the border there. -/
def lowerWall (p : Placement) (showSolution : Bool) (rows x y : Nat) : Except Fault Bool := do
  if rows ≤ x + 1 then return true
  if !showSolution then return false
  let here ← p.get x y
  let below ← p.get (x + 1) y
  return here != below

/-- A cell with the wall or space to its left. -/
def cell (b : Board) (p : Placement) (showSolution : Bool) (x y : Nat) :
    Except Fault (List Char) := do
  let wall ← leftWall p showSolution x y
  let pips ← b.get x y
  return (if wall then '|' else ' ') :: ' ' :: Nat.toDigits 10 pips ++ [' ']

def belowCell (b : Board) (p : Placement) (showSolution : Bool) (x y : Nat) :
    Except Fault (List Char) := do
  let wall ← lowerWall p showSolution b.rows x y
  return '+' :: List.replicate 3 (if wall then '-' else ' ')

def row (b : Board) (p : Placement) (showSolution : Bool) (x : Nat) :
    Except Fault (List Char) := do
  let cells ← (List.range b.cols).mapM (cell b p showSolution x)
  let below ← (List.range b.cols).mapM (belowCell b p showSolution x)
  return cells.flatten ++ ['|', '\n'] ++ below.flatten ++ ['+', '\n']

/-- The drawing of a board. The placement is looked at only to show the solution. -/
def board (b : Board) (p : Placement) (showSolution : Bool) : Except Fault String := do
  let rows ← (List.range b.rows).mapM (row b p showSolution)
  return String.ofList (topBorder b.cols ++ rows.flatten)

/-- The line of the dominoes with this second side. -/
def pipLine (ds : List Domino) (pips : Nat) : List Char :=
  ((ds.filter fun d => d.side2 == pips).flatMap fun d => d.chars ++ [' ']) ++ ['\n']

/-- The listing of a set for the pips `0..=maxPips`. -/
def dominoes (ds : List Domino) (maxPips : Nat) : String :=
  String.ofList ((List.range (maxPips + 1)).flatMap (pipLine ds))

end DominoTiling.Drawing
