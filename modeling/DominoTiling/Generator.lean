import DominoTiling.Layout
import DominoTiling.Shuffle
import Std.Data.HashSet

/-!
# Making boards

`synthesize` lays a shuffled complete set out on a board, which the same set then covers.
`enumerate` lists every board that can come of that, in the order in which it is first met while the
set is arranged in all ways, in lexicographic order of positions. Only the dominoes that a board
takes are arranged; the order of the others would not be seen.
-/

namespace DominoTiling.Generator

def setFor (rows cols : Nat) : Except Failure (List Domino) := do
  (checkDimensions rows cols).mapError .error
  let maxPips ← (maxPipsFor rows cols).mapError .error
  Domino.completeSet maxPips

/-- A board that is solvable by construction, and the source of words after it. -/
def synthesize (rows cols : Nat) (source : WordSource) : Except Failure (Board × WordSource) := do
  let dominoes ← setFor rows cols
  let (dominoes, source) ← source.shuffle dominoes
  let board ← Layout.board rows cols dominoes
  return (board, source)

/-- Each item of a list with the other items, in order. -/
def picks {α : Type} : List α → List (α × List α)
  | [] => []
  | a :: as => (a, as) :: (picks as).map fun (b, bs) => (b, a :: bs)

/-- All ways to line up `k` items of a list, in lexicographic order of their positions. -/
def arrangements {α : Type} : (k : Nat) → List α → List (List α)
  | 0, _ => [[]]
  | k + 1, as => (picks as).flatMap fun (a, rest) => (arrangements k rest).map (a :: ·)

/-- How far an enumeration has come. -/
structure Survey where
  /-- The arrangements that have been laid out. -/
  walked : Nat
  /-- The texts of the boards met. -/
  seen : Std.HashSet String
  /-- The boards met, each once. -/
  boards : Array Board
  /-- The arrangements and boards at every millionth arrangement. -/
  milestones : Array (Nat × Nat)

namespace Survey

def start : Survey := ⟨0, ∅, #[], #[]⟩

/-- One more board laid out. -/
def meet (s : Survey) (b : Board) : Survey :=
  let ⟨walked, seen, boards, milestones⟩ := s
  let text := b.text
  let walked := walked + 1
  let known := seen.contains text
  let boards := if known then boards else boards.push b
  let seen := if known then seen else seen.insert text
  let milestones :=
    if walked % 1000000 = 0 then milestones.push (walked, boards.size) else milestones
  ⟨walked, seen, boards, milestones⟩

end Survey

def survey (rows cols : Nat) : List (List Domino) → Survey → Except Failure Survey
  | [], s => .ok s
  | ds :: rest, s => do
    let board ← Layout.board rows cols ds
    survey rows cols rest (s.meet board)

/-- Every board of this size that the complete set can be laid out to, in the order first met. -/
def enumerate (rows cols : Nat) : Except Failure Survey := do
  let dominoes ← setFor rows cols
  let needed := rows * cols / 2
  if dominoes.length < needed then
    throw (.error (.exhausted dominoes.length rows cols))
  let s ← survey rows cols (arrangements needed dominoes) .start
  let _ ← word s.walked
  return s

end DominoTiling.Generator
