import DominoTiling.Search.Run

/-!
# Solving a board

`solveInPlace` covers the empty cells of a placement from a start cell on and says how much work
that was, together with the placement it leaves behind, also where it refuses to start. `solveFrom`
is the same as a value. `solveBoard` covers a whole board with the complete set for its largest pip
count.
-/

namespace DominoTiling.Search

/-- The work of a search and whether it found a cover. -/
structure Tally where
  solved : Bool
  nodes : Nat
  backtracks : Nat
  deriving DecidableEq

structure Verdict where
  solved : Bool
  /-- With the cover, or as before if there is none. -/
  placement : Placement
  /-- The number of dominoes in the list. -/
  offered : Nat
  nodes : Nat
  backtracks : Nat

def Verdict.cover? (v : Verdict) : Option Placement := if v.solved then some v.placement else none

/-- Covers the empty cells from `(x, y)` on, each domino used at most once. The placement it leaves
behind comes with the answer. A search without success must have taken every domino back. -/
def solveInPlace (b : Board) (dominoes : List Domino) (x y : Nat) (p : Placement) :
    Except Fault (Except PuzzleError Tally × Placement) :=
  match p.checkShape b with
  | .error e => .ok (.error e, p)
  | .ok () => do
    let (solved, s) ← run b (candidates dominoes) never x y (.start p dominoes.length)
    if !(solved || s.inUse.isEmpty) then throw .assertion
    let nodes ← word s.nodes
    return (.ok ⟨solved, nodes, s.backtracks⟩, s.placement)

/-- Covers the empty cells from `(x, y)` on, each domino used at most once. -/
def solveFrom (b : Board) (p : Placement) (dominoes : List Domino) (x y : Nat) :
    Except Failure Verdict :=
  match solveInPlace b dominoes x y p with
  | .error f => .error (.fault f)
  | .ok (.error e, _) => .error (.error e)
  | .ok (.ok t, p) => .ok ⟨t.solved, p, dominoes.length, t.nodes, t.backtracks⟩

def solve (b : Board) (p : Placement) (dominoes : List Domino) : Except Failure Verdict :=
  solveFrom b p dominoes 0 0

/-- Covers a board with the complete set for its largest pip count. -/
def solveBoard (b : Board) : Except Failure Verdict := do
  let dominoes ← Domino.completeSet b.maxPips
  let p ← Placement.forBoard b
  solve b p dominoes

end DominoTiling.Search
