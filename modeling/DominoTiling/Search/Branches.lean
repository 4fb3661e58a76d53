import DominoTiling.Search.Run

/-!
# Searching branch by branch

The candidates that fit the top left cell of a board divide its covers among them. Each such branch
is searched for itself, on a placement of its own, and the first branch with a cover raises a flag
that calls the others off. The branches can be shared out among workers. Taken one after the other
in their order, as a single worker takes them, they find the cover that the undivided search finds.
-/

namespace DominoTiling.Search

/-- The branches of a board: the candidates for its top left cell. -/
def branches (b : Board) (dominoes : List Domino) : Except Fault (List Candidate) := do
  let p ← Placement.forBoard b
  (candidates dominoes).filterM fun c => c.domino.fits b p 0 0 c.orientation

/-- The start of the search of a branch: its candidate lies on the empty board. -/
def branchStart (b : Board) (dominoes : List Domino) (c : Candidate) : Except Fault Progress := do
  let p ← Placement.forBoard b
  (Progress.start p dominoes.length).place c 0 0

/-- Searches one branch. The flag is read once before the search and then at each of its steps. -/
def runBranch (b : Board) (dominoes : List Domino) (raised : Nat → Bool) (c : Candidate) :
    Except Fault (Option Placement) := do
  if raised 0 then return none
  let s ← branchStart b dominoes c
  let (solved, s) ← run b (candidates dominoes) raised 0 1 s
  let _ ← word s.nodes
  return if solved then some s.placement else none

/-- Searches the branches one after the other up to the first with a cover. -/
def firstCover (b : Board) (dominoes : List Domino) :
    List Candidate → Except Fault (Option Placement)
  | [] => .ok none
  | c :: cs => do
    match ← runBranch b dominoes never c with
    | some p => return some p
    | none => firstCover b dominoes cs

end DominoTiling.Search
