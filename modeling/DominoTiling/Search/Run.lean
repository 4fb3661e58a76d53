import DominoTiling.Search.Fit
import DominoTiling.Search.IndexSet

/-!
# The search

A depth-first search for a cover of the cells from a start on, row by row, with one more step at the
end of every row. At each empty cell the dominoes not in use are tried in the order of their list,
to the right before down; the search goes on behind a domino that fits and takes it back if that
fails. `Progress` is the state it works on; a search that fails leaves placement and positions in
use as they were.

A row is at its end where the column is not below the number of columns. On a board without columns
rows end for ever and the row number runs out of bits, as it does past the last row there is.

A search can be called off. `raised n` is what the flag reads at the `n`-th step, and a step that
finds it raised fails at once. A search that nothing can call off reads `never`.
-/

namespace DominoTiling.Search

/-- A domino of a list, its position there, and the direction in which to lay it. -/
structure Candidate where
  index : Nat
  domino : Domino
  orientation : Orientation
  deriving DecidableEq

/-- The candidates from a list of dominoes in the order in which they are tried. -/
def candidates (dominoes : List Domino) : List Candidate :=
  dominoes.zipIdx.flatMap fun (d, i) => [⟨i, d, .horizontal⟩, ⟨i, d, .vertical⟩]

structure Progress where
  placement : Placement
  inUse : IndexSet
  /-- Steps taken. -/
  nodes : Nat
  /-- Dominoes taken back. -/
  backtracks : Nat

namespace Progress

def start (p : Placement) (length : Nat) : Progress := ⟨p, .empty length, 0, 0⟩

def enter (s : Progress) : Progress := { s with nodes := s.nodes + 1 }

/-- May this candidate be laid at `(x, y)`? -/
def admits (s : Progress) (b : Board) (c : Candidate) (x y : Nat) : Except Fault Bool := do
  if ← s.inUse.contains c.index then return false
  c.domino.fits b s.placement x y c.orientation

def place (s : Progress) (c : Candidate) (x y : Nat) : Except Fault Progress := do
  let ⟨placement, inUse, nodes, backtracks⟩ := s
  let (x', y') ← c.orientation.partner x y
  let inUse ← inUse.insert c.index
  let placement ← placement.set x y (some c.index)
  let placement ← placement.set x' y' (some c.index)
  return ⟨placement, inUse, nodes, backtracks⟩

def takeBack (s : Progress) (c : Candidate) (x y : Nat) : Except Fault Progress := do
  let ⟨placement, inUse, nodes, backtracks⟩ := s
  let (x', y') ← c.orientation.partner x y
  let placement ← placement.set x y none
  let placement ← placement.set x' y' none
  let inUse ← inUse.remove c.index
  return ⟨placement, inUse, nodes, backtracks + 1⟩

end Progress

def never : Nat → Bool := fun _ => false

/-- Lays the first candidate at `(x, y)` behind which the search goes on to the end. -/
def tryCandidates (b : Board) (x y : Nat) (onward : Progress → Except Fault (Bool × Progress)) :
    List Candidate → Progress → Except Fault (Bool × Progress)
  | [], s => .ok (false, s)
  | c :: cs, s => do
    if ← s.admits b c x y then
      let (found, s) ← onward (← s.place c x y)
      if found then
        return (true, s)
      else
        tryCandidates b x y onward cs (← s.takeBack c x y)
    else
      tryCandidates b x y onward cs s

/-- Covers every cell from `(x, y)` on that is not covered yet. -/
def run (b : Board) (cs : List Candidate) (raised : Nat → Bool) (x y : Nat) (s : Progress) :
    Except Fault (Bool × Progress) :=
  if raised s.enter.nodes then .ok (false, s.enter)
  else if b.cols ≤ y then
    match _hx : word (x + 1) with
    | .ok x' => run b cs raised x' 0 s.enter
    | .error f => .error f
  else if b.rows ≤ x then .ok (true, s.enter)
  else do
    if ← s.placement.isSet x y then
      run b cs raised x (y + 1) s.enter
    else
      tryCandidates b x y (fun s => run b cs raised x (y + 1) s) cs s.enter
termination_by (2 ^ 64 - x) * (b.cols + 1) + (b.cols - y)
decreasing_by
  · obtain ⟨hx', rfl⟩ := word_eq_ok_iff.1 _hx
    rw [show 2 ^ 64 - x = 2 ^ 64 - (x + 1) + 1 by omega, Nat.add_mul]
    omega
  · omega
  · omega

/-! ### One call at a time -/

section
variable {b : Board} {cs : List Candidate} {raised : Nat → Bool} {x y : Nat} {s : Progress}

theorem run_calledOff (hread : raised s.enter.nodes = true) :
    run b cs raised x y s = .ok (false, s.enter) := by
  rw [run, if_pos hread]

theorem run_rowEnd (hread : raised s.enter.nodes = false) (hy : b.cols ≤ y)
    (hx : x + 1 < 2 ^ 64) : run b cs raised x y s = run b cs raised (x + 1) 0 s.enter := by
  rw [run, if_neg (Bool.eq_false_iff.1 hread), if_pos hy]
  split
  · rename_i x' hx'
    rw [(word_eq_ok_iff.1 hx').2]
  · rename_i f hx'
    rw [word_of_lt hx] at hx'
    cases hx'

theorem run_complete (hread : raised s.enter.nodes = false) (hy : y < b.cols) (hx : b.rows ≤ x) :
    run b cs raised x y s = .ok (true, s.enter) := by
  rw [run, if_neg (Bool.eq_false_iff.1 hread), if_neg (Nat.not_le.2 hy), if_pos hx]

theorem run_onBoard (hread : raised s.enter.nodes = false) (hy : y < b.cols) (hx : x < b.rows) :
    run b cs raised x y s = s.placement.isSet x y >>= fun set =>
      if set then run b cs raised x (y + 1) s.enter
      else tryCandidates b x y (fun s => run b cs raised x (y + 1) s) cs s.enter := by
  rw [run, if_neg (Bool.eq_false_iff.1 hread), if_neg (Nat.not_le.2 hy), if_neg (Nat.not_le.2 hx)]

theorem run_covered (hread : raised s.enter.nodes = false) (hy : y < b.cols) (hx : x < b.rows)
    (hset : s.placement.isSet x y = .ok true) :
    run b cs raised x y s = run b cs raised x (y + 1) s.enter := by
  rw [run_onBoard hread hy hx, hset]
  rfl

theorem run_empty (hread : raised s.enter.nodes = false) (hy : y < b.cols) (hx : x < b.rows)
    (hset : s.placement.isSet x y = .ok false) :
    run b cs raised x y s =
      tryCandidates b x y (fun s => run b cs raised x (y + 1) s) cs s.enter := by
  rw [run_onBoard hread hy hx, hset]
  rfl

variable {c : Candidate} {s₁ : Progress} {onward : Progress → Except Fault (Bool × Progress)}

theorem tryCandidates_refused (hadm : s.admits b c x y = .ok false) :
    tryCandidates b x y onward (c :: cs) s = tryCandidates b x y onward cs s := by
  rw [tryCandidates, hadm]
  rfl

theorem tryCandidates_laid (hadm : s.admits b c x y = .ok true)
    (hlay : s.place c x y = .ok s₁) :
    tryCandidates b x y onward (c :: cs) s = onward s₁ >>= fun r =>
      if r.1 then .ok (true, r.2)
      else r.2.takeBack c x y >>= tryCandidates b x y onward cs := by
  rw [tryCandidates, hadm]
  show (s.place c x y >>= fun s => onward s >>= _) = _
  rw [hlay]
  rfl

end

end DominoTiling.Search
