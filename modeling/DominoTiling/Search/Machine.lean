import DominoTiling.Search.Run

/-!
# The search step by step

A `Machine` is a search that stands between two of its steps, with the calls it is in the middle of.
It makes the same search as `run` (`Machine.value` in the theory of machines), but it can be stopped
and taken up again after every step, so searches can take turns. A step reads the flag only where it
enters a call.
-/

namespace DominoTiling.Search

inductive Control where
  /-- To enter a call that covers the board from `(x, y)` on. -/
  | enter (x y : Nat)
  /-- To try these candidates at the empty cell `(x, y)`. -/
  | attempt (x y : Nat) (cs : List Candidate)
  /-- To leave a call, with success or without. -/
  | leave (found : Bool)
  deriving DecidableEq

/-- A call that waits for the one inside it. -/
inductive Frame where
  /-- It ends as the one inside it does. -/
  | pass
  /-- It has laid `c` at `(x, y)` and has the rest to try if the one inside it fails. -/
  | trial (x y : Nat) (c : Candidate) (rest : List Candidate)
  deriving DecidableEq

/-- A search between two steps, the innermost of its waiting calls first. -/
structure Machine where
  control : Control
  frames : List Frame
  progress : Progress

namespace Machine

/-- The next step. `read` is what the flag reads, if this step reads it. -/
def step (b : Board) (all : List Candidate) (read : Bool) : Machine → Except Fault Machine
  | ⟨.enter x y, fs, s⟩ =>
    if read then .ok ⟨.leave false, fs, s.enter⟩
    else if b.cols ≤ y then do
      let x' ← word (x + 1)
      return ⟨.enter x' 0, .pass :: fs, s.enter⟩
    else if b.rows ≤ x then .ok ⟨.leave true, fs, s.enter⟩
    else do
      if ← s.placement.isSet x y then
        return ⟨.enter x (y + 1), .pass :: fs, s.enter⟩
      else
        return ⟨.attempt x y all, fs, s.enter⟩
  | ⟨.attempt _ _ [], fs, s⟩ => .ok ⟨.leave false, fs, s⟩
  | ⟨.attempt x y (c :: cs), fs, s⟩ => do
    if ← s.admits b c x y then
      let s ← s.place c x y
      return ⟨.enter x (y + 1), .trial x y c cs :: fs, s⟩
    else
      return ⟨.attempt x y cs, fs, s⟩
  | ⟨.leave found, [], s⟩ => .ok ⟨.leave found, [], s⟩
  | ⟨.leave found, .pass :: fs, s⟩ => .ok ⟨.leave found, fs, s⟩
  | ⟨.leave true, .trial _ _ _ _ :: fs, s⟩ => .ok ⟨.leave true, fs, s⟩
  | ⟨.leave false, .trial x y c cs :: fs, s⟩ => do
    let s ← s.takeBack c x y
    return ⟨.attempt x y cs, fs, s⟩

/-- The outcome, once the outermost call has been left. -/
def result? : Machine → Option Bool
  | ⟨.leave found, [], _⟩ => some found
  | _ => none

end Machine
end DominoTiling.Search
