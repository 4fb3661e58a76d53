import DominoTiling.Search.Branches
import DominoTiling.Search.Machine

/-!
# Branches shared out among workers

The branches of a board are searched by a number of workers that take turns in any order. They share
one flag, which a branch raises when it has found a cover. A branch reads the flag before it starts
and at each step of its search. A raised flag may go unnoticed for any time, but it is not read as
raised before it has been.

The answer is the cover of any branch that has one. That there is none is answered only after every
branch has been searched and has answered so; a branch that no worker has taken up by the time an
answer is given is never searched.
-/

namespace DominoTiling.Search

/-- Where the search of a branch stands. -/
inductive BranchState where
  /-- No worker has taken it up. -/
  | waiting
  | searching (m : Machine)
  /-- It has found a cover and has not raised the flag yet. -/
  | covered (p : Placement)
  /-- It has raised the flag for its cover. -/
  | signalled (p : Placement)
  | answered (answer : Option Placement)
  /-- A fault has ended it. -/
  | failed (f : Fault)

namespace BranchState

def isActive : BranchState → Bool
  | searching _ | covered _ | signalled _ => true
  | _ => false

def isWaiting : BranchState → Bool
  | waiting => true
  | _ => false

def raises : BranchState → Bool
  | covered _ => true
  | _ => false

def step (b : Board) (dominoes : List Domino) (c : Candidate) (read : Bool) :
    BranchState → BranchState
  | waiting =>
    if read then answered none
    else
      match branchStart b dominoes c with
      | .ok s => searching ⟨.enter 0 1, [], s⟩
      | .error f => failed f
  | searching m =>
    match m.result? with
    | some true => covered m.progress.placement
    | some false => answered none
    | none =>
      match m.step b (candidates dominoes) read with
      | .ok m => searching m
      | .error f => failed f
  | covered p => signalled p
  | signalled p => answered (some p)
  | answered a => answered a
  | failed f => failed f

end BranchState

/-- The branches with the states they are in, and whether the flag has been raised. -/
structure Pool where
  flag : Bool
  branches : List (Candidate × BranchState)

namespace Pool

def start (cs : List Candidate) : Pool := ⟨false, cs.map fun c => (c, .waiting)⟩

def active (q : Pool) : Nat := q.branches.countP fun e => e.2.isActive

/-- A step of the branch at position `k`, with what it reads if it reads the flag. A waiting branch
needs a free worker; there is always one worker at least. -/
def step (b : Board) (dominoes : List Domino) (workers : Nat) (q : Pool) (k : Nat) (read : Bool) :
    Option Pool :=
  match q.branches[k]? with
  | none => none
  | some (c, state) =>
    if read && !q.flag then none
    else if state.isWaiting && decide (max workers 1 ≤ q.active) then none
    else some ⟨q.flag || state.raises, q.branches.set k (c, state.step b dominoes c read)⟩

def run (b : Board) (dominoes : List Domino) (workers : Nat) (schedule : List (Nat × Bool))
    (q : Pool) : Option Pool :=
  schedule.foldlM (fun q turn => q.step b dominoes workers turn.1 turn.2) q

/-- What the pool may answer. -/
inductive Answers (q : Pool) : Option Placement → Prop
  | cover {c : Candidate} {p : Placement} (h : (c, .answered (some p)) ∈ q.branches) :
      Answers q (some p)
  | none (h : ∀ e ∈ q.branches, e.2 = .answered Option.none) : Answers q Option.none

end Pool

/-- What workers may answer on a board, whichever turns they take. -/
def ParallelAnswer (b : Board) (dominoes : List Domino) (workers : Nat)
    (answer : Option Placement) : Prop :=
  ∃ cs schedule q, branches b dominoes = .ok cs ∧
    (Pool.start cs).run b dominoes workers schedule = some q ∧ q.Answers answer

end DominoTiling.Search
