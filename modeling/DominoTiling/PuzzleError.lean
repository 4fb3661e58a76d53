import DominoTiling.Fault
import DominoTiling.BoardText.Cause
import DominoTiling.EnvFile.Cause

/-!
# Errors

What can be wrong with a request, by cause. `PuzzleError.message` is the wording of each,
`PuzzleError.debugText` the form in which a failed command shows it. All but a broken layout and a
worker pool that does not start come from the request itself (`isConfiguration`).

A `Failure` is an error of this kind or a fault of the machine arithmetic underneath.
-/

namespace DominoTiling

/-- What is wrong with a request. -/
inductive PuzzleError where
  | nonPositiveDimensions (rows cols : Nat)
  | tooLarge (rows cols : Nat)
  | oddCellCount (rows cols : Nat)
  | oddColumnCount (rows cols : Nat)
  | raggedBoard (row expected found : Nat)
  | dimensionMismatch (rows cols foundRows foundCols : Nat)
  | exhausted (placed rows cols : Nat)
  | invalidSetting (key value : String)
  | unreadableBoard (failure : BoardText.Failure)
  | unreadableEnvFile (cause : EnvFile.Cause)
  | workerPool (reason : String)
  deriving DecidableEq

namespace PuzzleError

/-- A size, rows first. -/
def sizeText (rows cols : Nat) : String := toString rows ++ "x" ++ toString cols

def message : PuzzleError → String
  | nonPositiveDimensions rows cols =>
    "board dimensions must be positive, got " ++ sizeText rows cols
  | tooLarge rows cols => "a " ++ sizeText rows cols ++ " board is too large"
  | oddCellCount rows cols => "a " ++ sizeText rows cols ++ " board has an odd number of cells"
  | oddColumnCount rows cols =>
    "a " ++ sizeText rows cols ++
      " board has an odd number of columns, dominoes are laid in column pairs"
  | raggedBoard row expected found =>
    "row " ++ toString row ++ " has " ++ toString found ++ " cells, expected " ++ toString expected
  | dimensionMismatch rows cols foundRows foundCols =>
    "placement grid is " ++ sizeText foundRows foundCols ++ " but the board is " ++
      sizeText rows cols
  | exhausted placed rows cols =>
    "ran out of dominoes after placing " ++ toString placed ++ " on a " ++ sizeText rows cols ++
      " board"
  | invalidSetting key value => "invalid value " ++ Text.quoted value ++ " for setting " ++ key
  | unreadableBoard failure => failure.message
  | unreadableEnvFile cause => "could not load environment file: " ++ cause.message
  | workerPool reason => "could not start the worker pool: " ++ reason

/-- A case with its named fields. -/
def record (name : String) (fields : List (String × String)) : String :=
  name ++ " \x7b " ++ ", ".intercalate (fields.map fun f => f.1 ++ ": " ++ f.2) ++ " \x7d"

/-- The case of an error and its fields, texts quoted. -/
def debugText : PuzzleError → String
  | nonPositiveDimensions rows cols =>
    record "NonPositiveDimensions" [("rows", toString rows), ("cols", toString cols)]
  | tooLarge rows cols => record "TooLarge" [("rows", toString rows), ("cols", toString cols)]
  | oddCellCount rows cols =>
    record "OddCellCount" [("rows", toString rows), ("cols", toString cols)]
  | oddColumnCount rows cols =>
    record "OddColumnCount" [("rows", toString rows), ("cols", toString cols)]
  | raggedBoard row expected found =>
    record "RaggedBoard"
      [("row", toString row), ("expected", toString expected), ("found", toString found)]
  | dimensionMismatch rows cols foundRows foundCols =>
    record "DimensionMismatch"
      [("rows", toString rows), ("cols", toString cols), ("found_rows", toString foundRows),
        ("found_cols", toString foundCols)]
  | exhausted placed rows cols =>
    record "Exhausted"
      [("placed", toString placed), ("rows", toString rows), ("cols", toString cols)]
  | invalidSetting key value =>
    record "InvalidSetting" [("key", Text.quoted key), ("value", Text.quoted value)]
  | unreadableBoard failure => "Json(" ++ failure.debugText ++ ")"
  | unreadableEnvFile cause => "EnvFile(" ++ cause.debugText ++ ")"
  | workerPool reason => "ThreadPool(" ++ reason ++ ")"

/-- Errors that the request itself causes, as opposed to a broken layout invariant or a worker pool
that does not start. -/
def isConfiguration : PuzzleError → Bool
  | exhausted _ _ _ => false
  | workerPool _ => false
  | _ => true

end PuzzleError

/-- Why a request has no answer. -/
inductive Failure where
  | fault (f : Fault)
  | error (e : PuzzleError)
  deriving DecidableEq

instance : MonadLift (Except Fault) (Except Failure) where
  monadLift x := x.mapError .fault

theorem liftM_ok {α : Type} (a : α) : (liftM (.ok a : Except Fault α) : Except Failure α) = .ok a :=
  rfl

theorem liftM_eq_ok_iff {α : Type} {x : Except Fault α} {a : α} :
    (liftM x : Except Failure α) = .ok a ↔ x = .ok a := by
  cases x with
  | ok a' => exact ⟨fun h => (by cases h; rfl), fun h => (by cases h; rfl)⟩
  | error f => exact ⟨fun h => (by cases h), fun h => (by cases h)⟩

end DominoTiling
