import DominoTiling.PuzzleError
import DominoTiling.Text.Basic
import DominoTiling.Text.Digits
import DominoTiling.EnvFile.Basic

/-!
# Settings

Two settings are read from the environment: the number of workers of a search by branches, and how
many boards a list shows. Each is a positive number of at most 64 bits, in decimal digits with an
optional plus and blank space around it. The workers are looked at first.
-/

namespace DominoTiling

/-- A positive number of at most 64 bits, written in digits with an optional plus. -/
def readCount (text : List Char) : Option Nat :=
  let digits := match text with
    | '+' :: rest => rest
    | rest => rest
  if digits.isEmpty ∨ !digits.all Text.isDigit then none
  else if Text.numberOf digits < 2 ^ 64 then some (Text.numberOf digits)
  else none

/-- What can be set. Where the workers are not, the machine decides; without a limit a list shows
everything. -/
structure Settings where
  workers : Option Nat
  enumerateLimit : Option Nat
  deriving DecidableEq

namespace Settings

def workersKey : String := "PIPS_WORKERS"

def enumerateLimitKey : String := "PIPS_ENUMERATE_LIMIT"

/-- The value of one setting, the default where the variable has no text. The error shows the value as
it was given. -/
def readSetting (env : Environment) (key : String) : Except PuzzleError (Option Nat) :=
  match env.text key with
  | none => .ok none
  | some value =>
    match readCount (Text.trim value.toList) with
    | some n => if 0 < n then .ok (some n) else .error (.invalidSetting key value)
    | none => .error (.invalidSetting key value)

/-- The settings of an environment. -/
def ofEnvironment (env : Environment) : Except PuzzleError Settings := do
  let workers ← readSetting env workersKey
  let enumerateLimit ← readSetting env enumerateLimitKey
  return ⟨workers, enumerateLimit⟩

end Settings

namespace EnvFile

/-- The environment with the settings of a file in it, and whether there was such a file. Of a file
that cannot be read to its end, or with a value that cannot be kept, what stands before that counts.
-/
def load (env : Environment) : File → Environment × Except Failure Bool
  | .missing => (env, .ok false)
  | .refused refusal => (env, .error (.error (.unreadableEnvFile (.refused refusal))))
  | .content bytes =>
    let contents := read bytes
    let (env, fault) := extend env contents.assignments
    let result := match fault, contents.cause with
      | some fault, _ => .error (.fault fault)
      | none, some cause => .error (.error (.unreadableEnvFile cause))
      | none, none => .ok true
    (env, result)

end EnvFile
end DominoTiling
