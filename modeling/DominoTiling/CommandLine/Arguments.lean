import DominoTiling.CommandLine.Options

/-!
# The arguments of the program

The name of an environment, which has a default, and one of three commands with its own options.
Help can be asked for at any place, before the command and after it.
-/

namespace DominoTiling.CommandLine

/-- What the program is asked to do. -/
inductive Command where
  | generate (rows cols : Nat)
  | enumerate (rows cols : Nat)
  | solve (board : String) (parallel : Bool)
  deriving DecidableEq

/-- A command and the environment that it runs in. -/
structure Arguments where
  env : String
  command : Command
  deriving DecidableEq

def helpOption : OptionName := ⟨"help", 'h', .help⟩

def programOptions : List OptionName :=
  [⟨"env", 'e', .text⟩, helpOption, ⟨"version", 'V', .version⟩]

def sizeOptions : List OptionName :=
  [⟨"rows", 'r', .count⟩, ⟨"cols", 'c', .count⟩, helpOption]

def solveOptions : List OptionName :=
  [⟨"board", 'b', .text⟩, ⟨"parallel", 'p', .flag⟩, helpOption]

def defaultEnv : String := "prod"

/-- The options of a command. It has no operands. -/
def scanCommand (names : List OptionName) (words : List String) : Except Stop Given := do
  let scanned ← scan names words ([], none)
  if scanned.operand.isSome then throw .usage
  return scanned.given

def count (given : Given) (long : String) : Except Stop Nat :=
  match (given.lookup long).bind fun value => readCount value.toList with
  | some n => .ok n
  | none => .error .usage

def readSize (words : List String) : Except Stop (Nat × Nat) := do
  let given ← scanCommand sizeOptions words
  return (← count given "rows", ← count given "cols")

/-- A request for help on one of the commands, or on all of them. No command has commands of its
own. -/
def readHelp : List String → Stop
  | [] => .help
  | [w] => if w ∈ ["generate", "enumerate", "solve", "help"] then .help else .usage
  | _ => .usage

/-- The command of this name with the words behind it. -/
def readCommand (name : String) (words : List String) : Except Stop Command :=
  if name = "generate" then (readSize words).map fun s => .generate s.1 s.2
  else if name = "enumerate" then (readSize words).map fun s => .enumerate s.1 s.2
  else if name = "solve" then do
    let given ← scanCommand solveOptions words
    match given.lookup "board" with
    | some board => return .solve board (given.lookup "parallel").isSome
    | none => throw .usage
  else if name = "help" then throw (readHelp words)
  else throw .usage

def readArguments (words : List String) : Except Stop Arguments := do
  let scanned ← scan programOptions words ([], none)
  match scanned.operand with
  | none => throw .usage
  | some (name, rest) =>
    let command ← readCommand name rest
    return ⟨(scanned.given.lookup "env").getD defaultEnv, command⟩

end DominoTiling.CommandLine
