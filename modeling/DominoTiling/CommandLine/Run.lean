import DominoTiling.CommandLine.Arguments
import DominoTiling.Drawing
import DominoTiling.Event
import DominoTiling.Search.Branches

/-!
# Running a command

A command prints and reports as it goes and ends in success, in an error or in a fault; what it
printed up to there stands. The arguments are read first, then the file of the environment, then the
settings, and only then is the command begun.
-/

namespace DominoTiling.CommandLine

/-- What a run has printed and reported. -/
structure Transcript where
  printed : String
  events : List Event

abbrev Run := ExceptT Failure (StateM Transcript)

instance : MonadLift (Except Failure) Run where
  monadLift x := match x with
    | .ok a => pure a
    | .error e => throw e

def print (text : String) : Run Unit := modify fun t => { t with printed := t.printed ++ text }

def report (e : Event) : Run Unit := modify fun t => { t with events := t.events ++ [e] }

/-- What a run meets around it. -/
structure Surroundings where
  environment : Environment
  /-- What stands at a path. -/
  file : String → EnvFile.File
  /-- The number of workers where it is not set. -/
  workers : Nat
  source : WordSource

/-- Prints a board made by chance, as text and as a drawing. -/
def runGenerate (rows cols : Nat) (source : WordSource) : Run Unit := do
  let (board, _) ← Generator.synthesize rows cols source
  report (.synthesized board)
  print (board.text ++ "\n")
  let p ← (Placement.forBoard board : Except Fault Placement)
  print (← (Drawing.board board p false : Except Fault String))

/-- Prints the boards of a size up to a limit, and how many there are. -/
def runEnumerate (rows cols : Nat) (limit : Option Nat) : Run Unit := do
  let s ← Generator.enumerate rows cols
  (Event.ofSurvey rows cols s).forM report
  let boards := s.boards.toList
  let shown := match limit with
    | some n => boards.take n
    | none => boards
  print (String.join (shown.map fun b => b.text ++ "\n"))
  print (toString boards.length ++ " distinct boards\n")

/-- The cover of a board, by one search or branch by branch. -/
def findCover (board : Board) (dominoes : List Domino) (parallel : Bool) (workers : Nat) :
    Run (Option Placement) := do
  if parallel then
    let cs ← (Search.branches board dominoes : Except Fault (List Search.Candidate))
    report (.fannedOut cs.length workers)
    Search.firstCover board dominoes cs
  else
    let v ← Search.solveBoard board
    report (.searched v)
    return v.cover?

/-- Prints a board, the set for its largest pip count, and a cover by that set. -/
def runSolve (text : String) (parallel : Bool) (workers : Nat) : Run Unit := do
  let board ← Board.parse text
  let maxPips := board.maxPips
  let dominoes ← (Domino.completeSet maxPips : Except Fault (List Domino))
  print "Domino Board:\n"
  let p ← (Placement.forBoard board : Except Fault Placement)
  print (← (Drawing.board board p false : Except Fault String))
  print "\nDominos:\n"
  print (Drawing.dominoes dominoes maxPips)
  match ← findCover board dominoes parallel workers with
  | some cover =>
    report .solutionFound
    print "\nSolution:\n"
    print (← (Drawing.board board cover true : Except Fault String))
  | none =>
    report .noSolution
    print "\nNo solution exists.\n"

/-- Runs a command with the settings of its environment. -/
def runArguments (s : Surroundings) (args : Arguments) : Run Unit := do
  let path := EnvFile.path args.env
  let (environment, loaded) := EnvFile.load s.environment (s.file path)
  if ← loaded then report (.settingsLoaded path)
  let settings ← ((Settings.ofEnvironment environment).mapError Failure.error :
    Except Failure Settings)
  match args.command with
  | .generate rows cols => runGenerate rows cols s.source
  | .enumerate rows cols => runEnumerate rows cols settings.enumerateLimit
  | .solve board parallel => runSolve board parallel (settings.workers.getD s.workers)

inductive Ending where
  | success
  | failed (e : PuzzleError)
  | usage
  | fault (f : Fault)
  deriving DecidableEq

def Ending.code : Ending → UInt8
  | .success => 0
  | .failed _ => 1
  | .usage => 2
  | .fault _ => 101

/-- The line that tells of an error. -/
def Ending.errorLine : Ending → Option String
  | .failed e => some ("Error: " ++ e.debugText)
  | _ => none

structure Outcome where
  printed : String
  events : List Event
  ending : Ending

def versionText : String := "pips 0.1.0\n"

def helpText : String :=
  "Generate and solve domino tiling puzzles\n\n" ++
  "Usage: pips [OPTIONS] <COMMAND>\n\n" ++
  "Commands:\n" ++
  "  generate   Make a random board that is solvable by construction\n" ++
  "  enumerate  List every distinct board obtainable from the domino set\n" ++
  "  solve      Solve a board given as an array of rows\n\n" ++
  "Options:\n" ++
  "  -e, --env <ENV>  The environment, settings are read from .env/<env>.env [default: prod]\n" ++
  "  -h, --help       Print help\n" ++
  "  -V, --version    Print version\n"

def run (s : Surroundings) (words : List String) : Outcome :=
  match readArguments words with
  | .error .usage => ⟨"", [], .usage⟩
  | .error .help => ⟨helpText, [], .success⟩
  | .error .version => ⟨versionText, [], .success⟩
  | .ok args =>
    let (result, t) := (runArguments s args).run ⟨"", []⟩
    match result with
    | .ok () => ⟨t.printed, t.events, .success⟩
    | .error (.error e) => ⟨t.printed, t.events, .failed e⟩
    | .error (.fault f) => ⟨t.printed, t.events, .fault f⟩

end DominoTiling.CommandLine
