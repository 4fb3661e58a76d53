import DominoTiling.Generator
import DominoTiling.Search.Solve

/-!
# Events

What a run reports about its work, each event with the level of its report. Reports follow the work
they are about; only the branches of a search are reported before they are searched.
-/

namespace DominoTiling

/-- How much a report matters. -/
inductive Level where
  | info
  | debug
  deriving DecidableEq

/-- Something worth a report. -/
inductive Event where
  | searched (v : Search.Verdict)
  | fannedOut (branches workers : Nat)
  | synthesized (board : Board)
  | walked (arrangements boards : Nat)
  | enumerated (rows cols boards arrangements : Nat)
  | settingsLoaded (path : String)
  | solutionFound
  | noSolution

namespace Event

def level : Event → Level
  | searched _ => .debug
  | fannedOut _ _ => .debug
  | walked _ _ => .debug
  | _ => .info

def text : Event → String
  | searched v =>
    "search on " ++ PuzzleError.sizeText v.placement.rows v.placement.cols ++ " board with " ++
      toString v.offered ++ " dominoes: solved=" ++ toString v.solved ++ ", " ++
      toString v.nodes ++ " nodes, " ++ toString v.backtracks ++ " backtracks"
  | fannedOut branches workers =>
    "fanning out " ++ toString branches ++ " branches over " ++ toString workers ++ " workers"
  | synthesized b =>
    "synthesized " ++ PuzzleError.sizeText b.rows b.cols ++ " board " ++ b.text
  | walked arrangements boards =>
    toString arrangements ++ " permutations, " ++ toString boards ++ " distinct boards"
  | enumerated rows cols boards arrangements =>
    "enumerated " ++ toString boards ++ " distinct " ++ PuzzleError.sizeText rows cols ++
      " boards from " ++ toString arrangements ++ " permutations"
  | settingsLoaded path => "loaded settings from " ++ path
  | solutionFound => "Solution found for the domino puzzle."
  | noSolution => "No solution exists for the domino puzzle."

/-- A report: the level and the text. -/
def report (e : Event) : String :=
  (match e.level with
    | .info => "INFO "
    | .debug => "DEBUG ") ++ e.text

/-- The reports of an enumeration. -/
def ofSurvey (rows cols : Nat) (s : Generator.Survey) : List Event :=
  s.milestones.toList.map (fun m => walked m.1 m.2) ++
    [enumerated rows cols s.boards.size s.walked]

end Event
end DominoTiling
