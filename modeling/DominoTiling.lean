import DominoTiling.Fault
import DominoTiling.Domino
import DominoTiling.Grid
import DominoTiling.Text.Basic
import DominoTiling.Text.Unprintable
import DominoTiling.Text.Combining
import DominoTiling.Text.Alphanumeric
import DominoTiling.Text.Quoted
import DominoTiling.Text.Digits
import DominoTiling.Decimal.Binary
import DominoTiling.Decimal.Shortest
import DominoTiling.BoardText.Cause
import DominoTiling.BoardText.Number
import DominoTiling.BoardText.Reader
import DominoTiling.EnvFile.Cause
import DominoTiling.EnvFile.Line
import DominoTiling.EnvFile.Value
import DominoTiling.EnvFile.Assignment
import DominoTiling.EnvFile.Basic
import DominoTiling.PuzzleError
import DominoTiling.Board
import DominoTiling.Placement
import DominoTiling.Drawing
import DominoTiling.Dimensions
import DominoTiling.Layout
import DominoTiling.Shuffle
import DominoTiling.Generator
import DominoTiling.Search.Fit
import DominoTiling.Search.IndexSet
import DominoTiling.Search.Run
import DominoTiling.Search.Solve
import DominoTiling.Search.Branches
import DominoTiling.Search.Machine
import DominoTiling.Search.Pool
import DominoTiling.Settings
import DominoTiling.Event
import DominoTiling.CommandLine.Options
import DominoTiling.CommandLine.Arguments
import DominoTiling.CommandLine.Run
import DominoTiling.Main
import DominoTiling.Proofs.Tiling
import DominoTiling.Proofs.Laying
import DominoTiling.Proofs.Outcome
import DominoTiling.Proofs.Restore
import DominoTiling.Proofs.Completion
import DominoTiling.Proofs.Cover
import DominoTiling.Proofs.ExactCover
import DominoTiling.Proofs.Solve
import DominoTiling.Proofs.Machine
import DominoTiling.Proofs.Branches
import DominoTiling.Proofs.Pool
import DominoTiling.Proofs.Decisions
import DominoTiling.Proofs.FirstCover
import DominoTiling.Proofs.CompleteSet
import DominoTiling.Proofs.Pairing
import DominoTiling.Proofs.Layout
import DominoTiling.Proofs.BoardText
import DominoTiling.Proofs.Arrangements
import DominoTiling.Proofs.Survey
import DominoTiling.Proofs.Generated
import DominoTiling.Proofs.BoardGrammar
import DominoTiling.Proofs.ColumnPairs
import DominoTiling.Proofs.Enumeration
import DominoTiling.Proofs.FullWalk
import DominoTiling.Proofs.Draws
import DominoTiling.Proofs.SynthesisRange
import DominoTiling.Proofs.Counters
import DominoTiling.Proofs.FirstBranch
import DominoTiling.Proofs.OneWorker
import DominoTiling.Proofs.Returns
import DominoTiling.Proofs.Calls
import DominoTiling.Proofs.PartialCover
import DominoTiling.Proofs.Refusals
import DominoTiling.Proofs.SetLimits
import DominoTiling.Proofs.Reordering
import DominoTiling.Proofs.CallingOff
import DominoTiling.Proofs.DrawnBoard
import DominoTiling.Proofs.PoolEnds
import DominoTiling.Proofs.MadeBoards
import DominoTiling.Proofs.LaterStart
import DominoTiling.Proofs.Accounting
import DominoTiling.Proofs.Symmetry
import DominoTiling.Proofs.Thinning
import DominoTiling.Proofs.Supply
import DominoTiling.Proofs.Filling
import DominoTiling.Proofs.Encodings
import DominoTiling.Proofs.Rows
import DominoTiling.Proofs.Listing
import DominoTiling.Proofs.Underway
import DominoTiling.Proofs.Precedence
import DominoTiling.Proofs.InPlace
import DominoTiling.Proofs.Anchors
