import ExactCover.Codec
import ExactCover.Exploration
import ExactCover.Problem.Edit
import ExactCover.Problem.Solution
import ExactCover.Proofs.Chain
import ExactCover.Proofs.Search.Operations
import ExactCover.Proofs.Problem.WellFormed
import ExactCover.Proofs.SortedSet
import ExactCover.Replay.Playback
import ExactCover.Solver
import ExactCover.Table
import ExactCover.Proofs.Search.Moves
import ExactCover.Proofs.Search.Steps
import ExactCover.Proofs.Search.Progress
import ExactCover.Proofs.Problem.Grid
import ExactCover.Proofs.Solver
import ExactCover.Proofs.Search.Invariant
import ExactCover.Proofs.Search.Completeness
import ExactCover.Proofs.Solutions
import ExactCover.Proofs.Problem.Remainder
import ExactCover.Proofs.Exploration
import ExactCover.Proofs.Replay
import ExactCover.Proofs.Restoration
import ExactCover.Proofs.Search.Visits
import ExactCover.Proofs.Search.Accounts
import ExactCover.Proofs.Search.Counters
import ExactCover.Proofs.Visits
import ExactCover.Proofs.Arena.Basic
import ExactCover.Proofs.Arena.Layout
import ExactCover.Proofs.Arena.Updates
import ExactCover.Proofs.Arena.Operations
import ExactCover.Proofs.Arena.Selection
import ExactCover.Proofs.Arena.Steps
import ExactCover.Proofs.Arena.Build
import ExactCover.Proofs.Arena.Solver
import ExactCover.Proofs.Safety
import ExactCover.Proofs.Termination
import ExactCover.Proofs.Bisection
import ExactCover.Proofs.Problem.Views
import ExactCover.Proofs.Playback
import ExactCover.Proofs.Brackets
import ExactCover.Proofs.Problem.Parts
import ExactCover.Proofs.Text
import ExactCover.Proofs.Codec.Base64
import ExactCover.Proofs.Json.Grammar
import ExactCover.Proofs.Json.Text
import ExactCover.Proofs.Json.Numeral
import ExactCover.Proofs.Json.Skip
import ExactCover.Proofs.Json.Coded
import ExactCover.Proofs.Codec.Fields
import ExactCover.Proofs.Codec
import ExactCover.Proofs.Codec.Canonical
import ExactCover.Proofs.Observation
import ExactCover.Proofs.Statistics
import ExactCover.Proofs.Problem.History
import ExactCover.Proofs.Problem.Canonical
import ExactCover.Proofs.Table.Cell
import ExactCover.Proofs.Table.Reading
import ExactCover.Proofs.Table
import ExactCover.Proofs.Problem.Rows
import ExactCover.Proofs.Problem.Meaning
import ExactCover.Proofs.Renaming
import ExactCover.Proofs.Selections
import ExactCover.Proofs.Inverses
