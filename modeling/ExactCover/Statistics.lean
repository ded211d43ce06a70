import ExactCover.Text.Decimal

namespace ExactCover

/-- Counters of a search so far. -/
structure Statistics where
  /-- Nodes of the search tree entered, the root included. -/
  nodes : Nat := 0
  /-- Rows selected. -/
  selections : Nat := 0
  /-- Selections given up because some column went past its target. -/
  overshoots : Nat := 0
  /-- Solutions found. -/
  solutions : Nat := 0
  /-- The largest number of rows that were selected at the same time. -/
  maxDepth : Nat := 0
deriving DecidableEq, Repr

namespace Statistics

/-- Counts a selection after which `depth` rows are selected. -/
def addSelection (s : Statistics) (depth : Nat) : Statistics :=
  { s with selections := s.selections + 1, maxDepth := max s.maxDepth depth }

/-- The counters on one line. -/
def text (s : Statistics) : String :=
  Decimal.ofNat s.nodes ++ " nodes, " ++ Decimal.ofNat s.selections ++ " selections, "
    ++ Decimal.ofNat s.overshoots ++ " overshoots, " ++ Decimal.ofNat s.solutions
    ++ " solutions, depth " ++ Decimal.ofNat s.maxDepth

end Statistics

end ExactCover
