import ExactCover.Search

namespace ExactCover

/-- A search for the solutions of a problem: a search of its grid, seen through the labels of its
    columns and rows. -/
structure Solver (C R σ : Type) [Ord C] where
  problem : Problem C R
  listener : Listener C R σ
  search : Search problem.grid σ

/-- Starts a search for the solutions of a problem, with a listener and its first state. -/
def Problem.solve {C R σ : Type} [Ord C] (p : Problem C R) (listener : Listener C R σ) (state : σ) :
    Solver C R σ where
  problem := p
  listener := listener
  search := .start p.grid
    (listener.remark (.starting p.targets.size p.rowCount p.incidenceCount) state)

namespace Solver

variable {C R σ : Type} [Ord C]

/-- The listener as the search of the grid needs it. -/
def gridListener (s : Solver C R σ) :
    Listener (Fin s.problem.grid.columns) (Fin s.problem.grid.rows) σ :=
  s.listener.rename s.problem.columnAt s.problem.rowAt

/-- The next solution, with its rows in the order they were selected. After the last solution
    there is none, whenever it is asked for again. -/
def next (s : Solver C R σ) : Option (List R) × Solver C R σ :=
  let (found, search) := s.search.next s.gridListener
  (found.map fun rows => rows.map s.problem.rowAt, { s with search := search })

/-- At most the given number of solutions. The search goes no further than needed to find them. -/
def take : (limit : Nat) → Solver C R σ → List (List R) × Solver C R σ
  | 0, s => ([], s)
  | limit + 1, s =>
    match s.next with
    | (none, s) => ([], s)
    | (some rows, s) =>
      let (others, s) := take limit s
      (rows :: others, s)

/-- All solutions that are left. There are not more of them than sets of rows, and one more is asked
    for to reach the end of the search. -/
def rest (s : Solver C R σ) : List (List R) × Solver C R σ :=
  s.take (s.problem.grid.rowSets + 1)

/-- The active columns and the rows that still cover them, both in ascending order. -/
def coverage (s : Solver C R σ) : List (C × List R) :=
  s.search.links.coverage.map fun (column, rows) =>
    (s.problem.columnAt column, rows.map s.problem.rowAt)

/-- The counters of the search so far. -/
def statistics (s : Solver C R σ) : Statistics := s.search.statistics

/-- The number of rows in the partial solution. -/
def depth (s : Solver C R σ) : Nat := s.search.depth

/-- Whether the whole search tree has been explored. -/
def isExhausted (s : Solver C R σ) : Bool := s.search.isExhausted

/-- What the listener knows. -/
def observed (s : Solver C R σ) : σ := s.search.observed

/-- Changes what the listener knows. -/
def modifyObserved (s : Solver C R σ) (f : σ → σ) : Solver C R σ :=
  { s with search.observed := f s.search.observed }

end Solver

end ExactCover
