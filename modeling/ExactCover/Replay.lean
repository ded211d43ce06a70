import ExactCover.Event
import ExactCover.Problem.Basic

namespace ExactCover

/-- What the events so far say about a search. A replay goes by the events alone: it keeps plain
    sets where the search has linked lists, and knows the active columns only from the amounts of
    the selected rows. -/
structure Replay (C R : Type) where
  /-- The pairs of a column and a row that covers it at present. -/
  coverage : SortedSet (C × R)
  /-- What each column still has to receive from the selected rows. -/
  remaining : SortedMap C Int
  /-- What each row of the problem gives to its columns. -/
  amounts : SortedMap R (Cover C)
  /-- The selected rows, latest first. -/
  selected : List R
  /-- The solution met last, unless it was taken back. -/
  lastSolution : Option (List R)
deriving DecidableEq, Repr

/-- Why an event does not fit the state of a replay. -/
inductive Replay.Fault where
  /-- A row is deselected that is not the last one selected. -/
  | deselectedNotLast
  /-- A selection is undone that is not the last one. -/
  | undoneNotLast
  /-- A row is removed from a column that it does not cover at present. -/
  | removedAbsent
  /-- A row is restored to a column that it covers already. -/
  | restoredPresent
  /-- A solution does not consist of the selected rows. -/
  | solutionDiffers
deriving DecidableEq, Repr

/-- The text of a fault. -/
def Replay.Fault.message : Fault → String
  | deselectedNotLast => "deselected row is not the last one"
  | undoneNotLast => "undone selection is not the last one"
  | removedAbsent => "removed row was not covering the column"
  | restoredPresent => "restored row was already covering the column"
  | solutionDiffers => "solution differs from the selection"

namespace Replay

variable {C R : Type}

/-- The selected rows, oldest first. -/
def selection (r : Replay C R) : List R := r.selected.reverse

/-- The columns that still have to receive something, in ascending order. -/
def activeColumns (r : Replay C R) : List C :=
  (r.remaining.entries.filter fun (_, n) => 0 < n).map (·.1)

/-- The rows that cover a column at present, in ascending order. -/
def rowsCovering [DecidableEq C] (r : Replay C R) (column : C) : List R :=
  (r.coverage.elements.filter fun (c, _) => c = column).map (·.2)

variable [Ord C] [Ord R]

/-- A replay before the first event of a search for the solutions of a problem. -/
def ofProblem (p : Problem C R) : Replay C R where
  coverage := p.incidences
  remaining := p.demand
  amounts := p.rows
  selected := []
  lastSolution := none

/-- Whether a row covers a column, going by the events so far. -/
def covers (r : Replay C R) (column : C) (row : R) : Bool := r.coverage.contains (column, row)

/-- What a column of the universe still has to receive. -/
def remaining? (r : Replay C R) (column : C) : Option Int := r.remaining.get? column

/-- Adds the amounts of a row, times a factor, to what its columns still have to receive. A row that
    the problem does not have changes nothing. -/
def shift (r : Replay C R) (row : R) (factor : Int) : Replay C R :=
  let cover := (r.amounts.get? row).getD ∅
  let remaining := cover.entries.foldl
    (fun m (column, amount) => m.modify column (· + factor * (amount.toNat : Int))) r.remaining
  { r with remaining := remaining }

/-- Selects a row: its columns have less to receive. -/
def push (r : Replay C R) (row : R) : Replay C R :=
  { r with selected := row :: r.selected }.shift row (-1)

/-- Takes the last selected row back, if it is the given one. -/
def pop? [DecidableEq R] (r : Replay C R) (row : R) : Option (Replay C R) :=
  match r.selected with
  | [] => none
  | last :: others => if last = row then some ({ r with selected := others }.shift row 1) else none

variable [DecidableEq R]

/-- The replay after one more event. -/
def apply (r : Replay C R) : Event C R → Except Fault (Replay C R)
  | .select row => .ok (r.push row)
  | .deselect row => (r.pop? row).elim (.error .deselectedNotLast) .ok
  | .remove column row =>
    if r.covers column row then .ok { r with coverage := r.coverage.erase (column, row) }
    else .error .removedAbsent
  | .restore column row =>
    if r.covers column row then .error .restoredPresent
    else .ok { r with coverage := r.coverage.insert (column, row) }
  | .solution rows =>
    if rows = r.selection then .ok { r with lastSolution := some rows } else .error .solutionDiffers

/-- The replay before an event, which should be the one applied last. Undoing a solution only
    forgets it. -/
def undo (r : Replay C R) : Event C R → Except Fault (Replay C R)
  | .select row => (r.pop? row).elim (.error .undoneNotLast) .ok
  | .deselect row => .ok (r.push row)
  | .remove column row => .ok { r with coverage := r.coverage.insert (column, row) }
  | .restore column row => .ok { r with coverage := r.coverage.erase (column, row) }
  | .solution _ => .ok { r with lastSolution := none }

/-- The replay after some more events. -/
def applyAll (r : Replay C R) (events : List (Event C R)) : Except Fault (Replay C R) :=
  events.foldlM apply r

end Replay

end ExactCover
