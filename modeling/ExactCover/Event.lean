import ExactCover.Journal
import ExactCover.Label

namespace ExactCover

/-- One event of a search. -/
inductive Event (C R : Type) where
  /-- The row joins the partial solution. -/
  | select (row : R)
  /-- The row leaves the partial solution. -/
  | deselect (row : R)
  /-- The row leaves the rows that cover the column. -/
  | remove (column : C) (row : R)
  /-- The row comes back to the rows that cover the column. -/
  | restore (column : C) (row : R)
  /-- The partial solution, oldest row first, reaches every target exactly. -/
  | solution (rows : List R)
deriving DecidableEq, Repr

namespace Event

variable {C R : Type}

/-- The same event under other labels. -/
def map {C' R' : Type} (f : C → C') (g : R → R') : Event C R → Event C' R'
  | select row => select (g row)
  | deselect row => deselect (g row)
  | remove column row => remove (f column) (g row)
  | restore column row => restore (f column) (g row)
  | solution rows => solution (rows.map g)

/-- The report that an event becomes in the journal. -/
def report [Label C] [Label R] (e : Event C R) : Report :=
  let (message, fields) := match e with
    | select row => ("row selection", [("row", Label.shown row), ("selecting", "true")])
    | deselect row => ("row selection", [("row", Label.shown row), ("selecting", "false")])
    | remove column row =>
      ("row removed from column", [("column", Label.shown column), ("row", Label.shown row)])
    | restore column row =>
      ("row restored to column", [("column", Label.shown column), ("row", Label.shown row)])
    | solution rows => ("solution found", [("solution", Label.shownList rows)])
  ⟨.trace, .events, message, fields⟩

end Event

end ExactCover
