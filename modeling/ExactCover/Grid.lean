import ExactCover.Problem.Basic

namespace ExactCover

/-- A problem over the columns below `columns` and the rows below `rows`. A search works on the grid
    of a problem, so it cannot depend on labels in any other way than through their order. -/
structure Grid where
  columns : Nat
  rows : Nat
  targets : Vector Amount columns
  /-- What each row gives to the columns it covers, in ascending order of columns. -/
  covers : Vector (List (Fin columns × Amount)) rows
deriving DecidableEq, Repr

namespace Grid

/-- A row in one of the columns it covers. -/
abbrev Cell (g : Grid) := Fin g.columns × Fin g.rows

/-- What a row gives to the columns it covers, in ascending order of columns. -/
def cover (g : Grid) (row : Fin g.rows) : List (Fin g.columns × Amount) := g.covers[row]

/-- The cells of a row, in ascending order of columns. -/
def rowCells (g : Grid) (row : Fin g.rows) : List g.Cell :=
  (g.cover row).map fun (column, _) => (column, row)

/-- The number of sets of rows. -/
def rowSets (g : Grid) : Nat := Nat.pow 2 g.rows

/-- The rows that cover a column, in ascending order. -/
def rowsOf (g : Grid) (column : Fin g.columns) : List (Fin g.rows) :=
  (List.finRange g.rows).filter fun row => (g.cover row).any fun (c, _) => c = column

end Grid

namespace Problem

variable {C R : Type} [Ord C]

/-- The cover of a row, by positions of columns. -/
def positions (p : Problem C R) (cover : Cover C) : List (Fin p.targets.size × Amount) :=
  cover.entries.filterMap fun (column, amount) =>
    (p.targets.position? column).map fun i => (i, amount)

/-- A problem with columns and rows named by their positions in ascending order. -/
def grid (p : Problem C R) : Grid where
  columns := p.targets.size
  rows := p.rows.size
  targets := Vector.ofFn fun i => (p.targets.entry i).2
  covers := Vector.ofFn fun i => p.positions (p.rows.entry i).2

/-- The label of a column of the grid. -/
def columnAt (p : Problem C R) (i : Fin p.grid.columns) : C := (p.targets.entry i).1

/-- The label of a row of the grid. -/
def rowAt (p : Problem C R) (i : Fin p.grid.rows) : R := (p.rows.entry i).1

end Problem

end ExactCover
