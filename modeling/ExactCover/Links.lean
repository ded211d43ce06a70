import ExactCover.Chain
import ExactCover.Grid

namespace ExactCover

/-- The lists of a search, the columns whose target is still open and for every column the rows that
    can still be selected for it, together with the open amounts. -/
structure Links (g : Grid) where
  /-- The columns whose target is not reached yet. -/
  active : Chain g.columns
  /-- For every column the rows that still cover it. -/
  covering : Vector (Chain g.rows) g.columns
  /-- What every column still has to receive. It is negative for a column past its target. -/
  remaining : Vector Int g.columns
deriving DecidableEq, Repr

namespace Links

variable {g : Grid}

/-- The lists before anything is selected: every column is active and every row is available. -/
def initial (g : Grid) : Links g where
  active := Chain.ofList (List.finRange g.columns)
  covering := Vector.ofFn fun column => Chain.ofList (g.rowsOf column)
  remaining := g.targets.map fun target => (target.toNat : Int)

/-- The list of the rows that still cover a column. -/
def rows (l : Links g) (column : Fin g.columns) : Chain g.rows := l.covering[column]

/-- What a column still has to receive. -/
def due (l : Links g) (column : Fin g.columns) : Int := l.remaining[column]

/-- Takes a row out of the list of one of its columns. -/
def removeCell (l : Links g) (cell : g.Cell) : Links g :=
  { l with covering := l.covering.set cell.1 ((l.rows cell.1).remove cell.2) }

/-- Puts a row back into the list of one of its columns. -/
def restoreCell (l : Links g) (cell : g.Cell) : Links g :=
  { l with covering := l.covering.set cell.1 ((l.rows cell.1).restore cell.2) }

/-- Adds to what a column still has to receive. -/
def addRemaining (l : Links g) (column : Fin g.columns) (n : Int) : Links g :=
  { l with remaining := l.remaining.set column (l.due column + n) }

/-- The cells of a row outside a column, in ascending order of columns. -/
def cellsOutside (column : Fin g.columns) (row : Fin g.rows) : List g.Cell :=
  (g.rowCells row).filter fun cell => cell.1 ≠ column

/-- The cells to take out when a column is covered: the rows in the column's list, from first to
    last, lose their cells in all other columns. The column's own list is left alone and so
    records which rows lost their cells. -/
def cellsHidden (l : Links g) (column : Fin g.columns) : List g.Cell :=
  (l.rows column).forward.flatMap (cellsOutside column)

/-- The cells to put back when a column is uncovered, in the opposite order. -/
def cellsRevealed (l : Links g) (column : Fin g.columns) : List g.Cell :=
  (l.rows column).backward.flatMap fun row => (cellsOutside column row).reverse

/-- The active column that the fewest rows cover, the first of them where several do. None is left
    when every target is reached. -/
def bestColumn (l : Links g) : Option (Fin g.columns) :=
  l.active.forward.minOn? fun column => (l.rows column).size

/-- The active columns with the rows that still cover them. -/
def coverage (l : Links g) : List (Fin g.columns × List (Fin g.rows)) :=
  l.active.forward.map fun column => (column, (l.rows column).forward)

end Links

end ExactCover
