import ExactCover.Links
import ExactCover.Observer

namespace ExactCover

/-- A level of the search tree. -/
structure Frame (g : Grid) where
  /-- The column for which rows are tried. -/
  column : Fin g.columns
  /-- The row selected for it at present; none has been tried yet at first. -/
  current : Option (Fin g.rows)
  /-- The rows that were tried before, latest first. They stay out of all lists until the level is
      left, so that no set of rows is visited twice. -/
  tried : List (Fin g.rows)
deriving DecidableEq, Repr

/-- What a search does next. -/
inductive Phase where
  /-- Enter a new level, or find that the selected rows are a solution. -/
  | choose
  /-- Go on to the next row of the deepest level, or leave the level. -/
  | advance
  /-- Nothing: the whole tree has been explored. -/
  | exhausted
deriving DecidableEq, Repr

/-- A search in progress, together with what its listener knows. It goes depth first, one column at
    a time, and changes the row lists of the columns in place and back again. It can stop after
    every solution and go on later. -/
structure Search (g : Grid) (σ : Type) where
  links : Links g
  /-- The levels of the search tree, deepest first. -/
  frames : List (Frame g)
  /-- The rows of the partial solution, latest first. -/
  selected : List (Fin g.rows)
  phase : Phase
  statistics : Statistics
  observed : σ
deriving DecidableEq, Repr

namespace Search

variable {g : Grid} {σ : Type}

/-- A search of the whole grid, before its first step. -/
def start (g : Grid) (observed : σ) : Search g σ where
  links := .initial g
  frames := []
  selected := []
  phase := .choose
  statistics := {}
  observed := observed

/-- The number of rows in the partial solution. -/
def depth (s : Search g σ) : Nat := s.selected.length

/-- Whether the whole search tree has been explored. -/
def isExhausted (s : Search g σ) : Bool := s.phase == .exhausted

/-- The rows of the partial solution in the order they were selected. -/
def selection (s : Search g σ) : List (Fin g.rows) := s.selected.reverse

variable (listener : Listener (Fin g.columns) (Fin g.rows) σ)

/-- Hands an event to the listener. -/
def notify (e : Event (Fin g.columns) (Fin g.rows)) (s : Search g σ) : Search g σ :=
  { s with observed := listener.handle e s.observed }

/-- Hands a remark to the listener. -/
def remark (r : Remark) (s : Search g σ) : Search g σ :=
  { s with observed := listener.remark r s.observed }

/-- Takes cells out of their lists, in the order given. -/
def removeCells (cells : List g.Cell) (s : Search g σ) : Search g σ :=
  cells.foldl
    (fun s cell =>
      { s with links := s.links.removeCell cell }.notify listener (.remove cell.1 cell.2)) s

/-- Puts cells back into their lists, in the order given. -/
def restoreCells (cells : List g.Cell) (s : Search g σ) : Search g σ :=
  cells.foldl
    (fun s cell =>
      { s with links := s.links.restoreCell cell }.notify listener (.restore cell.1 cell.2)) s

/-- Takes a row out of the lists of all its columns. -/
def withdraw (row : Fin g.rows) (s : Search g σ) : Search g σ :=
  s.removeCells listener (g.rowCells row)

/-- Puts a row back into the lists of all its columns, in the opposite order. -/
def reinstate (row : Fin g.rows) (s : Search g σ) : Search g σ :=
  s.restoreCells listener (g.rowCells row).reverse

/-- Ends the activity of a column and hides the rows in its list from all other columns. -/
def cover (column : Fin g.columns) (s : Search g σ) : Search g σ :=
  { s with links.active := s.links.active.remove column }.removeCells listener
    (s.links.cellsHidden column)

/-- Undoes the last covering, in the opposite order. -/
def uncover (column : Fin g.columns) (s : Search g σ) : Search g σ :=
  let s := s.restoreCells listener (s.links.cellsRevealed column)
  { s with links.active := s.links.active.restore column }

/-- Takes an amount from what a column has to receive. A column whose target is reached or passed
    is covered. -/
def charge (entry : Fin g.columns × Amount) (s : Search g σ) : Search g σ :=
  let s := { s with links := s.links.addRemaining entry.1 (-(entry.2.toNat : Int)) }
  if s.links.due entry.1 ≤ 0 then s.cover listener entry.1 else s

/-- Undoes a charge: the column was covered by it just if nothing is left to receive. -/
def refund (entry : Fin g.columns × Amount) (s : Search g σ) : Search g σ :=
  let s := if s.links.due entry.1 ≤ 0 then s.uncover listener entry.1 else s
  { s with links := s.links.addRemaining entry.1 (entry.2.toNat : Int) }

/-- Adds a row to the partial solution: withdraws it and charges its columns in ascending order. -/
def select (row : Fin g.rows) (s : Search g σ) : Search g σ :=
  let s := { s with
    selected := row :: s.selected
    statistics := s.statistics.addSelection (s.depth + 1) }
  let s := (s.notify listener (.select row)).withdraw listener row
  (g.cover row).foldl (fun s entry => s.charge listener entry) s

/-- Takes the row selected last off the partial solution: refunds its columns in descending order.
    The row itself stays withdrawn. -/
def deselect (row : Fin g.rows) (s : Search g σ) : Search g σ :=
  let s := (g.cover row).reverse.foldl (fun s entry => s.refund listener entry) s
  { s with selected := s.selected.tail }.notify listener (.deselect row)

/-- Whether no column of a row has gone past its target. -/
def fits (s : Search g σ) (row : Fin g.rows) : Bool :=
  (g.cover row).all fun entry => 0 ≤ s.links.due entry.1

/-- Selects a row at the deepest level. A row that does not fit is given up at the next step. -/
def tryRow (frame : Frame g) (outer : List (Frame g)) (row : Fin g.rows) (s : Search g σ) :
    Search g σ :=
  let s := { s with frames := { frame with current := some row } :: outer }.select listener row
  if s.fits row then { s with phase := .choose }
  else
    { s with statistics.overshoots := s.statistics.overshoots + 1 }.remark listener
      (.overshoot s.depth)

/-- Leaves the deepest level and reinstates the rows tried at it, latest first. -/
def leave (frame : Frame g) (outer : List (Frame g)) (s : Search g σ) : Search g σ :=
  frame.tried.foldl (fun s row => s.reinstate listener row) { s with frames := outer }

/-- Goes on to the given row of a level, or leaves the level if there is none. -/
def proceed (frame : Frame g) (outer : List (Frame g)) (row : Option (Fin g.rows))
    (s : Search g σ) : Search g σ :=
  match row with
  | some row => s.tryRow listener frame outer row
  | none => s.leave listener frame outer

/-- One step back: the row selected at the deepest level is deselected and the next row takes its
    turn. The deselected row is withdrawn but has kept its links, and these lead to the next row. -/
def advance (s : Search g σ) : Search g σ :=
  match s.frames with
  | [] => { s with phase := .exhausted }.remark listener (.exhausted s.statistics)
  | frame :: outer =>
    match frame.current with
    | none => s.proceed listener frame outer (s.links.rows frame.column).first
    | some row =>
      let s := s.deselect listener row
      s.proceed listener { frame with tried := row :: frame.tried } outer
        ((s.links.rows frame.column).after row)

/-- One step forward: a new level is entered, or the selected rows are found to be a solution. -/
def choose (s : Search g σ) : Option (List (Fin g.rows)) × Search g σ :=
  let s := { s with
    phase := .advance
    statistics.nodes := s.statistics.nodes + 1 }
  match s.links.bestColumn with
  | some column => (none, { s with frames := ⟨column, none, []⟩ :: s.frames })
  | none =>
    let s := { s with statistics.solutions := s.statistics.solutions + 1 }
    (some s.selection, (s.remark listener (.solutionFound s.depth)).notify listener
      (.solution s.selection))

/-- One step of the search, with the solution that it finds, if any. -/
def step (s : Search g σ) : Option (List (Fin g.rows)) × Search g σ :=
  match s.phase with
  | .choose => s.choose listener
  | .advance => (none, s.advance listener)
  | .exhausted => (none, s)

/-- Steps until a solution is found or the search is over, at most `limit` steps. -/
def nextWithin : (limit : Nat) → Search g σ → Option (List (Fin g.rows)) × Search g σ
  | 0, s => (none, s)
  | limit + 1, s =>
    if s.isExhausted then (none, s)
    else
      match s.step listener with
      | (some rows, s) => (some rows, s)
      | (none, s) => nextWithin limit s

/-- The next solution, as long as there is one. A search visits no set of rows twice, so it enters
    at most `2 ^ rows` nodes; each is entered and left once and selected at most once, and one
    step finds that the search is over. -/
def next (s : Search g σ) : Option (List (Fin g.rows)) × Search g σ :=
  s.nextWithin listener (3 * g.rowSets + 1)

end Search

end ExactCover
