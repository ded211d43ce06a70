import ExactCover.Event
import ExactCover.Problem.Basic

namespace ExactCover

/-- What is left of a problem at a node of the search tree, in plain sets. Nothing is changed in
    place here, so the recursion over these says what a search is to do, beside the linked lists
    that say how. -/
structure Remainder (C R : Type) where
  /-- The pairs of a column and a row that still covers it. -/
  covering : SortedSet (C × R)
  /-- What each column still has to receive. -/
  due : SortedMap C Int

namespace Remainder

variable {C R : Type}

/-- The columns that still have to receive something, in ascending order. -/
def activeColumns (s : Remainder C R) : List C :=
  (s.due.entries.filter fun (_, n) => 0 < n).map (·.1)

variable [DecidableEq C]

/-- The rows that still cover a column, in ascending order. -/
def rows (s : Remainder C R) (column : C) : List R :=
  (s.covering.elements.filter fun (c, _) => c = column).map (·.2)

/-- The active column that the fewest rows cover, the smallest of them where several do. -/
def bestColumn (s : Remainder C R) : Option C :=
  s.activeColumns.minOn? fun column => (s.rows column).length

variable [Ord C] [Ord R]

/-- Takes pairs out of the covering. -/
def eraseAll (s : Remainder C R) (pairs : List (C × R)) : Remainder C R :=
  { s with covering := pairs.foldl .erase s.covering }

end Remainder

namespace Problem

variable {C R : Type} [Ord C] [Ord R] [DecidableEq C]

/-- What a row gives to its columns, in ascending order of columns. -/
def amountsOf (p : Problem C R) (row : R) : List (C × Amount) := ((p.row? row).getD ∅).entries

/-- The pairs of a row with its columns, in ascending order of columns. -/
def pairsOf (p : Problem C R) (row : R) : List (C × R) :=
  (p.amountsOf row).map fun (column, _) => (column, row)

/-- Takes an amount from what a column has to receive. If nothing is left, the rows that cover the
    column lose all their other columns. Returns the pairs lost too, after those lost before. -/
def charge (p : Problem C R) (state : Remainder C R × List (C × R)) (entry : C × Amount) :
    Remainder C R × List (C × R) :=
  let (s, lost) := state
  let (column, amount) := entry
  let s := { s with due := s.due.modify column (· - (amount.toNat : Int)) }
  if (s.due.get? column).getD 0 ≤ 0 then
    let pairs := (s.rows column).flatMap fun row =>
      (p.pairsOf row).filter fun pair => pair.1 ≠ column
    (s.eraseAll pairs, lost ++ pairs)
  else (s, lost)

/-- The events from the selection of a row to its deselection. Deeper events occur only if no column
    of the row went past its target. -/
def branch (p : Problem C R) (deeper : Remainder C R → List R → List (Event C R))
    (s : Remainder C R) (selection : List R) (row : R) : List (Event C R) :=
  let own := p.pairsOf row
  let (inner, lost) := (p.amountsOf row).foldl p.charge (s.eraseAll own, [])
  let fits := own.all fun (column, _) => 0 ≤ (inner.due.get? column).getD 0
  .select row :: (own ++ lost).map (fun (column, row) => .remove column row)
    ++ (if fits then deeper inner (selection ++ [row]) else [])
    ++ lost.reverse.map (fun (column, row) => .restore column row) ++ [.deselect row]

/-- The events of trying rows one after the other. A row that was tried stays out. -/
def tries (p : Problem C R) (deeper : Remainder C R → List R → List (Event C R))
    (selection : List R) : Remainder C R → List R → List (Event C R)
  | _, [] => []
  | s, row :: rest =>
    p.branch deeper s selection row ++ tries p deeper selection (s.eraseAll (p.pairsOf row)) rest

/-- The events from a node of the search tree on, down to a number of levels. At the end of a level
    the rows tried at it come back, latest first. -/
def explore (p : Problem C R) : (levels : Nat) → Remainder C R → List R → List (Event C R)
  | 0, _, _ => []
  | levels + 1, s, selection =>
    match s.bestColumn with
    | none => [.solution selection]
    | some column =>
      let rows := s.rows column
      p.tries (explore p levels) selection s rows
        ++ rows.reverse.flatMap fun row =>
          (p.pairsOf row).reverse.map fun (column, row) => .restore column row

/-- The events of a complete search. Each level takes a row out, so there is at most one more level
    than there are rows. -/
def exploration (p : Problem C R) : List (Event C R) :=
  p.explore (p.rowCount + 1) ⟨p.incidences, p.demand⟩ []

end Problem

end ExactCover
