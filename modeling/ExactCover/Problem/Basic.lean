import ExactCover.SortedMap
import ExactCover.SortedSet
import ExactCover.Problem.Error

namespace ExactCover

/-- Targets and amounts: numbers below `2 ^ 32`. -/
abbrev Amount := UInt32

/-- What a row gives to each column it covers. -/
abbrev Cover (C : Type) := SortedMap C Amount

/-- A generalized exact cover problem. A solution is a set of rows whose amounts add up to exactly
    the target of every column; with all targets and amounts 1 this is the classical problem. The
    order of columns and of rows decides in which order a search breaks ties and visits rows. -/
structure Problem (C R : Type) where
  /-- The universe of columns, each with its target. -/
  targets : SortedMap C Amount
  /-- The rows, each with the columns it covers. -/
  rows : SortedMap R (Cover C)
deriving DecidableEq, Repr

namespace Problem

variable {C R : Type}

/-- The columns of the universe, in ascending order. -/
def columns (p : Problem C R) : List C := p.targets.keys

/-- The number of rows. -/
def rowCount (p : Problem C R) : Nat := p.rows.size

/-- The number of pairs of a row and a column that it covers. -/
def incidenceCount (p : Problem C R) : Nat :=
  p.rows.entries.foldl (fun n (_, cover) => n + cover.size) 0

variable [Ord C] [Ord R]

/-- The pairs of a column and a row that covers it. -/
def incidences (p : Problem C R) : SortedSet (C × R) :=
  .ofList (p.rows.entries.flatMap fun (row, cover) => cover.keys.map fun column => (column, row))

/-- The targets as integers: what each column has to receive before anything is selected. -/
def demand (p : Problem C R) : SortedMap C Int :=
  p.targets.mapValues fun target => (target.toNat : Int)

/-- The target of a column of the universe. -/
def target? (p : Problem C R) (column : C) : Option Amount := p.targets.get? column

/-- What a row of the problem covers. -/
def row? (p : Problem C R) (row : R) : Option (Cover C) := p.rows.get? row

/-- What a row gives to a column that it covers. -/
def amount? (p : Problem C R) (row : R) (column : C) : Option Amount :=
  (p.row? row).bind fun cover => cover.get? column

/-- The problem over a universe of columns, given in any order, in which every target is 1 and
    there are no rows. Of several columns that occur twice the smallest is reported. -/
def ofColumns (columns : List C) : Except (Error C R) (Problem C R) :=
  let counts := SortedMap.tally columns
  match counts.entries.find? fun (_, n) => 1 < n with
  | some (column, _) => .error (.duplicateColumn column)
  | none => .ok ⟨counts.mapValues fun _ => 1, ∅⟩

/-- Gives a column a new target, which has to be positive. -/
def setTarget (p : Problem C R) (column : C) (target : Amount) :
    Except (Error C R) (Problem C R) :=
  if !p.targets.contains column then .error (.unknownColumn column)
  else if target = 0 then .error (.zeroTarget column)
  else .ok { p with targets := p.targets.insert column target }

/-- Adds one listed amount to the cover of a row. A column may be listed repeatedly as long as the
    sum of its amounts is below `2 ^ 32`. -/
def extendCover (p : Problem C R) (row : R) (cover : Cover C) (entry : C × Amount) :
    Except (Error C R) (Cover C) :=
  let (column, amount) := entry
  if !p.targets.contains column then .error (.unknownColumn column)
  else if amount = 0 then .error (.zeroAmount row column)
  else
    let total := (cover.get? column).getD 0
    if total.toNat + amount.toNat < UInt32.size then .ok (cover.insert column (total + amount))
    else .error (.amountOverflow row column)

/-- Adds a row that gives the listed amounts to the listed columns. The first entry at fault is
    reported; that no column is listed at all is found last. -/
def addRow (p : Problem C R) (row : R) (entries : List (C × Amount)) :
    Except (Error C R) (Problem C R) := do
  if p.rows.contains row then throw (.duplicateRow row)
  let cover ← entries.foldlM (p.extendCover row) ∅
  if cover.isEmpty then throw (.emptyRow row)
  return { p with rows := p.rows.insert row cover }

/-- Adds a row that gives 1 to a column for each time it is listed. -/
def addUnitRow (p : Problem C R) (row : R) (columns : List C) : Except (Error C R) (Problem C R) :=
  p.addRow row (columns.map fun column => (column, 1))

end Problem

end ExactCover
