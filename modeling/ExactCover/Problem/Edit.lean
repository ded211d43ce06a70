import ExactCover.Problem.Basic

namespace ExactCover.Problem

/-- One change to a problem. -/
inductive Edit (C R : Type) where
  | setTarget (column : C) (target : Amount)
  | addRow (row : R) (entries : List (C × Amount))
  | addUnitRow (row : R) (columns : List C)
deriving DecidableEq, Repr

variable {C R : Type} [Ord C] [Ord R]

/-- The problem after an edit, or why the edit is refused. -/
def edit (p : Problem C R) : Edit C R → Except (Error C R) (Problem C R)
  | .setTarget column target => p.setTarget column target
  | .addRow row entries => p.addRow row entries
  | .addUnitRow row columns => p.addUnitRow row columns

/-- The problem after an attempt at an edit. A refused edit changes nothing. -/
def attempt (p : Problem C R) (e : Edit C R) : Problem C R :=
  match p.edit e with
  | .ok q => q
  | .error _ => p

/-- A change to a problem in place. One that is given up leaves the problem as it has made it so
    far. -/
abbrev InPlace (C R α : Type) [Ord C] [Ord R] := EStateM (Error C R) (Problem C R) α

namespace InPlace

/-- The problem after a change, whether it was made or given up. -/
def after {α : Type} (change : InPlace C R α) (p : Problem C R) : Problem C R :=
  match change.run p with
  | .ok _ q => q
  | .error _ q => q

/-- Gives a column a new target. -/
def setTarget (column : C) (target : Amount) : InPlace C R Unit := do
  let p ← get
  if !p.targets.contains column then throw (.unknownColumn column)
  if target = 0 then throw (.zeroTarget column)
  set { p with targets := p.targets.insert column target }

/-- Adds one listed amount to the cover of a row that is not part of the problem yet. -/
def extendCover (row : R) (cover : Cover C) (entry : C × Amount) : InPlace C R (Cover C) := do
  let (column, amount) := entry
  let p ← get
  if !p.targets.contains column then throw (.unknownColumn column)
  if amount = 0 then throw (.zeroAmount row column)
  let total := (cover.get? column).getD 0
  if UInt32.size ≤ total.toNat + amount.toNat then throw (.amountOverflow row column)
  return cover.insert column (total + amount)

/-- Adds a row that gives the listed amounts to the listed columns. -/
def addRow (row : R) (entries : List (C × Amount)) : InPlace C R Unit := do
  let p ← get
  if p.rows.contains row then throw (.duplicateRow row)
  let cover ← entries.foldlM (extendCover row) ∅
  if cover.isEmpty then throw (.emptyRow row)
  modify fun p => { p with rows := p.rows.insert row cover }

/-- Adds a row that gives 1 to a column for each time it is listed. -/
def addUnitRow (row : R) (columns : List C) : InPlace C R Unit :=
  addRow row (columns.map fun column => (column, 1))

/-- Makes an edit. -/
def edit : Edit C R → InPlace C R Unit
  | .setTarget column target => setTarget column target
  | .addRow row entries => addRow row entries
  | .addUnitRow row columns => addUnitRow row columns

end InPlace

end ExactCover.Problem
