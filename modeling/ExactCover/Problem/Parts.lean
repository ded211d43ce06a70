import ExactCover.Problem.Basic

namespace ExactCover

/-- The four fields that describe a problem, the shape in which problems are typed in and shared. -/
structure Parts (C R : Type) where
  /-- The universe, in any order. -/
  columns : List C
  /-- Every row with the columns it covers. A column counts as often as it is listed, unless
      `amounts` has an entry for it. -/
  rows : List (R × List C)
  /-- Targets; a column without an entry has target 1. -/
  targets : List (C × Amount)
  /-- Amounts of rows. They replace the count of a column in `rows`. -/
  amounts : List (R × List (C × Amount))
deriving DecidableEq, Repr

namespace Problem

variable {C R : Type}

/-- The parts of a problem. Every target and every amount is listed. -/
def toParts (p : Problem C R) : Parts C R where
  columns := p.columns
  rows := p.rows.entries.map fun (row, cover) => (row, cover.keys)
  targets := p.targets.entries
  amounts := p.rows.entries.map fun (row, cover) => (row, cover.entries)

variable [Ord C] [Ord R]

/-- The entries of a row in ascending order of columns. A column with a given amount has one entry
    however often it is listed, any other column has an entry with amount 1 for each listing. -/
def entriesOf (given : Cover C) (listed : List C) : List (C × Amount) :=
  (SortedMap.tally listed).entries.flatMap fun (column, count) =>
    match given.get? column with
    | some amount => [(column, amount)]
    | none => List.replicate count (column, 1)

/-- Adds one more listed column to the entries of a row. A column with a given amount is passed over
    if the last entry is that of the same column; repetitions of any other column add up later. -/
def pushEntry [DecidableEq C] (given : Cover C) (entries : List (C × Amount)) (column : C) :
    List (C × Amount) :=
  match given.get? column with
  | some amount =>
    if entries.getLast?.any fun last => last.1 = column then entries
    else entries ++ [(column, amount)]
  | none => entries ++ [(column, 1)]

/-- The entries of a row as one walk along its listed columns, sorted first. It finds the entries
    that `entriesOf` tells column by column. -/
def pushEntries [DecidableEq C] (given : Cover C) (listed : List C) : List (C × Amount) :=
  (listed.mergeSort fun c d => (compare c d).isLE).foldl (pushEntry given) []

/-- The problem that parts describe: first the universe, then the targets, then the rows, each in
    the order listed. Of several amounts of a row and a column the last one counts, where a later
    entry of a row takes the place of an earlier one altogether. Amounts that belong to no listed
    column of a row are ignored. -/
def ofParts (parts : Parts C R) : Except (Error C R) (Problem C R) := do
  let blank ← ofColumns parts.columns
  let withTargets ← parts.targets.foldlM (fun p (column, n) => p.setTarget column n) blank
  let given := SortedMap.ofList
    (parts.amounts.map fun (row, cover) => (row, SortedMap.ofList cover))
  parts.rows.foldlM
    (fun p (row, listed) => p.addRow row (entriesOf ((given.get? row).getD ∅) listed)) withTargets

end Problem

end ExactCover
