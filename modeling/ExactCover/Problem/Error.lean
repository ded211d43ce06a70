import ExactCover.Label

namespace ExactCover

/-- Why a problem was refused. The search itself cannot fail, so these are all the causes. -/
inductive Problem.Error (C R : Type) where
  /-- The column is listed more than once in the universe. -/
  | duplicateColumn (column : C)
  /-- A target or a row names a column outside the universe. -/
  | unknownColumn (column : C)
  /-- The row is in the problem already. -/
  | duplicateRow (row : R)
  /-- The row covers no column. -/
  | emptyRow (row : R)
  /-- The column was given the target zero. -/
  | zeroTarget (column : C)
  /-- The row gives the amount zero to the column. -/
  | zeroAmount (row : R) (column : C)
  /-- What the row gives to the column in all does not fit an amount. -/
  | amountOverflow (row : R) (column : C)
deriving DecidableEq, Repr

/-- The message for an error, in which labels are shown in their quoted form. -/
def Problem.Error.message {C R : Type} [Label C] [Label R] : Problem.Error C R → String
  | duplicateColumn c => "column " ++ Label.shown c ++ " appears more than once in the universe"
  | unknownColumn c => "column " ++ Label.shown c ++ " is not in the universe"
  | duplicateRow r => "row " ++ Label.shown r ++ " is already in the problem"
  | emptyRow r => "row " ++ Label.shown r ++ " must cover at least one column"
  | zeroTarget c => "column " ++ Label.shown c ++ " must have a positive target"
  | zeroAmount r c =>
    "row " ++ Label.shown r ++ " must contribute a positive amount to column " ++ Label.shown c
  | amountOverflow r c =>
    "amount of row " ++ Label.shown r ++ " in column " ++ Label.shown c ++ " overflows"

end ExactCover
