import ExactCover.Problem.Basic

namespace ExactCover.Problem

variable {C R : Type} [Ord C] [Ord R]

/-- What a column receives from a list of rows. -/
def received (p : Problem C R) (rows : List R) (column : C) : Nat :=
  rows.foldr (fun row n => ((p.amount? row column).getD 0).toNat + n) 0

/-- Whether rows, each of them listed once, give every column exactly its target. -/
structure IsSolution (p : Problem C R) (rows : List R) : Prop where
  nodup : rows.Nodup
  mem : ∀ row ∈ rows, row ∈ p.rows.keys
  received_eq : ∀ entry ∈ p.targets.entries, p.received rows entry.1 = entry.2.toNat

end ExactCover.Problem
