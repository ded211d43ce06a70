import ExactCover.Links
import Mathlib.Algebra.BigOperators.Group.Finset.Basic
import Mathlib.Algebra.GroupWithZero.Nat
import Mathlib.Data.List.FinRange
import Mathlib.Data.Fintype.Basic

namespace ExactCover.Grid

variable {g : Grid}

/-- The columns a row covers, in ascending order. -/
def columnsOf (g : Grid) (row : Fin g.rows) : List (Fin g.columns) := (g.cover row).map (·.1)

/-- What the rows of a solution give to a column. -/
def target (g : Grid) (column : Fin g.columns) : Nat := (g.targets.get column).toNat

/-- What a cover gives to a column. -/
def given {n : Nat} (cover : List (Fin n × Amount)) (column : Fin n) : Nat :=
  (cover.find? fun entry => entry.1 = column).elim 0 fun entry => entry.2.toNat

/-- What a row gives to a column; nothing to a column that it does not cover. -/
def amount (g : Grid) (row : Fin g.rows) (column : Fin g.columns) : Nat :=
  given (g.cover row) column

/-- What a column receives from some rows. -/
def received (g : Grid) (rows : List (Fin g.rows)) (column : Fin g.columns) : Nat :=
  (rows.map fun row => g.amount row column).sum

/-- Rows cover columns in ascending order. -/
def Ascending (g : Grid) : Prop := ∀ row, (g.columnsOf row).Pairwise (· < ·)

/-- Rows cover columns in ascending order, and targets and amounts are positive. -/
structure WellFormed (g : Grid) : Prop where
  target_pos : ∀ column : Fin g.columns, 0 < g.target column
  cover_ne_nil : ∀ row, g.cover row ≠ []
  columns_ascending : ∀ row, (g.columnsOf row).Pairwise (· < ·)
  amount_pos : ∀ row, ∀ entry ∈ g.cover row, 0 < entry.2.toNat

@[simp]
theorem given_nil {n : Nat} (column : Fin n) : given [] column = 0 := rfl

theorem given_cons {n : Nat} (entry : Fin n × Amount) (cover : List (Fin n × Amount))
    (column : Fin n) : given (entry :: cover) column =
      if entry.1 = column then entry.2.toNat else given cover column := by
  by_cases h : entry.1 = column <;> simp [given, h]

theorem given_eq_zero {n : Nat} {cover : List (Fin n × Amount)} {column : Fin n}
    (h : column ∉ cover.map (·.1)) : given cover column = 0 := by
  induction cover with
  | nil => rfl
  | cons entry cover ih =>
    rw [List.map_cons, List.mem_cons, not_or] at h
    rw [given_cons, if_neg (Ne.symm h.1), ih h.2]

/-- Entries of different columns that are taken from what the columns are to receive, one after the
    other, take what they give to each of them. -/
theorem due_foldl {n : Nat} {α : Type} {due : α → Fin n → Int} {f : α → Fin n × Amount → α}
    (hf : ∀ s entry, due (f s entry) =
      Function.update (due s) entry.1 (due s entry.1 - entry.2.toNat)) (s : α)
    {cover : List (Fin n × Amount)} (hnodup : (cover.map (·.1)).Nodup) (column : Fin n) :
    due (cover.foldl f s) column = due s column - given cover column := by
  induction cover generalizing s with
  | nil => simp
  | cons entry rest ih =>
    obtain ⟨hhead, hrest⟩ := List.nodup_cons.mp hnodup
    rw [List.foldl_cons, ih (f s entry) hrest, given_cons, hf]
    by_cases heq : entry.1 = column
    · subst heq
      rw [given_eq_zero hhead, if_pos rfl, Int.natCast_zero, Int.sub_zero, Function.update_self]
    · rw [if_neg heq, Function.update_of_ne (Ne.symm heq)]

@[simp]
theorem received_nil (column : Fin g.columns) : g.received [] column = 0 := rfl

@[simp]
theorem received_cons (row : Fin g.rows) (rows : List (Fin g.rows)) (column : Fin g.columns) :
    g.received (row :: rows) column = g.amount row column + g.received rows column := by
  simp [received]

theorem mem_rowsOf {row : Fin g.rows} {column : Fin g.columns} :
    row ∈ g.rowsOf column ↔ column ∈ g.columnsOf row := by
  simp [rowsOf, columnsOf]

theorem mem_rowCells {row : Fin g.rows} {cell : g.Cell} :
    cell ∈ g.rowCells row ↔ cell.1 ∈ g.columnsOf row ∧ cell.2 = row := by
  obtain ⟨column, row'⟩ := cell
  simp only [rowCells, columnsOf, List.mem_map, Prod.mk.injEq]
  constructor
  · rintro ⟨entry, hentry, hcolumn, rfl⟩
    exact ⟨⟨entry, hentry, hcolumn⟩, rfl⟩
  · rintro ⟨⟨entry, hentry, hcolumn⟩, rfl⟩
    exact ⟨entry, hentry, hcolumn, rfl⟩

theorem WellFormed.ascending (h : g.WellFormed) : g.Ascending := h.columns_ascending

theorem Ascending.columns_nodup (h : g.Ascending) (row : Fin g.rows) :
    (g.columnsOf row).Nodup := (h row).imp ne_of_lt

theorem WellFormed.columns_nodup (h : g.WellFormed) (row : Fin g.rows) :
    (g.columnsOf row).Nodup := h.ascending.columns_nodup row

theorem Ascending.rowCells_nodup (h : g.Ascending) (row : Fin g.rows) :
    (g.rowCells row).Nodup := by
  refine List.Nodup.of_map Prod.fst ?_
  simpa [rowCells, columnsOf, Function.comp_def] using h.columns_nodup row

theorem amount_eq_zero {row : Fin g.rows} {column : Fin g.columns}
    (h : column ∉ g.columnsOf row) : g.amount row column = 0 := given_eq_zero h

theorem WellFormed.amount_of_mem (h : g.WellFormed) {row : Fin g.rows}
    {entry : Fin g.columns × Amount} (hentry : entry ∈ g.cover row) :
    g.amount row entry.1 = entry.2.toNat := by
  have hfind : (g.cover row).find? (fun e => e.1 = entry.1) = some entry := by
    cases hfound : (g.cover row).find? (fun e => e.1 = entry.1) with
    | none =>
      rw [List.find?_eq_none] at hfound
      simpa using hfound entry hentry
    | some found =>
      have hkey : found.1 = entry.1 := by simpa using List.find?_some hfound
      have hmem := List.mem_of_find?_eq_some hfound
      rw [List.inj_on_of_nodup_map (h.columns_nodup row) hmem hentry hkey]
  rw [amount, given, hfind]
  rfl

theorem WellFormed.amount_pos_iff (h : g.WellFormed) {row : Fin g.rows} {column : Fin g.columns} :
    0 < g.amount row column ↔ column ∈ g.columnsOf row := by
  constructor
  · intro hpos
    by_contra hmem
    rw [amount_eq_zero hmem] at hpos
    omega
  · intro hmem
    obtain ⟨entry, hentry, rfl⟩ := List.mem_map.mp hmem
    rw [h.amount_of_mem hentry]
    exact h.amount_pos row entry hentry

end ExactCover.Grid
