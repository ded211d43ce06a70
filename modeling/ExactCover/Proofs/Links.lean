import ExactCover.Proofs.Chain
import ExactCover.Proofs.Stage

namespace ExactCover.Links

variable {g : Grid}

/-- Takes cells out of their lists, in the order given. -/
def removeAll (l : Links g) (cells : List g.Cell) : Links g := cells.foldl removeCell l

/-- Puts cells back into their lists, in the order given. -/
def restoreAll (l : Links g) (cells : List g.Cell) : Links g := cells.foldl restoreCell l

/-- Takes a row out of the lists of all its columns. -/
def withdraw (l : Links g) (row : Fin g.rows) : Links g := l.removeAll (g.rowCells row)

/-- Puts a row back into the lists of all its columns, in the opposite order. -/
def reinstate (l : Links g) (row : Fin g.rows) : Links g := l.restoreAll (g.rowCells row).reverse

/-- Ends the activity of a column and takes the rows in its list out of all other columns. -/
def cover (l : Links g) (column : Fin g.columns) : Links g :=
  { l with active := l.active.remove column }.removeAll (l.cellsHidden column)

/-- Undoes the last covering. -/
def uncover (l : Links g) (column : Fin g.columns) : Links g :=
  let l := l.restoreAll (l.cellsRevealed column)
  { l with active := l.active.restore column }

/-- Takes an amount from what a column has to receive. -/
def lessen (l : Links g) (entry : Fin g.columns × Amount) : Links g :=
  l.addRemaining entry.1 (-(entry.2.toNat : Int))

/-- Takes an amount from what a column has to receive, and covers a column that has nothing left to
    receive. -/
def charge (l : Links g) (entry : Fin g.columns × Amount) : Links g :=
  if (l.lessen entry).due entry.1 ≤ 0 then (l.lessen entry).cover entry.1 else l.lessen entry

/-- Undoes the last charge. No record is kept of the columns that were covered: a charge covered its
    column just if it left nothing to receive. -/
def refund (l : Links g) (entry : Fin g.columns × Amount) : Links g :=
  let l := if l.due entry.1 ≤ 0 then l.uncover entry.1 else l
  l.addRemaining entry.1 (entry.2.toNat : Int)

/-- Withdraws a row and charges its columns. -/
def select (l : Links g) (row : Fin g.rows) : Links g := (g.cover row).foldl charge (l.withdraw row)

/-- Takes back the charges of a row, last one first. -/
def deselect (l : Links g) (row : Fin g.rows) : Links g := (g.cover row).reverse.foldl refund l

/-- The cells that a charge takes out. -/
def lost (l : Links g) (entry : Fin g.columns × Amount) : List g.Cell :=
  if (l.lessen entry).due entry.1 ≤ 0 then (l.lessen entry).cellsHidden entry.1 else []

/-- The cells that a refund puts back. -/
def revealed (l : Links g) (entry : Fin g.columns × Amount) : List g.Cell :=
  if l.due entry.1 ≤ 0 then l.cellsRevealed entry.1 else []

/-- The lists are those of a stage: the active columns, the rows linked in each column, and what
    each column still has to receive. -/
structure Shows (l : Links g) (s : Stage g) : Prop where
  due : ∀ column, l.due column = s.due column
  active : l.active.Lists s.active
  rows : ∀ column, (l.rows column).Lists (s.rows column)

/-- The lists are in order: each of them links the given elements, the rows in the list of a column
    cover the column, and those in the list of an active column are linked in all their columns. -/
structure Sound (l : Links g) (ys : List (Fin g.columns))
    (xs : Fin g.columns → List (Fin g.rows)) : Prop where
  active : l.active.Lists ys
  rows : ∀ column, (l.rows column).Lists (xs column)
  covers : ∀ column, ∀ row ∈ xs column, column ∈ g.columnsOf row
  linked : ∀ column ∈ ys, ∀ row ∈ xs column, ∀ c ∈ g.columnsOf row, row ∈ xs c

attribute [ext] Links

@[simp]
theorem due_removeCell (l : Links g) (cell : g.Cell) (column : Fin g.columns) :
    (l.removeCell cell).due column = l.due column := rfl

@[simp]
theorem active_removeCell (l : Links g) (cell : g.Cell) :
    (l.removeCell cell).active = l.active := rfl

theorem rows_removeCell (l : Links g) (cell : g.Cell) (column : Fin g.columns) :
    (l.removeCell cell).rows column =
      if cell.1 = column then (l.rows cell.1).remove cell.2 else l.rows column := by
  simp [removeCell, rows, Vector.getElem_set, Fin.ext_iff]

@[simp]
theorem due_removeAll (l : Links g) (cells : List g.Cell) (column : Fin g.columns) :
    (l.removeAll cells).due column = l.due column := by
  induction cells generalizing l with
  | nil => rfl
  | cons cell cells ih => exact ih (l.removeCell cell)

@[simp]
theorem active_removeAll (l : Links g) (cells : List g.Cell) :
    (l.removeAll cells).active = l.active := by
  induction cells generalizing l with
  | nil => rfl
  | cons cell cells ih => exact ih (l.removeCell cell)

/-- The list of a column keeps every link as long as no cell of the column is taken out. -/
theorem rows_removeAll_of_outside {l : Links g} {cells : List g.Cell} {column : Fin g.columns}
    (h : ∀ cell ∈ cells, cell.1 ≠ column) : (l.removeAll cells).rows column = l.rows column := by
  induction cells generalizing l with
  | nil => rfl
  | cons cell cells ih =>
    refine (ih fun other hother => h other (List.mem_cons_of_mem _ hother)).trans ?_
    rw [rows_removeCell, if_neg (h cell List.mem_cons_self)]

theorem restoreAll_append (l : Links g) (cells cells' : List g.Cell) :
    l.restoreAll (cells ++ cells') = (l.restoreAll cells).restoreAll cells' := List.foldl_append

/-- Putting back a cell right after it was taken out restores the lists. -/
theorem restoreCell_removeCell {l : Links g} {cell : g.Cell} {xs : List (Fin g.rows)}
    (h : (l.rows cell.1).Lists xs) (hcell : cell.2 ∈ xs) :
    (l.removeCell cell).restoreCell cell = l := by
  apply Links.ext
  · rfl
  · have hrestore := h.restore_remove hcell
    simp only [restoreCell, rows_removeCell, if_true, hrestore]
    simp [removeCell, rows]
  · rfl

/-- Cells that are linked and taken out one after the other leave the lists without them, and
    putting them back in the opposite order restores the lists. -/
theorem removeAll_spec {l : Links g} {cells : List g.Cell}
    {xs : Fin g.columns → List (Fin g.rows)} (h : ∀ column, (l.rows column).Lists (xs column))
    (hnodup : cells.Nodup) (hcells : ∀ cell ∈ cells, cell.2 ∈ xs cell.1) :
    (∀ column, ((l.removeAll cells).rows column).Lists
      ((xs column).filter fun row => (column, row) ∉ cells)) ∧
      (l.removeAll cells).restoreAll cells.reverse = l := by
  induction cells generalizing l xs with
  | nil => simpa [removeAll, restoreAll] using h
  | cons cell cells ih =>
    obtain ⟨hfresh, hnodup⟩ := List.nodup_cons.mp hnodup
    have hcell := hcells cell List.mem_cons_self
    have hnext : ∀ column, ((l.removeCell cell).rows column).Lists
        ((xs column).filter fun row => (column, row) ≠ cell) := by
      intro column
      rw [rows_removeCell]
      split
      · rename_i heq
        subst heq
        have hremove := (h cell.1).remove_filter hcell
        simpa [Prod.ext_iff] using hremove
      · rename_i hne
        have hall : (xs column).filter (fun row => (column, row) ≠ cell) = xs column := by
          rw [List.filter_eq_self]
          rintro row _
          simpa using fun heq : (column, row) = cell => hne (by rw [← heq])
        rw [hall]
        exact h column
    obtain ⟨hlists, hback⟩ := ih hnext hnodup (fun c hc => by
      rw [List.mem_filter]
      exact ⟨hcells c (List.mem_cons_of_mem _ hc), by simpa using ne_of_mem_of_not_mem hc hfresh⟩)
    refine ⟨fun column => ?_, ?_⟩
    · have hfilter : (xs column).filter (fun row => (column, row) ∉ cell :: cells) =
          ((xs column).filter fun row => (column, row) ≠ cell).filter
            fun row => (column, row) ∉ cells := by
        rw [List.filter_filter]
        refine List.filter_congr fun row _ => ?_
        simp [Bool.and_comm]
      rw [hfilter]
      exact hlists column
    · rw [List.reverse_cons, restoreAll_append]
      change ((l.removeCell cell).removeAll cells |>.restoreAll cells.reverse).restoreCell cell = l
      rw [hback]
      exact restoreCell_removeCell (h cell.1) hcell

/-- The rows linked at a stage, less the cells lost, are those linked at the next stage. -/
theorem rows_filter_of_loses {s t : Stage g} {cells : List g.Cell} (h : s.Loses cells t)
    (column : Fin g.columns) :
    (s.rows column).filter (fun row => (column, row) ∉ cells) = t.rows column := by
  simp only [Stage.rows, List.filter_filter]
  refine List.filter_congr fun row _ => ?_
  simp [h.linked_iff, Bool.and_comm]

theorem shows_initial (hg : g.WellFormed) : (initial g).Shows (.initial g) := by
  refine ⟨fun column => ?_, ?_, fun column => ?_⟩
  · exact Vector.getElem_map _ column.isLt
  · rw [(Stage.settled_initial hg).active_eq]
    simpa [initial, Stage.initial] using Chain.lists_ofList (List.nodup_finRange g.columns)
  · have hrows : (Stage.initial g).rows column = g.rowsOf column := by
      refine List.filter_congr fun row _ => ?_
      rw [Bool.eq_iff_iff, decide_eq_true_iff]
      simp [Stage.Linked, Stage.initial, Stage.hider, Grid.columnsOf]
    have hnodup : (g.rowsOf column).Nodup := (List.nodup_finRange g.rows).filter _
    rw [hrows]
    simpa [initial, rows] using Chain.lists_ofList hnodup

/-- Withdrawing an available row leads to the next stage, and reinstating it leads back, link by
    link. -/
theorem Shows.withdraw (hg : g.WellFormed) {l : Links g} {s : Stage g} (h : l.Shows s)
    {row : Fin g.rows} (hrow : s.Available row) :
    (l.withdraw row).Shows (s.withdraw row) ∧ (l.withdraw row).reinstate row = l := by
  have hloses := Stage.loses_withdraw hg hrow
  obtain ⟨hrows, hback⟩ := removeAll_spec h.rows hloses.nodup fun cell hcell =>
    Stage.mem_rows.mpr (hloses.linked cell hcell)
  refine ⟨⟨fun column => ?_, ?_, fun column => ?_⟩, hback⟩
  · exact (due_removeAll l _ column).trans (h.due column)
  · rw [Links.withdraw, active_removeAll]
    exact h.active
  · rw [← rows_filter_of_loses hloses]
    exact hrows column

/-- Withdrawing a row changes the list of every column of the row, and no other one. -/
theorem rows_withdraw (hg : g.WellFormed) (l : Links g) (row : Fin g.rows)
    (column : Fin g.columns) :
    (l.withdraw row).rows column =
      if column ∈ g.columnsOf row then (l.rows column).remove row else l.rows column := by
  have hcells : g.rowCells row = (g.columnsOf row).map fun c => (c, row) := by
    simp [Grid.rowCells, Grid.columnsOf]
  rw [withdraw, hcells]
  have hnodup := hg.columns_nodup row
  generalize g.columnsOf row = columns at hnodup
  induction columns generalizing l with
  | nil => rfl
  | cons c columns ih =>
    obtain ⟨hfresh, hnodup⟩ := List.nodup_cons.mp hnodup
    rw [List.map_cons, removeAll, List.foldl_cons]
    refine (ih (l.removeCell (c, row)) hnodup).trans ?_
    rw [rows_removeCell]
    by_cases heq : c = column
    · subst heq
      simp [hfresh]
    · simp [heq, Ne.symm heq]

/-- The sizes kept with the lists are those of the stage, so both choose the same column. -/
theorem Shows.bestColumn_eq {l : Links g} {s : Stage g} (h : l.Shows s) :
    l.bestColumn = s.bestColumn := by
  have hsize : (fun column => (l.rows column).size) = fun column => (s.rows column).length :=
    funext fun column => (h.rows column).size_eq
  rw [bestColumn, Stage.bestColumn, h.active.forward_eq, hsize]

theorem mem_cellsHidden {l : Links g} {column : Fin g.columns} {xs : List (Fin g.rows)}
    (h : (l.rows column).Lists xs) {cell : g.Cell} :
    cell ∈ l.cellsHidden column ↔
      cell.2 ∈ xs ∧ cell.1 ∈ g.columnsOf cell.2 ∧ cell.1 ≠ column := by
  rw [cellsHidden, h.forward_eq, List.mem_flatMap]
  constructor
  · rintro ⟨row, hrow, hcell⟩
    obtain ⟨hcolumn, rfl, hne⟩ := Stage.mem_cellsOutside.mp hcell
    exact ⟨hrow, hcolumn, hne⟩
  · rintro ⟨hrow, hcolumn, hne⟩
    exact ⟨cell.2, hrow, Stage.mem_cellsOutside.mpr ⟨hcolumn, rfl, hne⟩⟩

/-- No cell is taken out twice when a column is covered. -/
theorem cellsHidden_nodup (hg : g.Ascending) {l : Links g} {column : Fin g.columns}
    {xs : List (Fin g.rows)} (h : (l.rows column).Lists xs) : (l.cellsHidden column).Nodup := by
  rw [cellsHidden, h.forward_eq]
  exact Stage.cellsOutside_nodup hg column h.nodup

/-- The lists of a stage are in order. -/
theorem Shows.sound {l : Links g} {s : Stage g} (h : l.Shows s) (hs : s.Settled) :
    l.Sound s.active s.rows where
  active := h.active
  rows := h.rows
  covers _ _ hrow := (Stage.mem_rows.mp hrow).1
  linked _ hcolumn _ hrow _ hc :=
    Stage.mem_rows.mpr (((Stage.mem_rows.mp hrow).available (hs.mem_active.mp hcolumn)).linked hc)

section Sound

variable {l : Links g} {ys : List (Fin g.columns)} {xs : Fin g.columns → List (Fin g.rows)}
  {column : Fin g.columns}

/-- Covering an active column takes it out of the active ones and its rows out of their other
    columns, leaves its own list alone, and is undone by uncovering. -/
theorem Sound.cover (hg : g.Ascending) (h : l.Sound ys xs) (hcolumn : column ∈ ys) :
    (l.cover column).Sound (ys.filter fun c => c ≠ column)
        (fun c => (xs c).filter fun row => (c, row) ∉ l.cellsHidden column) ∧
      (l.cover column).cellsRevealed column = (l.cellsHidden column).reverse ∧
      (l.cover column).uncover column = l := by
  have hhidden {cell : g.Cell} : cell ∈ l.cellsHidden column ↔ _ :=
    mem_cellsHidden (h.rows column)
  obtain ⟨hlists, hback⟩ := removeAll_spec (l := { l with active := l.active.remove column })
    h.rows (cellsHidden_nodup hg (h.rows column)) fun cell hcell =>
      h.linked column hcolumn cell.2 (hhidden.mp hcell).1 cell.1 (hhidden.mp hcell).2.1
  -- The column's own list is not touched and tells the rows again, from last to first.
  have hown : (l.cover column).rows column = l.rows column :=
    rows_removeAll_of_outside fun cell hcell => (hhidden.mp hcell).2.2
  have hrevealed : (l.cover column).cellsRevealed column = (l.cellsHidden column).reverse := by
    rw [cellsRevealed, cellsHidden, hown, (h.rows column).forward_eq, (h.rows column).backward_eq,
      List.reverse_flatMap]
    rfl
  refine ⟨⟨?_, hlists, fun c row hrow => ?_, fun c hc row hrow c' hc' => ?_⟩, hrevealed, ?_⟩
  · rw [Links.cover, active_removeAll]
    exact h.active.remove_filter hcolumn
  · exact h.covers c row (List.mem_of_mem_filter hrow)
  · obtain ⟨hc, hne⟩ : c ∈ ys ∧ c ≠ column := by simpa using hc
    obtain ⟨hrow, hkept⟩ : row ∈ xs c ∧ (c, row) ∉ l.cellsHidden column := by simpa using hrow
    -- A row that kept its cell in another active column does not cover the column at all.
    have hother : row ∉ xs column := fun hmem =>
      hkept (hhidden.mpr ⟨hmem, h.covers c row hrow, hne⟩)
    refine List.mem_filter.mpr ⟨h.linked c hc row hrow c' hc', ?_⟩
    simpa using fun hcell => hother (hhidden.mp hcell).1
  · rw [uncover, hrevealed]
    simp only [Links.cover, hback, h.active.restore_remove hcolumn]

/-- Withdrawing a row that is linked in all its columns is undone by reinstating it. -/
theorem Sound.withdraw (hg : g.Ascending) (h : l.Sound ys xs) {row : Fin g.rows}
    (hrow : ∀ c ∈ g.columnsOf row, row ∈ xs c) :
    (l.withdraw row).Sound ys (fun c => (xs c).filter fun r => r ≠ row) ∧
      (l.withdraw row).reinstate row = l := by
  obtain ⟨hlists, hback⟩ := removeAll_spec h.rows (hg.rowCells_nodup row) fun cell hcell => by
    obtain ⟨hc, rfl⟩ := Grid.mem_rowCells.mp hcell
    exact hrow cell.1 hc
  refine ⟨⟨?_, fun c => ?_, fun c r hr => ?_, fun c hc r hr c' hc' => ?_⟩, hback⟩
  · rw [Links.withdraw, active_removeAll]
    exact h.active
  · have hfilter : (xs c).filter (fun r => (c, r) ∉ g.rowCells row) =
        (xs c).filter fun r => r ≠ row := by
      refine List.filter_congr fun r hr => ?_
      have hcovers := h.covers c r hr
      simp only [Grid.mem_rowCells, decide_eq_decide, not_iff_not]
      exact ⟨And.right, fun heq => ⟨heq ▸ hcovers, heq⟩⟩
    rw [← hfilter]
    exact hlists c
  · exact h.covers c r (List.mem_of_mem_filter hr)
  · obtain ⟨hr, hne⟩ := List.mem_filter.mp hr
    exact List.mem_filter.mpr ⟨h.linked c hc r hr c' hc', hne⟩

end Sound

theorem due_addRemaining (l : Links g) (column : Fin g.columns) (n : Int) :
    (l.addRemaining column n).due = Function.update l.due column (l.due column + n) := by
  funext c
  simp [addRemaining, due, Vector.getElem_set, Function.update_apply, Fin.ext_iff, eq_comm]

/-- A charge takes its amount from what its column has to receive, and nothing from other
    columns. -/
theorem due_charge (l : Links g) (entry : Fin g.columns × Amount) :
    (l.charge entry).due = Function.update l.due entry.1 (l.due entry.1 - entry.2.toNat) := by
  have hlessen : (l.lessen entry).due =
      Function.update l.due entry.1 (l.due entry.1 - entry.2.toNat) := due_addRemaining l _ _
  rw [charge]
  split
  · funext column
    rw [cover, due_removeAll, ← hlessen]
    rfl
  · exact hlessen

theorem due_chargeAll (l : Links g) {entries : List (Fin g.columns × Amount)}
    (hnodup : (entries.map (·.1)).Nodup) (column : Fin g.columns) :
    (entries.foldl charge l).due column = l.due column - Grid.given entries column :=
  Grid.due_foldl due_charge l hnodup column

@[simp]
theorem due_withdraw (l : Links g) (row : Fin g.rows) (column : Fin g.columns) :
    (l.withdraw row).due column = l.due column := due_removeAll l _ column

/-- A selection takes from every column what its row gives. -/
theorem due_select (hg : g.WellFormed) (l : Links g) (row : Fin g.rows) (column : Fin g.columns) :
    (l.select row).due column = l.due column - g.amount row column := by
  rw [select, due_chargeAll _ (hg.columns_nodup row), due_withdraw]
  rfl

/-- An amount that is given back cancels the one that was taken. -/
theorem lessen_cancel (l : Links g) (entry : Fin g.columns × Amount) :
    (l.lessen entry).addRemaining entry.1 (entry.2.toNat : Int) = l := by
  apply Links.ext
  · rfl
  · rfl
  · simp [lessen, addRemaining, due]

/-- A refund undoes the charge of an active column, whether or not the charge covers the column. -/
theorem Sound.refund_charge (hg : g.Ascending) {l : Links g} {ys : List (Fin g.columns)}
    {xs : Fin g.columns → List (Fin g.rows)} (h : l.Sound ys xs)
    {entry : Fin g.columns × Amount} (hentry : entry.1 ∈ ys) :
    (l.charge entry).refund entry = l := by
  have hlessen : (l.lessen entry).Sound ys xs := ⟨h.active, h.rows, h.covers, h.linked⟩
  rw [charge, refund]
  by_cases hdue : (l.lessen entry).due entry.1 ≤ 0
  · have hcovered : ((l.lessen entry).cover entry.1).due entry.1 ≤ 0 := by
      rw [Links.cover, due_removeAll]
      exact hdue
    simp only [if_pos hdue, if_pos hcovered, (hlessen.cover hg hentry).2.2]
    exact lessen_cancel l entry
  · simp only [if_neg hdue]
    exact lessen_cancel l entry

section Charge

variable {l : Links g} {s : Stage g} {entry : Fin g.columns × Amount}

theorem Shows.due_lessen (h : l.Shows s) (column : Fin g.columns) :
    (l.lessen entry).due column = (s.charge entry).due column := by
  rw [lessen, due_addRemaining, Stage.charge]
  simp only [Function.update_apply, h.due]
  rfl

theorem Shows.due_lessen_self (h : l.Shows s) :
    (l.lessen entry).due entry.1 = s.due entry.1 - entry.2.toNat := by
  rw [h.due_lessen]
  exact Function.update_self _ _ _

/-- A charge that leaves its column open takes no cells out. -/
theorem Shows.charge_open (hg : g.WellFormed) (h : l.Shows s) (hs : s.Settled)
    (hopen : entry.1 ∉ s.exhausted) (hdue : ¬ s.due entry.1 - entry.2.toNat ≤ 0) :
    l.lost entry = s.lost entry ∧ (l.charge entry).Shows (s.charge entry) ∧
      (l.charge entry).revealed entry = (s.lost entry).reverse := by
  have hself : (l.lessen entry).due entry.1 = s.due entry.1 - entry.2.toNat := h.due_lessen_self
  have hlost : s.lost entry = [] := by rw [Stage.lost, if_neg hdue]
  have hcharge : l.charge entry = l.lessen entry := by rw [Links.charge, hself, if_neg hdue]
  rw [hcharge, hlost]
  refine ⟨by rw [lost, hself, if_neg hdue], ⟨h.due_lessen, ?_, fun column => ?_⟩, ?_⟩
  · have hactive : (s.charge entry).active = s.active := by
      rw [(hs.charge hopen).active_eq, hs.active_eq, Stage.charge]
      simp only [if_neg hdue]
    rw [hactive]
    exact h.active
  · have hrows := rows_filter_of_loses (Stage.loses_charge hg hopen) column
    rw [hlost, List.filter_eq_self.mpr (by simp)] at hrows
    rw [← hrows]
    exact h.rows column
  · rw [revealed, hself, if_neg hdue, List.reverse_nil]

/-- A charge that exhausts its column covers it. -/
theorem Shows.charge_exhausting (hg : g.WellFormed) (h : l.Shows s) (hs : s.Settled)
    (hopen : entry.1 ∉ s.exhausted) (hdue : s.due entry.1 - entry.2.toNat ≤ 0) :
    l.lost entry = s.lost entry ∧ (l.charge entry).Shows (s.charge entry) ∧
      (l.charge entry).revealed entry = (s.lost entry).reverse := by
  have hself : (l.lessen entry).due entry.1 = s.due entry.1 - entry.2.toNat := h.due_lessen_self
  have hcharge : l.charge entry = (l.lessen entry).cover entry.1 := by
    rw [Links.charge, hself, if_pos hdue]
  have hhidden : (l.lessen entry).cellsHidden entry.1 = s.lost entry := by
    rw [cellsHidden, Stage.lost, if_pos hdue]
    exact congrArg (List.flatMap (cellsOutside entry.1)) (h.rows entry.1).forward_eq
  have hlessen : (l.lessen entry).Sound s.active s.rows :=
    ⟨h.active, h.rows, (h.sound hs).covers, (h.sound hs).linked⟩
  obtain ⟨hsound, hrevealed, -⟩ := hlessen.cover hg.ascending (hs.mem_active.mpr hopen)
  have hdueCover : ∀ column,
      ((l.lessen entry).cover entry.1).due column = (s.charge entry).due column := by
    intro column
    rw [← h.due_lessen, cover, due_removeAll]
    rfl
  have hcovered : ((l.lessen entry).cover entry.1).due entry.1 ≤ 0 := by
    rw [hdueCover, ← h.due_lessen, hself]
    exact hdue
  rw [hcharge]
  refine ⟨by rw [lost, hself, if_pos hdue, hhidden], ⟨hdueCover, ?_, fun column => ?_⟩, ?_⟩
  · have hfilter : (s.charge entry).active = s.active.filter fun c => c ≠ entry.1 := by
      rw [(hs.charge hopen).active_eq, hs.active_eq, List.filter_filter, Stage.charge]
      refine List.filter_congr fun column _ => ?_
      simp only [if_pos hdue, List.mem_append, List.mem_singleton, not_or, Bool.decide_and,
        Bool.and_comm, ne_eq]
    rw [hfilter]
    exact hsound.active
  · rw [← rows_filter_of_loses (Stage.loses_charge hg hopen), ← hhidden]
    exact hsound.rows column
  · rw [revealed, if_pos hcovered, hrevealed, hhidden]

/-- What a charge to an open column does: it takes out the cells the stage loses, leads to the next
    stage, and is undone by a refund that puts the cells back in the opposite order. -/
theorem Shows.charge (hg : g.WellFormed) (h : l.Shows s) (hs : s.Settled)
    (hopen : entry.1 ∉ s.exhausted) :
    l.lost entry = s.lost entry ∧ (l.charge entry).Shows (s.charge entry) ∧
      (l.charge entry).revealed entry = (s.lost entry).reverse ∧
      (l.charge entry).refund entry = l := by
  have hback := (h.sound hs).refund_charge hg.ascending (hs.mem_active.mpr hopen)
  by_cases hdue : s.due entry.1 - entry.2.toNat ≤ 0
  · obtain ⟨hlost, hshows, hrevealed⟩ := h.charge_exhausting hg hs hopen hdue
    exact ⟨hlost, hshows, hrevealed, hback⟩
  · obtain ⟨hlost, hshows, hrevealed⟩ := h.charge_open hg hs hopen hdue
    exact ⟨hlost, hshows, hrevealed, hback⟩

end Charge

/-- Charges to different open columns, one after the other, lead from stage to stage. -/
theorem Shows.chargeAll (hg : g.WellFormed) {l : Links g} {s : Stage g} (h : l.Shows s)
    (hs : s.Settled) {entries : List (Fin g.columns × Amount)} (hnodup : (entries.map (·.1)).Nodup)
    (hopen : ∀ e ∈ entries, e.1 ∉ s.exhausted) :
    (entries.foldl Links.charge l).Shows (entries.foldl Stage.charge s) := by
  induction entries generalizing l s with
  | nil => exact h
  | cons entry rest ih =>
    have hentry := hopen entry List.mem_cons_self
    obtain ⟨hrestNodup, hrestOpen⟩ := Stage.open_after_charge hnodup hopen
    exact ih (h.charge hg hs hentry).2.1 (hs.charge hentry) hrestNodup hrestOpen

/-- Selecting an available row leads to the next stage. -/
theorem Shows.select (hg : g.WellFormed) {l : Links g} {s : Stage g} (h : l.Shows s)
    (hs : s.Settled) {row : Fin g.rows} (hrow : s.Available row) :
    (l.select row).Shows (s.select row) :=
  (h.withdraw hg hrow).1.chargeAll hg hs (hg.columns_nodup row) (hrow.open_withdraw)

end ExactCover.Links
