import ExactCover.Proofs.Arena.Updates
import ExactCover.Proofs.Search.Operations

namespace ExactCover

namespace Chain

variable {n : Nat} {l : Chain n} {P : Fin n → Prop} {x : Fin n}

/-- All links lead to elements of one kind, also those of absent elements. -/
def Within (l : Chain n) (P : Fin n → Prop) : Prop :=
  ∀ x y, l.before x = some y ∨ l.after x = some y → P y

theorem Within.linkAfter (h : l.Within P) (front : Option (Fin n)) {back : Option (Fin n)}
    (hback : ∀ y ∈ back, P y) : (l.linkAfter front back).Within P := by
  intro x y
  rw [before_linkAfter, after_linkAfter]
  split
  · rintro (hlink | hlink)
    · exact h x y (.inl hlink)
    · exact hback y hlink
  · exact h x y

theorem Within.linkBefore (h : l.Within P) (back : Option (Fin n)) {front : Option (Fin n)}
    (hfront : ∀ y ∈ front, P y) : (l.linkBefore back front).Within P := by
  intro x y
  rw [before_linkBefore, after_linkBefore]
  split
  · rintro (hlink | hlink)
    · exact hfront y hlink
    · exact h x y (.inr hlink)
  · exact h x y

/-- Taking an element out makes no link lead elsewhere, as its neighbours are linked to each
    other. -/
theorem Within.remove (h : l.Within P) : (l.remove x).Within P := by
  rw [remove_eq]
  exact (h.linkAfter (l.before x) fun y hy => h x y (.inr hy)).linkBefore (l.after x)
    fun y hy => h x y (.inl hy)

theorem Within.restore (h : l.Within P) (hx : P x) : (l.restore x).Within P := by
  have hsome : ∀ y ∈ some x, P y := by
    rintro _ ⟨⟩
    exact hx
  rw [restore_eq]
  exact (h.linkAfter (l.before x) hsome).linkBefore (l.after x) hsome

theorem within_ofList (xs : List (Fin n)) : (ofList xs).Within (· ∈ xs) := by
  suffices h : (ofList xs).Within (· ∈ xs) ∧ ∀ y ∈ (ofList xs).last, y ∈ xs from h.1
  induction xs using List.reverseRecOn with
  | nil =>
    exact ⟨fun x y => by simp [ofList, empty, before, after], fun y => by simp [ofList, empty]⟩
  | append_singleton xs x ih =>
    obtain ⟨hwithin, hlast⟩ := ih
    have hpush : ofList (xs ++ [x]) = (ofList xs).push x := List.foldl_concat _ _ _ _
    have hx : x ∈ xs ++ [x] := List.mem_append_right _ List.mem_cons_self
    rw [hpush]
    refine ⟨fun y z hlink => ?_, fun y hy => ?_⟩
    · rw [before_push, after_push] at hlink
      have hold := fun h => List.mem_append_left [x] (hwithin y z h)
      have hold' := fun h => List.mem_append_left [x] (hlast z h)
      grind
    · cases hy
      exact hx

end Chain

namespace Links

variable {g : Grid} {l : Links g} {cell : g.Cell} {cells : List g.Cell} {column : Fin g.columns}

/-- All links lead to rows that cover the column, also those of absent elements. -/
def Closed (l : Links g) : Prop :=
  ∀ column, (l.rows column).Within fun row => (column, row) ∈ g.cells

/-- Cells that can be taken out one after the other: each belongs to a list that is not empty. -/
def Removable : Links g → List g.Cell → Prop
  | _, [] => True
  | l, cell :: cells =>
    cell ∈ g.cells ∧ 0 < (l.rows cell.1).size ∧ (l.removeCell cell).Removable cells

theorem rows_restoreCell (l : Links g) (cell : g.Cell) (column : Fin g.columns) :
    (l.restoreCell cell).rows column =
      if cell.1 = column then (l.rows cell.1).restore cell.2 else l.rows column := by
  simp [restoreCell, rows, Vector.getElem_set, Fin.ext_iff]

theorem Closed.removeCell (h : l.Closed) (cell : g.Cell) : (l.removeCell cell).Closed := by
  intro column
  rw [rows_removeCell]
  split
  · rename_i heq
    subst heq
    exact (h cell.1).remove
  · exact h column

theorem Closed.restoreCell (h : l.Closed) (hcell : cell ∈ g.cells) :
    (l.restoreCell cell).Closed := by
  intro column
  rw [rows_restoreCell]
  split
  · rename_i heq
    subst heq
    exact (h cell.1).restore hcell
  · exact h column

theorem Closed.removeAll (h : l.Closed) (cells : List g.Cell) : (l.removeAll cells).Closed := by
  induction cells generalizing l with
  | nil => exact h
  | cons cell cells ih => exact ih (h.removeCell cell)

theorem Closed.restoreAll (h : l.Closed) (hcells : ∀ cell ∈ cells, cell ∈ g.cells) :
    (l.restoreAll cells).Closed := by
  induction cells generalizing l with
  | nil => exact h
  | cons cell cells ih =>
    exact ih (h.restoreCell (hcells cell List.mem_cons_self)) fun other hother =>
      hcells other (List.mem_cons_of_mem _ hother)

/-- Cells of other columns leave the list of a column alone. -/
theorem rows_restoreAll_of_outside (h : ∀ cell ∈ cells, cell.1 ≠ column) :
    (l.restoreAll cells).rows column = l.rows column := by
  induction cells generalizing l with
  | nil => rfl
  | cons cell cells ih =>
    refine (ih fun other hother => h other (List.mem_cons_of_mem _ hother)).trans ?_
    rw [rows_restoreCell, if_neg (h cell List.mem_cons_self)]

/-- Cells can be taken out one group after the other just if they can be taken out at once. -/
theorem removable_append {cells' : List g.Cell} :
    l.Removable (cells ++ cells') ↔ l.Removable cells ∧ (l.removeAll cells).Removable cells' := by
  induction cells generalizing l with
  | nil => simp [Removable, removeAll]
  | cons cell cells ih =>
    rw [List.cons_append, Removable, Removable, ih]
    simp only [and_assoc]
    rfl

/-- Cells that are linked can be taken out one after the other. -/
theorem removable_of_lists {xs : Fin g.columns → List (Fin g.rows)}
    (h : ∀ column, (l.rows column).Lists (xs column)) (hnodup : cells.Nodup)
    (hcells : ∀ cell ∈ cells, cell ∈ g.cells ∧ cell.2 ∈ xs cell.1) : l.Removable cells := by
  induction cells using List.reverseRecOn with
  | nil => trivial
  | append_singleton cells cell ih =>
    obtain ⟨hcellsNodup, -, hdisjoint⟩ := List.nodup_append.mp hnodup
    have hbefore : ∀ other ∈ cells, other ∈ g.cells ∧ other.2 ∈ xs other.1 := fun other hother =>
      hcells other (List.mem_append_left _ hother)
    obtain ⟨hgrid, hlinked⟩ := hcells cell (List.mem_append_right _ List.mem_cons_self)
    refine removable_append.mpr ⟨ih hcellsNodup hbefore, hgrid, ?_, trivial⟩
    have hlists := (removeAll_spec h hcellsNodup fun other hother => (hbefore other hother).2).1
    rw [(hlists cell.1).size_eq]
    refine List.length_pos_of_mem (List.mem_filter.mpr ⟨hlinked, ?_⟩)
    simpa using fun hmem => hdisjoint cell hmem cell List.mem_cons_self rfl

theorem covering_set (l : Links g) (column : Fin g.columns) (c : Chain g.rows) :
    l.covering.set column c column.isLt = l.covering.setIfInBounds column c :=
  Vector.ext fun i hi => by rw [Vector.getElem_set, Vector.getElem_setIfInBounds]

/-- Taking a cell out, as the three changes of its list that the tables make. -/
theorem onRows_remove (l : Links g) (cell : g.Cell) :
    ((l.onRows cell.1 (·.linkAfter ((l.rows cell.1).before cell.2)
        ((l.rows cell.1).after cell.2))).onRows cell.1
      (·.linkBefore ((l.rows cell.1).after cell.2) ((l.rows cell.1).before cell.2))).onRows cell.1
        (fun c => { c with size := c.size - 1 }) = l.removeCell cell := by
  rw [onRows_onRows, onRows_onRows, removeCell, covering_set, Chain.remove_eq]
  simp [onRows]

theorem onRows_restore (l : Links g) (cell : g.Cell) :
    ((l.onRows cell.1 (·.linkAfter ((l.rows cell.1).before cell.2) (some cell.2))).onRows cell.1
      (·.linkBefore ((l.rows cell.1).after cell.2) (some cell.2))).onRows cell.1
        (fun c => { c with size := c.size + 1 }) = l.restoreCell cell := by
  rw [onRows_onRows, onRows_onRows, restoreCell, covering_set, Chain.restore_eq]
  simp [onRows]

end Links

namespace Search

variable {g : Grid} {C R σ : Type} {columnAt : Fin g.columns → C} {rowAt : Fin g.rows → R}
  {L : Listener C R σ} {s : Search g σ} {column : Fin g.columns} {row : Fin g.rows}
  {cell : g.Cell} {cells : List g.Cell} {limit : Nat}

/-- Taking out the node of a cell whose list is not empty. -/
theorem removeNode_arena (hg : g.WellFormed) (hclosed : s.links.Closed) (hcell : cell ∈ g.cells)
    (hsize : 0 < (s.links.rows cell.1).size) :
    (s.arena columnAt rowAt).removeNode L (Grid.nodeAt cell) =
      .ok ((s.removeCells (L.rename columnAt rowAt) [cell]).arena columnAt rowAt) := by
  have hlinks := hclosed cell.1 cell.2
  rw [Arena.removeNode, fetch_node_arena s hcell, ok_bind]
  dsimp only [Links.node]
  rw [linkBelow_arena s hg fun r hr => hlinks r (.inl hr), ok_bind,
    linkAbove_arena _ hg fun r hr => hlinks r (.inr hr), ok_bind,
    shrink_arena _ (by simpa [Links.rows_onRows] using hsize), ok_bind, columnLabel_arena, ok_bind,
    rowLabel_arena, ok_bind]
  simp only [Links.onRows_remove]
  rfl

theorem restoreNode_arena (hg : g.WellFormed) (hclosed : s.links.Closed) (hcell : cell ∈ g.cells) :
    (s.arena columnAt rowAt).restoreNode L (Grid.nodeAt cell) =
      .ok ((s.restoreCells (L.rename columnAt rowAt) [cell]).arena columnAt rowAt) := by
  have hlinks := hclosed cell.1 cell.2
  have hself : some (Grid.nodeAt cell) = Links.nodeIn cell.1 (some cell.2) := rfl
  rw [Arena.restoreNode, fetch_node_arena s hcell, ok_bind]
  dsimp only [Links.node]
  rw [hself, linkBelow_arena s hg fun r hr => hlinks r (.inl hr), ok_bind,
    linkAbove_arena _ hg fun r hr => hlinks r (.inr hr), ok_bind, grow_arena, ok_bind,
    columnLabel_arena, ok_bind, rowLabel_arena, ok_bind]
  simp only [Links.onRows_restore]
  rfl

variable (columnAt rowAt) in
/-- Taking out the nodes of removable cells, one after the other. -/
theorem removeNodes_arena (hg : g.WellFormed) (hclosed : s.links.Closed)
    (hcells : s.links.Removable cells) :
    cells.foldlM (fun a cell => a.removeNode L (Grid.nodeAt cell)) (s.arena columnAt rowAt) =
      .ok ((s.removeCells (L.rename columnAt rowAt) cells).arena columnAt rowAt) := by
  induction cells generalizing s with
  | nil => rfl
  | cons cell cells ih =>
    obtain ⟨hcell, hsize, hrest⟩ := hcells
    rw [List.foldlM_cons, removeNode_arena hg hclosed hcell hsize, ok_bind]
    exact ih (hclosed.removeCell cell) hrest

variable (columnAt rowAt) in
/-- Putting back the nodes of cells, one after the other. -/
theorem restoreNodes_arena (hg : g.WellFormed) (hclosed : s.links.Closed)
    (hcells : ∀ cell ∈ cells, cell ∈ g.cells) :
    cells.foldlM (fun a cell => a.restoreNode L (Grid.nodeAt cell)) (s.arena columnAt rowAt) =
      .ok ((s.restoreCells (L.rename columnAt rowAt) cells).arena columnAt rowAt) := by
  induction cells generalizing s with
  | nil => rfl
  | cons cell cells ih =>
    have hcell := hcells cell List.mem_cons_self
    rw [List.foldlM_cons, restoreNode_arena hg hclosed hcell, ok_bind]
    exact ih (hclosed.restoreCell hcell) fun other hother =>
      hcells other (List.mem_cons_of_mem _ hother)

/-- Withdrawing a row over tables. -/
theorem withdraw_arena (hg : g.WellFormed) (hclosed : s.links.Closed)
    (hcells : s.links.Removable (g.rowCells row)) :
    (s.arena columnAt rowAt).withdraw L row.val =
      .ok ((s.withdraw (L.rename columnAt rowAt) row).arena columnAt rowAt) := by
  rw [Arena.withdraw, rowNodes_arena s hg, ok_bind, List.foldlM_map]
  exact removeNodes_arena columnAt rowAt hg hclosed hcells

theorem reinstate_arena (hg : g.WellFormed) (hclosed : s.links.Closed) :
    (s.arena columnAt rowAt).reinstate L row.val =
      .ok ((s.reinstate (L.rename columnAt rowAt) row).arena columnAt rowAt) := by
  rw [Arena.reinstate, rowNodes_arena s hg, ok_bind, ← List.map_reverse, List.foldlM_map]
  refine restoreNodes_arena columnAt rowAt hg hclosed fun cell hcell => ?_
  exact Grid.mem_cells_of_mem_rowCells (List.mem_reverse.mp hcell)

/-- The nodes of a row but one are those of its cells outside the column of the one. -/
theorem nodeAt_ne_iff (hcell : cell ∈ g.rowCells row) :
    Grid.nodeAt cell ≠ Grid.nodeAt (column, row) ↔ cell.1 ≠ column := by
  rw [Ne, Grid.nodeAt_inj (Grid.mem_cells_of_mem_rowCells hcell), Prod.ext_iff]
  simp [(Grid.mem_rowCells.mp hcell).2]

/-- Hiding a row from all columns but one, over tables. -/
theorem hide_arena (hg : g.WellFormed) (hclosed : s.links.Closed) (hcell : (column, row) ∈ g.cells)
    (hcells : s.links.Removable (Links.cellsOutside column row)) :
    (s.arena columnAt rowAt).hide L (Grid.nodeAt (column, row)) =
      .ok ((s.removeCells (L.rename columnAt rowAt) (Links.cellsOutside column row)).arena columnAt
        rowAt) := by
  have hfilter : (g.rowCells row).filter
      (fun cell => decide (Grid.nodeAt cell ≠ Grid.nodeAt (column, row))) =
        Links.cellsOutside column row :=
    List.filter_congr fun cell hcell => by rw [decide_eq_decide, nodeAt_ne_iff hcell]
  have hremove := removeNodes_arena columnAt rowAt (L := L) hg hclosed hcells
  rw [← hfilter, List.foldlM_filter] at hremove
  simp only [decide_eq_true_eq] at hremove
  rw [Arena.hide, fetch_node_arena s hcell, ok_bind]
  dsimp only [Links.node]
  rw [rowNodes_arena s hg, ok_bind, List.foldlM_map, hremove, hfilter]

theorem unhide_arena (hg : g.WellFormed) (hclosed : s.links.Closed)
    (hcell : (column, row) ∈ g.cells) :
    (s.arena columnAt rowAt).unhide L (Grid.nodeAt (column, row)) =
      .ok ((s.restoreCells (L.rename columnAt rowAt) (Links.cellsOutside column row).reverse).arena
        columnAt rowAt) := by
  have hfilter : (g.rowCells row).reverse.filter
      (fun cell => decide (Grid.nodeAt cell ≠ Grid.nodeAt (column, row))) =
        (Links.cellsOutside column row).reverse := by
    rw [List.filter_reverse]
    refine congrArg List.reverse (List.filter_congr fun cell hcell => ?_)
    rw [decide_eq_decide, nodeAt_ne_iff hcell]
  have hrestore := restoreNodes_arena columnAt rowAt (L := L) hg hclosed
    fun cell (hcell : cell ∈ (Links.cellsOutside column row).reverse) =>
      Grid.mem_cells_of_mem_rowCells (List.mem_filter.mp (List.mem_reverse.mp hcell)).1
  rw [← hfilter, List.foldlM_filter] at hrestore
  simp only [decide_eq_true_eq] at hrestore
  rw [Arena.unhide, fetch_node_arena s hcell, ok_bind]
  dsimp only [Links.node]
  rw [rowNodes_arena s hg, ok_bind, ← List.map_reverse, List.foldlM_map, hrestore, hfilter]

end Search

end ExactCover
