import ExactCover.Proofs.Arena.Operations
import ExactCover.Proofs.Inverses

namespace ExactCover

theorem Grid.target_lt (g : Grid) (column : Fin g.columns) : g.target column < 2 ^ 32 :=
  (g.targets.get column).toNat_lt

/-- A column that still has something to receive can take any amount and stays within bounds. -/
theorem Stage.Settled.le_due_sub {g : Grid} {t : Stage g} (h : t.Settled) {column : Fin g.columns}
    (hopen : column ∉ t.exhausted) (amount : Amount) :
    -(2 ^ 32 - 2) ≤ t.due column - amount.toNat := by
  have hpos := (h column).not.mp hopen
  have hamount := amount.toNat_lt
  omega

namespace Links

variable {g : Grid} {l : Links g} {ys : List (Fin g.columns)}
  {xs : Fin g.columns → List (Fin g.rows)} {column : Fin g.columns} {row : Fin g.rows}
  {entry e : Fin g.columns × Amount}

/-- What a column has to receive lies within the bounds of the tables, and so does what is left of
    it by a charge. -/
def Chargeable (l : Links g) (entry : Fin g.columns × Amount) : Prop :=
  -(2 ^ 32 - 2) ≤ l.due entry.1 - entry.2.toNat ∧ l.due entry.1 ≤ 2 ^ 32 - 1

/-- A row can be selected: its columns are active, it is linked in all of them, and they can be
    charged. They may have nothing left to receive. -/
structure Selectable (l : Links g) (ys : List (Fin g.columns))
    (xs : Fin g.columns → List (Fin g.rows)) (row : Fin g.rows) : Prop where
  active : ∀ c ∈ g.columnsOf row, c ∈ ys
  linked : ∀ c ∈ g.columnsOf row, row ∈ xs c
  chargeable : ∀ e ∈ g.cover row, l.Chargeable e

/-- The charge of one column does not touch what the others can be charged. -/
theorem Chargeable.charge (h : l.Chargeable e) (hne : e.1 ≠ entry.1) :
    (l.charge entry).Chargeable e := by
  rw [Chargeable, due_charge, Function.update_of_ne hne]
  exact h

theorem Chargeable.withdraw (h : l.Chargeable e) : (l.withdraw row).Chargeable e := by
  rw [Chargeable, due_withdraw]
  exact h

/-- Entries can be charged one after the other: their columns differ, are active and can be
    charged. -/
structure ChargeableAll (l : Links g) (ys : List (Fin g.columns))
    (entries : List (Fin g.columns × Amount)) : Prop where
  nodup : (entries.map (·.1)).Nodup
  active : ∀ e ∈ entries, e.1 ∈ ys
  chargeable : ∀ e ∈ entries, l.Chargeable e

/-- After the first charge the lists are in order and the other entries can still be charged. -/
theorem ChargeableAll.charge {rest : List (Fin g.columns × Amount)} (hg : g.Ascending)
    (hsound : l.Sound ys xs) (h : l.ChargeableAll ys (entry :: rest)) :
    (∀ e ∈ rest, e.1 ≠ entry.1) ∧ ∃ ys' xs', (l.charge entry).Sound ys' xs' ∧
      (l.charge entry).ChargeableAll ys' rest := by
  obtain ⟨hfresh, hnodup⟩ := List.nodup_cons.mp h.nodup
  have hne : ∀ e ∈ rest, e.1 ≠ entry.1 := fun e he heq =>
    hfresh (List.mem_map.mpr ⟨e, he, heq⟩)
  obtain ⟨ys', xs', hcharged, hothers⟩ := hsound.charge hg (h.active entry List.mem_cons_self)
  exact ⟨hne, ys', xs', hcharged, hnodup,
    fun e he => hothers e.1 (h.active e (List.mem_cons_of_mem _ he)) (hne e he),
    fun e he => (h.chargeable e (List.mem_cons_of_mem _ he)).charge (hne e he)⟩

/-- Once a row that can be selected is withdrawn, its columns can be charged. -/
theorem Selectable.chargeableAll (hg : g.WellFormed) (h : l.Selectable ys xs row) :
    (l.withdraw row).ChargeableAll ys (g.cover row) where
  nodup := hg.columns_nodup row
  active e he := h.active e.1 (List.mem_map_of_mem he)
  chargeable e he := (h.chargeable e he).withdraw

theorem Sound.mem_cells (h : l.Sound ys xs) {r : Fin g.rows} (hr : r ∈ xs column) :
    (column, r) ∈ g.cells := Grid.mem_cells.mpr (h.covers column r hr)

/-- The cells that covering a column hides can be taken out. -/
theorem Sound.removable_cellsHidden (hg : g.Ascending) (h : l.Sound ys xs) (hcolumn : column ∈ ys) :
    Removable { l with active := l.active.remove column } (l.cellsHidden column) := by
  refine removable_of_lists h.rows (cellsHidden_nodup hg (h.rows column)) fun cell hcell => ?_
  obtain ⟨hrow, hcover, -⟩ := (mem_cellsHidden (h.rows column)).mp hcell
  exact ⟨Grid.mem_cells.mpr hcover, h.linked column hcolumn cell.2 hrow cell.1 hcover⟩

/-- The cells of a row that is linked in all its columns can be taken out. -/
theorem Sound.removable_rowCells (hg : g.Ascending) (h : l.Sound ys xs)
    (hrow : ∀ c ∈ g.columnsOf row, row ∈ xs c) : l.Removable (g.rowCells row) := by
  refine removable_of_lists h.rows (hg.rowCells_nodup row) fun cell hcell => ?_
  obtain ⟨hcolumn, rfl⟩ := Grid.mem_rowCells.mp hcell
  exact ⟨Grid.mem_cells.mpr hcolumn, hrow cell.1 hcolumn⟩

/-- The rows that are available at a stage can be selected. -/
theorem Shows.selectable {t : Stage g} (h : l.Shows t) (ht : t.Settled) (hrow : t.Available row)
    (hdue : ∀ c, t.due c ≤ g.target c) : l.Selectable t.active t.rows row where
  active c hc := ht.mem_active.mpr (hrow.2 c hc)
  linked _ hc := Stage.mem_rows.mpr (hrow.linked hc)
  chargeable e he := by
    have hopen := hrow.2 e.1 (List.mem_map_of_mem he)
    have htarget := g.target_lt e.1
    have hle := hdue e.1
    rw [Chargeable, h.due]
    exact ⟨ht.le_due_sub hopen e.2, by omega⟩

/-- Covering a column leads to no link out of the grid. -/
theorem Closed.cover (h : l.Closed) (column : Fin g.columns) : (l.cover column).Closed := by
  have hinactive : Closed { l with active := l.active.remove column } := h
  exact hinactive.removeAll _

theorem Closed.charge (h : l.Closed) (entry : Fin g.columns × Amount) :
    (l.charge entry).Closed := by
  have hlessen : (l.lessen entry).Closed := h
  rw [Links.charge]
  split
  · exact hlessen.cover entry.1
  · exact hlessen

theorem Closed.withdraw (h : l.Closed) (row : Fin g.rows) : (l.withdraw row).Closed :=
  h.removeAll _

theorem Closed.chargeAll (h : l.Closed) (entries : List (Fin g.columns × Amount)) :
    (entries.foldl Links.charge l).Closed := by
  induction entries generalizing l with
  | nil => exact h
  | cons entry rest ih => exact ih (h.charge entry)

theorem Closed.select (h : l.Closed) (row : Fin g.rows) : (l.select row).Closed :=
  (h.withdraw row).chargeAll _

theorem closed_initial (g : Grid) : (initial g).Closed := by
  intro column row other hlink
  have hrows : (initial g).rows column = Chain.ofList (g.rowsOf column) := by
    simp [initial, rows]
  rw [hrows] at hlink
  exact Grid.mem_cells.mpr (Grid.mem_rowsOf.mp (Chain.within_ofList _ row other hlink))

theorem closed_linksAt (frames : List (Frame g)) : (linksAt frames).Closed := by
  induction frames with
  | nil => exact closed_initial g
  | cons frame outer ih =>
    obtain ⟨column, current, tried⟩ := frame
    have hnone : (linksAt (⟨column, none, tried⟩ :: outer)).Closed := by
      induction tried with
      | nil => exact ih
      | cons row tried hrest => exact hrest.withdraw row
    cases current with
    | none => exact hnone
    | some row => exact hnone.select row

end Links

namespace Search

variable {g : Grid} {C R σ : Type} {columnAt : Fin g.columns → C} {rowAt : Fin g.rows → R}
  {L : Listener C R σ} {s : Search g σ} {column : Fin g.columns} {row : Fin g.rows} {limit : Nat}

theorem links_removeCells {L : Listener (Fin g.columns) (Fin g.rows) σ} (cells : List g.Cell) :
    (s.removeCells L cells).links = s.links.removeAll cells := by
  rw [removeCells_eq, links_moved]

theorem links_restoreCells {L : Listener (Fin g.columns) (Fin g.rows) σ} (cells : List g.Cell) :
    (s.restoreCells L cells).links = s.links.restoreAll cells := by
  rw [restoreCells_eq, links_moved]

theorem removeCells_append {L : Listener (Fin g.columns) (Fin g.rows) σ}
    (cells cells' : List g.Cell) :
    s.removeCells L (cells ++ cells') = (s.removeCells L cells).removeCells L cells' :=
  List.foldl_append

theorem restoreCells_append {L : Listener (Fin g.columns) (Fin g.rows) σ}
    (cells cells' : List g.Cell) :
    s.restoreCells L (cells ++ cells') = (s.restoreCells L cells).restoreCells L cells' :=
  List.foldl_append

theorem outside_of_mem_cellsOutside {cell : g.Cell} (h : cell ∈ Links.cellsOutside column row) :
    cell.1 ≠ column := (Stage.mem_cellsOutside.mp h).2.2

variable (columnAt rowAt) in
/-- The loop that hides the rows of a column follows its list, which hiding does not touch. -/
theorem hideFrom_arena (hg : g.WellFormed) (us vs : List (Fin g.rows))
    (hlists : (s.links.rows column).Lists (us ++ vs)) (hcolumn : ∀ r ∈ vs, (column, r) ∈ g.cells)
    (hclosed : s.links.Closed)
    (hcells : s.links.Removable (vs.flatMap (Links.cellsOutside column)))
    (hlimit : vs.length ≤ limit) :
    (s.arena columnAt rowAt).hideFrom L limit (Links.nodeIn column vs.head?) =
      .ok ((s.removeCells (L.rename columnAt rowAt)
        (vs.flatMap (Links.cellsOutside column))).arena columnAt rowAt) := by
  -- The rows that were hidden before, `us`, are still in the list of the column itself.
  induction vs generalizing s us limit with
  | nil => cases limit <;> rfl
  | cons r vs ih =>
    cases limit with
    | zero => simp at hlimit
    | succ limit =>
      have hr := hcolumn r List.mem_cons_self
      obtain ⟨hown, hrest⟩ := Links.removable_append.mp (List.flatMap_cons ▸ hcells)
      have hrows := Links.rows_removeAll_of_outside (l := s.links)
        fun cell (hcell : cell ∈ Links.cellsOutside column r) => outside_of_mem_cellsOutside hcell
      have hnext : (s.links.rows column).after r = vs.head? := hlists.after_of_cut
      change ((s.arena columnAt rowAt).hide L (Grid.nodeAt (column, r)) >>= fun a => _) = _
      rw [hide_arena hg hclosed hr hown, ok_bind, fetch_node_arena _ hr, ok_bind]
      dsimp only [Links.node]
      rw [links_removeCells, hrows, hnext, List.flatMap_cons, removeCells_append]
      refine ih (us ++ [r]) ?_ (fun r' hr' => hcolumn r' (List.mem_cons_of_mem _ hr')) ?_ ?_
        (Nat.le_of_succ_le_succ hlimit)
      · rw [links_removeCells, hrows]
        simpa using hlists
      · rw [links_removeCells]
        exact hclosed.removeAll _
      · rw [links_removeCells]
        exact hrest

variable (columnAt rowAt) in
/-- The loop that brings the rows of a column back follows its list from the end. -/
theorem unhideFrom_arena (hg : g.WellFormed) (us vs : List (Fin g.rows))
    (hlists : (s.links.rows column).Lists (vs.reverse ++ us))
    (hcolumn : ∀ r ∈ vs, (column, r) ∈ g.cells) (hclosed : s.links.Closed)
    (hlimit : vs.length ≤ limit) :
    (s.arena columnAt rowAt).unhideFrom L limit (Links.nodeIn column vs.head?) =
      .ok ((s.restoreCells (L.rename columnAt rowAt)
        (vs.flatMap fun r => (Links.cellsOutside column r).reverse)).arena columnAt rowAt) := by
  induction vs generalizing s us limit with
  | nil => cases limit <;> rfl
  | cons r vs ih =>
    cases limit with
    | zero => simp at hlimit
    | succ limit =>
      have hr := hcolumn r List.mem_cons_self
      have hmem : ∀ cell ∈ (Links.cellsOutside column r).reverse,
          cell ∈ Links.cellsOutside column r := fun cell => List.mem_reverse.mp
      have hrows := Links.rows_restoreAll_of_outside (l := s.links) fun cell hcell =>
        outside_of_mem_cellsOutside (hmem cell hcell)
      have hcut : (s.links.rows column).Lists (vs.reverse ++ r :: us) := by simpa using hlists
      have hnext : (s.links.rows column).before r = vs.head? := by
        rw [hcut.before_of_cut, List.getLast?_reverse]
      change ((s.arena columnAt rowAt).unhide L (Grid.nodeAt (column, r)) >>= fun a => _) = _
      rw [unhide_arena hg hclosed hr, ok_bind, fetch_node_arena _ hr, ok_bind]
      dsimp only [Links.node]
      rw [links_restoreCells, hrows, hnext, List.flatMap_cons, restoreCells_append]
      refine ih (r :: us) ?_ (fun r' hr' => hcolumn r' (List.mem_cons_of_mem _ hr')) ?_
        (Nat.le_of_succ_le_succ hlimit)
      · rw [links_restoreCells, hrows]
        exact hcut
      · rw [links_restoreCells]
        exact hclosed.restoreAll fun cell hcell => Grid.mem_cells.mpr
          ((Stage.mem_cellsOutside.mp (hmem cell hcell)).2.1 ▸
            (Stage.mem_cellsOutside.mp (hmem cell hcell)).1)

variable (columnAt rowAt) in
/-- Covering a column over tables, if the cells that are to be hidden can be taken out. -/
theorem cover_arena (hg : g.WellFormed) {xs : List (Fin g.rows)}
    (hlists : (s.links.rows column).Lists xs) (hcolumn : ∀ r ∈ xs, (column, r) ∈ g.cells)
    (hclosed : s.links.Closed)
    (hcells : Links.Removable { s.links with active := s.links.active.remove column }
      (s.links.cellsHidden column)) (hlimit : g.rows ≤ limit) :
    (s.arena columnAt rowAt).cover L limit (slot (some column)) =
      .ok ((s.cover (L.rename columnAt rowAt) column).arena columnAt rowAt) := by
  rw [Arena.cover, fetch_header_arena, ok_bind]
  dsimp only [Links.header]
  rw [linkRight_arena, ok_bind, linkLeft_arena, ok_bind, fetch_header_arena, ok_bind]
  have hhide := hideFrom_arena columnAt rowAt (L := L)
    (s := { s with links.active := s.links.active.remove column }) hg [] xs hlists hcolumn hclosed
    (by rwa [Links.cellsHidden, hlists.forward_eq] at hcells) (hlists.length_le.trans hlimit)
  rw [← hlists.first_eq] at hhide
  rw [cover, Links.cellsHidden, hlists.forward_eq, ← hhide, Chain.remove_eq]
  rfl

/-- Uncovering a column over tables. -/
theorem uncover_arena (hg : g.WellFormed) {xs : List (Fin g.rows)}
    (hlists : (s.links.rows column).Lists xs) (hcolumn : ∀ r ∈ xs, (column, r) ∈ g.cells)
    (hclosed : s.links.Closed) (hlimit : g.rows ≤ limit) :
    (s.arena columnAt rowAt).uncover L limit (slot (some column)) =
      .ok ((s.uncover (L.rename columnAt rowAt) column).arena columnAt rowAt) := by
  have hunhide := unhideFrom_arena columnAt rowAt (L := L) (s := s) hg [] xs.reverse
    (by simpa using hlists)
    (fun r hr => hcolumn r (List.mem_reverse.mp hr)) hclosed
    (by simpa using hlists.length_le.trans hlimit)
  rw [List.head?_reverse, ← hlists.last_eq, ← hlists.backward_eq] at hunhide
  rw [Arena.uncover, fetch_header_arena, ok_bind]
  dsimp only [Links.header]
  rw [hunhide, ok_bind, fetch_header_arena, ok_bind]
  dsimp only [Links.header]
  rw [linkRight_arena, ok_bind, linkLeft_arena]
  simp only [uncover, Chain.restore_eq]
  rfl

section Charge

variable {entry : Fin g.columns × Amount} {ys : List (Fin g.columns)}
  {xs : Fin g.columns → List (Fin g.rows)}

theorem bounded_of_le {n : Int} (hlow : -(2 ^ 32 - 2) ≤ n) (hhigh : n ≤ 2 ^ 32 - 1) :
    bounded n = .ok n := if_pos ⟨hlow, hhigh⟩

theorem mem_cells_of_mem_cover (hentry : entry ∈ g.cover row) : (entry.1, row) ∈ g.cells :=
  Grid.mem_cells.mpr (List.mem_map_of_mem hentry)

/-- A charge covers its column just if nothing is left to receive. -/
theorem charge_eq_ite (L : Listener (Fin g.columns) (Fin g.rows) σ) :
    s.charge L entry =
      if (s.links.lessen entry).due entry.1 ≤ 0 then
        { s with links := s.links.lessen entry }.cover L entry.1
      else { s with links := s.links.lessen entry } := rfl

theorem lessen_arena (s : Search g σ) (entry : Fin g.columns × Amount) :
    (s.arena columnAt rowAt).changeHeader (slot (some entry.1))
        (fun header => { header with remaining := s.links.due entry.1 - entry.2.toNat }) =
      .ok ({ s with links := s.links.lessen entry }.arena columnAt rowAt) := by
  rw [Int.sub_eq_add_neg]
  exact changeRemaining_arena s (-(entry.2.toNat : Int))

variable (columnAt rowAt) in
/-- A charge of an active column over tables. -/
theorem charge_arena (hg : g.WellFormed) (h : s.links.Sound ys xs) (hclosed : s.links.Closed)
    (hentry : entry ∈ g.cover row) (hactive : entry.1 ∈ ys) (hbounds : s.links.Chargeable entry)
    (hlimit : g.rows ≤ limit) :
    (s.arena columnAt rowAt).charge L limit (Grid.nodeAt (entry.1, row)) =
      .ok (decide (0 ≤ s.links.due entry.1 - entry.2.toNat),
        (s.charge (L.rename columnAt rowAt) entry).arena columnAt rowAt) := by
  obtain ⟨hlow, hhigh⟩ := hbounds
  have hself : (s.links.lessen entry).due entry.1 = s.links.due entry.1 - entry.2.toNat := by
    rw [Links.lessen, Links.due_addRemaining, Function.update_self, Int.sub_eq_add_neg]
  have hlessen : (s.links.lessen entry).Sound ys xs := ⟨h.active, h.rows, h.covers, h.linked⟩
  rw [Arena.charge, fetch_node_arena s (mem_cells_of_mem_cover hentry), ok_bind]
  dsimp only [Links.node]
  rw [fetch_header_arena, ok_bind, hg.weight_of_mem hentry]
  dsimp only [Links.header]
  rw [bounded_of_le hlow (by omega), ok_bind, lessen_arena, ok_bind, charge_eq_ite, hself]
  by_cases hcovered : s.links.due entry.1 - entry.2.toNat ≤ 0
  · have hcover := cover_arena columnAt rowAt (L := L)
      (s := { s with links := s.links.lessen entry }) hg (hlessen.rows entry.1)
      (fun r => hlessen.mem_cells) hclosed (hlessen.removable_cellsHidden hg.ascending hactive)
      hlimit
    have hfits : decide (s.links.due entry.1 - entry.2.toNat = 0) =
        decide (0 ≤ s.links.due entry.1 - entry.2.toNat) := decide_eq_decide.mpr (by omega)
    rw [if_pos hcovered, if_pos hcovered, hcover, ok_bind, hfits]
    rfl
  · have hfits : decide (0 ≤ s.links.due entry.1 - entry.2.toNat) = true :=
      decide_eq_true (by omega)
    rw [if_neg hcovered, if_neg hcovered, hfits]
    rfl

/-- The column that the last charge has covered is uncovered again. -/
theorem reopen_arena (hg : g.WellFormed) (h : s.links.Sound ys xs) (hclosed : s.links.Closed)
    (hlimit : g.rows ≤ limit) :
    (s.arena columnAt rowAt).reopen L limit (slot (some column)) =
      .ok ((if s.links.due column ≤ 0 then s.uncover (L.rename columnAt rowAt) column else s).arena
        columnAt rowAt) := by
  rw [Arena.reopen, fetch_header_arena, ok_bind]
  by_cases hcovered : s.links.due column ≤ 0
  · rw [if_pos hcovered, ← uncover_arena (L := L) hg (h.rows column) (fun r => h.mem_cells) hclosed
      hlimit]
    exact if_pos hcovered
  · rw [if_neg hcovered]
    exact if_neg hcovered

theorem due_uncover (L : Listener (Fin g.columns) (Fin g.rows) σ) :
    (s.uncover L column).links.due column = s.links.due column := by
  have hrestored := links_restoreCells (s := s) (L := L) (s.links.cellsRevealed column)
  change (s.restoreCells L (s.links.cellsRevealed column)).links.due column = _
  rw [hrestored]
  generalize s.links.cellsRevealed column = cells
  generalize s.links = l
  induction cells generalizing l with
  | nil => rfl
  | cons cell cells ih => exact ih (l.restoreCell cell)

/-- Undoing a charge over tables. -/
theorem refund_arena (hg : g.WellFormed) {l : Links g} (h : l.Sound ys xs) (hclosed : l.Closed)
    (hentry : entry ∈ g.cover row) (hactive : entry.1 ∈ ys) (hbounds : l.Chargeable entry)
    (hlimit : g.rows ≤ limit) (hs : s.links = l.charge entry) :
    (s.arena columnAt rowAt).refund L limit (Grid.nodeAt (entry.1, row)) =
      .ok ((s.refund (L.rename columnAt rowAt) entry).arena columnAt rowAt) := by
  obtain ⟨hlow, hhigh⟩ := hbounds
  obtain ⟨ys', xs', hcharged, -⟩ := h.charge hg.ascending hactive
  have hclosedCharged := hclosed.charge entry
  rw [← hs] at hcharged hclosedCharged
  have hself : s.links.due entry.1 + entry.2.toNat = l.due entry.1 := by
    rw [hs, Links.due_charge, Function.update_self, Int.sub_add_cancel]
  have hbounded : bounded (l.due entry.1) = .ok (l.due entry.1) :=
    bounded_of_le (by omega) hhigh
  rw [Arena.refund, fetch_node_arena s (mem_cells_of_mem_cover hentry), ok_bind]
  dsimp only [Links.node]
  rw [reopen_arena hg hcharged hclosedCharged hlimit, ok_bind, fetch_header_arena, ok_bind,
    hg.weight_of_mem hentry, refund]
  generalize hreopened :
    (if s.links.due entry.1 ≤ 0 then s.uncover (L.rename columnAt rowAt) entry.1 else s) = u
  have hu : u.links.due entry.1 + entry.2.toNat = l.due entry.1 := by
    rw [← hreopened, ← hself]
    split
    · rw [due_uncover]
    · rfl
  have hremaining : (u.arena columnAt rowAt).changeHeader (slot (some entry.1))
      (fun header => { header with remaining := u.links.due entry.1 + entry.2.toNat }) =
        .ok ({ u with links := u.links.addRemaining entry.1 entry.2.toNat }.arena columnAt rowAt) :=
    changeRemaining_arena u entry.2.toNat
  dsimp only [Links.header]
  rw [hu] at hremaining ⊢
  rw [hbounded, ok_bind, hremaining]

end Charge

variable {ys : List (Fin g.columns)} {xs : Fin g.columns → List (Fin g.rows)}
  {entries : List (Fin g.columns × Amount)}

/-- The number of the node of a row in a column to which it gives something. -/
def entryNode (row : Fin g.rows) (entry : Fin g.columns × Amount) : Nat :=
  Grid.nodeAt (entry.1, row)

theorem map_nodeAt_rowCells (row : Fin g.rows) :
    (g.rowCells row).map Grid.nodeAt = (g.cover row).map (entryNode row) := List.map_map

variable (columnAt rowAt) in
/-- Charging different columns of a row over tables, one after the other. -/
theorem chargeAll_arena (hg : g.WellFormed) (h : s.links.Sound ys xs) (hclosed : s.links.Closed)
    (hentries : ∀ e ∈ entries, e ∈ g.cover row) (hall : s.links.ChargeableAll ys entries)
    (hlimit : g.rows ≤ limit) (valid : Bool) :
    (entries.map (entryNode row)).foldlM (Arena.chargeNext L limit)
        (valid, s.arena columnAt rowAt) =
      .ok (valid && entries.all fun e => decide (0 ≤ s.links.due e.1 - e.2.toNat),
        (entries.foldl (fun s e => s.charge (L.rename columnAt rowAt) e) s).arena columnAt
          rowAt) := by
  induction entries generalizing s ys xs valid with
  | nil =>
    rw [List.all_nil, Bool.and_true]
    rfl
  | cons entry rest ih =>
    have hmem := List.mem_cons_self (a := entry) (l := rest)
    obtain ⟨hne, ys', xs', hcharged, hrestAll⟩ := hall.charge hg.ascending h
    have hcharge := charge_arena columnAt rowAt (L := L) hg h hclosed (hentries entry hmem)
      (hall.active entry hmem) (hall.chargeable entry hmem) hlimit
    have hlinks : (s.charge (L.rename columnAt rowAt) entry).links = s.links.charge entry := by
      rw [charge_eq, links_moved]
    -- The columns of a row differ, so this charge does not touch what the others have to receive.
    have hsame : (rest.all fun e => decide (0 ≤ (s.links.charge entry).due e.1 - e.2.toNat)) =
        rest.all fun e => decide (0 ≤ s.links.due e.1 - e.2.toNat) := by
      rw [Bool.eq_iff_iff, List.all_eq_true, List.all_eq_true]
      refine forall₂_congr fun e he => ?_
      rw [Links.due_charge, Function.update_of_ne (hne e he)]
    have hrestClosed := hclosed.charge entry
    rw [← hlinks] at hcharged hrestAll hrestClosed
    have hrest := ih (s := s.charge (L.rename columnAt rowAt) entry) hcharged hrestClosed
      (fun e he => hentries e (List.mem_cons_of_mem _ he)) hrestAll
      (valid && decide (0 ≤ s.links.due entry.1 - entry.2.toNat))
    rw [hlinks, hsame] at hrest
    rw [List.map_cons, List.foldlM_cons, Arena.chargeNext, entryNode, hcharge, ok_bind,
      List.all_cons, ← Bool.and_assoc]
    exact hrest

/-- A row joins the partial solution over tables. -/
theorem join_arena (s : Search g σ) (row : Fin g.rows) : (s.arena columnAt rowAt).join row.val =
    { s with
      selected := row :: s.selected
      statistics := s.statistics.addSelection (s.depth + 1) }.arena columnAt rowAt := by
  simp [Arena.join, arena, depth]

theorem notify_select_arena (s : Search g σ) (row : Fin g.rows) :
    (s.arena columnAt rowAt).notify L (.select (rowAt row)) =
      (s.notify (L.rename columnAt rowAt) (.select row)).arena columnAt rowAt := rfl

variable (columnAt rowAt) in
/-- The selection of a row over tables. -/
theorem select_arena (hg : g.WellFormed) (h : s.links.Sound ys xs) (hclosed : s.links.Closed)
    (hcolumn : column ∈ g.columnsOf row) (hrow : s.links.Selectable ys xs row)
    (hlimit : g.rows ≤ limit) :
    (s.arena columnAt rowAt).select L limit (Grid.nodeAt (column, row)) =
      .ok ((s.select (L.rename columnAt rowAt) row).fits row,
        (s.select (L.rename columnAt rowAt) row).arena columnAt rowAt) := by
  have hcell : (column, row) ∈ g.cells := Grid.mem_cells.mpr hcolumn
  have hcells := h.removable_rowCells hg.ascending hrow.linked
  have hsound := (h.withdraw hg.ascending hrow.linked).1
  -- Withdrawing the row first does not touch what its columns have to receive.
  have hcharges {u : Search g σ} (hu : u.links = s.links.withdraw row) :
      ((g.cover row).map (entryNode row)).foldlM (Arena.chargeNext L limit)
          (true, u.arena columnAt rowAt) =
        .ok ((g.cover row).all fun e => decide (0 ≤ s.links.due e.1 - e.2.toNat),
          ((g.cover row).foldl (fun s e => s.charge (L.rename columnAt rowAt) e) u).arena columnAt
            rowAt) := by
    have hcharged := chargeAll_arena columnAt rowAt (L := L) (s := u) hg
      (by rw [hu]; exact hsound) (by rw [hu]; exact hclosed.withdraw row) (fun e he => he)
      (by rw [hu]; exact hrow.chargeableAll hg) hlimit true
    simpa only [hu, Links.due_withdraw, Bool.true_and] using hcharged
  rw [Arena.select, fetch_node_arena s hcell, ok_bind]
  dsimp only [Links.node]
  rw [join_arena, rowLabel_arena, ok_bind, notify_select_arena,
    withdraw_arena hg (by exact hclosed) (by exact hcells), ok_bind, rowNodes_arena _ hg, ok_bind,
    map_nodeAt_rowCells, hcharges (by rw [withdraw_eq]; rfl), fits_select hg]
  rfl

variable (columnAt rowAt) in
/-- Undoing the charges of a row over tables, last one first. -/
theorem refundAll_arena (hg : g.WellFormed) {l : Links g} (h : l.Sound ys xs) (hclosed : l.Closed)
    (hentries : ∀ e ∈ entries, e ∈ g.cover row) (hall : l.ChargeableAll ys entries)
    (hlimit : g.rows ≤ limit) (hs : s.links = entries.foldl Links.charge l) :
    (entries.reverse.map (entryNode row)).foldlM (fun a ix => a.refund L limit ix)
        (s.arena columnAt rowAt) =
      .ok ((entries.reverse.foldl (fun s e => s.refund (L.rename columnAt rowAt) e) s).arena
        columnAt rowAt) := by
  induction entries generalizing l ys xs with
  | nil => rfl
  | cons entry rest ih =>
    have hmem := List.mem_cons_self (a := entry) (l := rest)
    obtain ⟨-, ys', xs', hcharged, hrestAll⟩ := hall.charge hg.ascending h
    have hrest := ih hcharged (hclosed.charge entry)
      (fun e he => hentries e (List.mem_cons_of_mem _ he)) hrestAll hs
    -- The later charges are undone first, and this leaves the lists as the first charge left them.
    obtain ⟨events, hinner⟩ := exists_moved_refundAll (L := L.rename columnAt rowAt) s rest.reverse
    have hlinks := congrArg Search.links hinner
    rw [links_moved, hs, List.foldl_cons,
      hcharged.refundAll_chargeAll hg.ascending hrestAll.nodup hrestAll.active] at hlinks
    rw [List.reverse_cons, List.map_append, List.foldlM_append, hrest, ok_bind, List.map_singleton,
      List.foldlM_cons, entryNode, refund_arena hg h hclosed (hentries entry hmem)
        (hall.active entry hmem) (hall.chargeable entry hmem) hlimit hlinks, ok_bind,
      List.foldl_append]
    rfl

/-- The row that leaves the partial solution over tables has to be the last one. -/
theorem dismiss_arena (hselected : s.selected.head? = some row) :
    (s.arena columnAt rowAt).dismiss row.val =
      .ok ({ s with selected := s.selected.tail }.arena columnAt rowAt) := by
  have hhead : (s.arena columnAt rowAt).selected.head? = some row.val := by
    simp [arena, hselected]
  have htail : (s.arena columnAt rowAt).selected.tail = s.selected.tail.map (·.val) := by
    simp [arena]
  rw [Arena.dismiss, if_pos hhead, htail]
  rfl

variable (columnAt rowAt) in
/-- A deselection of the row that was selected last. -/
theorem deselect_arena (hg : g.WellFormed) {l : Links g} (h : l.Sound ys xs) (hclosed : l.Closed)
    (hcolumn : column ∈ g.columnsOf row) (hrow : l.Selectable ys xs row) (hlimit : g.rows ≤ limit)
    (hs : s.links = l.select row) (hselected : s.selected.head? = some row) :
    (s.arena columnAt rowAt).deselect L limit (Grid.nodeAt (column, row)) =
      .ok ((s.deselect (L.rename columnAt rowAt) row).arena columnAt rowAt) := by
  have hcell : (column, row) ∈ g.cells := Grid.mem_cells.mpr hcolumn
  have hrefund := refundAll_arena columnAt rowAt (L := L) hg
    (h.withdraw hg.ascending hrow.linked).1 (hclosed.withdraw row)
    (fun e (he : e ∈ g.cover row) => he) (hrow.chargeableAll hg) hlimit hs
  obtain ⟨events, hinner⟩ :=
    exists_moved_refundAll (L := L.rename columnAt rowAt) s (g.cover row).reverse
  rw [Arena.deselect, fetch_node_arena s hcell, ok_bind]
  dsimp only [Links.node]
  rw [rowNodes_arena _ hg, ok_bind, map_nodeAt_rowCells, ← List.map_reverse, hrefund, ok_bind,
    deselect, hinner, dismiss_arena (by exact hselected), ok_bind, rowLabel_arena, ok_bind]
  rfl

/-- Over the tables of lists in order, covering an active column and uncovering it meet no fault and
    restore the tables, links of absent nodes included, and so do withdrawing and reinstating a row
    that is linked in all its columns. Selecting a row and deselecting it at any of its nodes leave
    what withdrawing it does. -/
theorem arena_restored (hg : g.WellFormed) (s : Search g σ) (h : s.links.Sound ys xs)
    (hclosed : s.links.Closed) (hlimit : g.rows ≤ limit) :
    (∀ column ∈ ys, ∃ b c,
      (s.arena columnAt rowAt).cover L limit (slot (some column)) = .ok b ∧
      b.uncover L limit (slot (some column)) = .ok c ∧
      { c with observed := s.observed } = s.arena columnAt rowAt) ∧
    (∀ row, (∀ c ∈ g.columnsOf row, row ∈ xs c) → ∃ b c,
      (s.arena columnAt rowAt).withdraw L row.val = .ok b ∧ b.reinstate L row.val = .ok c ∧
      { c with observed := s.observed } = s.arena columnAt rowAt) ∧
    (∀ row, s.links.Selectable ys xs row → ∀ column ∈ g.columnsOf row, ∃ fits b c d,
      (s.arena columnAt rowAt).select L limit (Grid.nodeAt (column, row)) = .ok (fits, b) ∧
      b.deselect L limit (Grid.nodeAt (column, row)) = .ok c ∧
      (s.arena columnAt rowAt).withdraw L row.val = .ok d ∧
      { c with statistics := s.statistics, observed := s.observed } =
        { d with observed := s.observed }) := by
  refine ⟨fun column hcolumn => ?_, fun row hrow => ?_, fun row hrow column hcolumn => ?_⟩
  · have hown :
        ((s.cover (L.rename columnAt rowAt) column).links.rows column).Lists (xs column) := by
      rw [cover_eq, links_moved, h.rows_cover_self]
      exact h.rows column
    refine ⟨_, _, cover_arena columnAt rowAt hg (h.rows column) (fun r => h.mem_cells) hclosed
      (h.removable_cellsHidden hg.ascending hcolumn) hlimit,
      uncover_arena hg hown (fun r => h.mem_cells) ?_ hlimit,
      congrArg (arena columnAt rowAt) (s.uncover_cover hg.ascending h hcolumn)⟩
    rw [cover_eq]
    exact hclosed.cover column
  · refine ⟨_, _, withdraw_arena hg hclosed (h.removable_rowCells hg.ascending hrow),
      reinstate_arena hg ?_,
      congrArg (arena columnAt rowAt) (s.reinstate_withdraw hg.ascending h hrow)⟩
    rw [withdraw_eq]
    exact hclosed.withdraw row
  · have hselect := select_arena columnAt rowAt (L := L) hg h hclosed hcolumn hrow hlimit
    obtain ⟨events, hselected⟩ := s.exists_moved_select (L := L.rename columnAt rowAt) row
    have hdeselect := deselect_arena columnAt rowAt (L := L)
      (s := s.select (L.rename columnAt rowAt) row) hg h hclosed hcolumn hrow hlimit
      (by rw [hselected, links_moved]) (by rw [hselected]; rfl)
    have hcells := h.removable_rowCells hg.ascending hrow.linked
    exact ⟨_, _, _, _, hselect, hdeselect, withdraw_arena hg hclosed hcells, congrArg
      (arena columnAt rowAt) (s.deselect_select hg.ascending h hrow.linked hrow.active)⟩

end Search

end ExactCover
