import ExactCover.Proofs.Arena.Operations
import ExactCover.Proofs.Solver

namespace ExactCover

namespace Chain

variable {n : Nat} {l : Chain n} {xs : List (Fin n)} {x y : Fin n}

/-- A new element at the end that has no links of its own yet. -/
def attach (l : Chain n) (x : Fin n) : Chain n :=
  { l with size := l.size + 1, last := some x }.linkAfter l.last (some x)

theorem before_attach : (l.attach x).before y = l.before y := before_linkAfter ..

theorem after_attach : (l.attach x).after y = if l.last = some y then some x else l.after y :=
  after_linkAfter ..

/-- Attaching an element at the end sets the same ends and size as pushing it. -/
theorem Lists.ends_push (h : l.Lists xs) : (l.push x).first = (l.attach x).first ∧
    (l.push x).last = (l.attach x).last ∧ (l.push x).size = (l.attach x).size := by
  have hpush : (l.push x).first = l.first.or (some x) := rfl
  rw [attach, first_linkAfter, last_linkAfter, size_linkAfter, hpush]
  refine ⟨?_, rfl, rfl⟩
  by_cases hlast : l.last = none
  · rw [if_pos hlast, h.ends_eq_none.1.mpr (h.ends_eq_none.2.mp hlast), Option.none_or]
  · have hfirst : l.first ≠ none := mt h.ends_eq_none.1.mp (mt h.ends_eq_none.2.mpr hlast)
    obtain ⟨first, hfirst⟩ := Option.ne_none_iff_exists'.mp hfirst
    rw [if_neg hlast, hfirst, Option.some_or]

end Chain

/-- The cells of a column, row by row, are those of the rows that cover it. -/
theorem Grid.WellFormed.cells_of_column {g : Grid} (hg : g.WellFormed) (column : Fin g.columns) :
    (g.cells.filter fun cell => cell.1 = column).map (·.2) = g.rowsOf column := by
  have hrow : ∀ row, ((g.rowCells row).filter fun cell => cell.1 = column).map (·.2) =
      List.replicate (if column ∈ g.columnsOf row then 1 else 0) row := by
    intro row
    have hcells : g.rowCells row = (g.columnsOf row).map fun c => (c, row) := by
      simp [Grid.rowCells, Grid.columnsOf]
    have hfilter := List.filter_eq (l := g.columnsOf row) column
    rw [(hg.columns_nodup row).count] at hfilter
    rw [hcells, List.filter_map, List.map_map]
    exact (congrArg _ hfilter).trans List.map_replicate
  have hrows : g.rowsOf column =
      (List.finRange g.rows).filter fun row => column ∈ g.columnsOf row := by
    refine List.filter_congr fun row _ => Bool.eq_iff_iff.mpr ?_
    rw [decide_eq_true_iff]
    simp [Grid.columnsOf]
  rw [Grid.cells, hrows]
  induction List.finRange g.rows with
  | nil => rfl
  | cons row rows ih =>
    rw [List.flatMap_cons, List.filter_append, List.map_append, hrow, ih, List.filter_cons]
    by_cases h : column ∈ g.columnsOf row <;> simp [h]

namespace Links

variable {g : Grid}

/-- The lists while only some cells have nodes. -/
def listing (g : Grid) (cells : List g.Cell) : Links g where
  active := Chain.ofList (List.finRange g.columns)
  covering := Vector.ofFn fun column =>
    Chain.ofList ((cells.filter fun cell => cell.1 = column).map (·.2))
  remaining := g.targets.map fun target => (target.toNat : Int)

theorem rows_listing (cells : List g.Cell) (column : Fin g.columns) :
    (listing g cells).rows column =
      Chain.ofList ((cells.filter fun cell => cell.1 = column).map (·.2)) :=
  Vector.getElem_ofFn column.2

theorem lists_active_listing (cells : List g.Cell) :
    (listing g cells).active.Lists (List.finRange g.columns) :=
  Chain.lists_ofList (List.nodup_finRange _)

theorem listing_concat (cells : List g.Cell) (cell : g.Cell) :
    listing g (cells ++ [cell]) = (listing g cells).onRows cell.1 (·.push cell.2) := by
  have hcovering : (listing g (cells ++ [cell])).covering =
      ((listing g cells).onRows cell.1 (·.push cell.2)).covering := by
    refine Vector.ext fun i hi => ?_
    have hleft := rows_listing (cells ++ [cell]) ⟨i, hi⟩
    have hright := (listing g cells).rows_onRows cell.1 ⟨i, hi⟩ (·.push cell.2)
    refine hleft.trans (Eq.trans ?_ hright.symm)
    rw [List.filter_append, List.map_append]
    split
    · rename_i heq
      rw [List.filter_singleton]
      simp [← heq, rows_listing, Chain.ofList]
    · rename_i hne
      simp [Ne.symm hne, rows_listing]
  exact congrArg (fun covering => { listing g cells with covering := covering }) hcovering

/-- The list of a column holds the rows of the cells that have nodes. -/
theorem lists_listing (hg : g.WellFormed) {cells : List g.Cell} (hfront : cells <+: g.cells)
    (column : Fin g.columns) : ((listing g cells).rows column).Lists
      ((cells.filter fun cell => cell.1 = column).map (·.2)) := by
  have hsublist : ((cells.filter fun cell => cell.1 = column).map (·.2)).Sublist
      (g.rowsOf column) := by
    rw [← hg.cells_of_column]
    exact (hfront.sublist.filter _).map _
  rw [rows_listing]
  exact Chain.lists_ofList (((List.nodup_finRange _).filter _).sublist hsublist)

section Append

variable {C R σ : Type} {cells : List g.Cell} {cell other : g.Cell} {l : Links g}
  {xs : List (Fin g.rows)}

theorem headers_push (h : (l.rows cell.1).Lists xs) :
    (l.onRows cell.1 (·.push cell.2)).headers = (l.onRows cell.1 (·.attach cell.2)).headers := by
  obtain ⟨hfirst, hlast, hsize⟩ := h.ends_push (x := cell.2)
  refine congrArg (List.cons _) (List.map_congr_left fun column _ => ?_)
  rw [header_onRows, header_onRows, hfirst, hlast, hsize]

theorem node_push_of_ne (h : other ≠ cell) :
    (l.onRows cell.1 (·.push cell.2)).node other =
      (l.onRows cell.1 (·.attach cell.2)).node other := by
  rw [node_onRows, node_onRows]
  split
  · rename_i hcolumn
    have hrow : cell.2 ≠ other.2 := fun hrow => h (Prod.ext hcolumn hrow.symm)
    rw [Chain.before_push, Chain.after_push, Chain.before_attach, Chain.after_attach, if_neg hrow,
      if_neg hrow]
  · rfl

theorem node_push_self (h : (l.rows cell.1).Lists xs) (hcell : cell.2 ∉ xs) :
    (l.onRows cell.1 (·.push cell.2)).node cell =
      ⟨slot (some cell.1), cell.2, nodeIn cell.1 (l.rows cell.1).last, none, Grid.weight cell⟩ := by
  have hlast : (l.rows cell.1).last ≠ some cell.2 := by
    rw [h.last_eq]
    exact fun hlast => hcell (List.mem_of_getLast? hlast)
  rw [node_onRows, if_pos rfl, Chain.before_push, Chain.after_push, if_pos rfl, if_neg hlast,
    if_pos rfl]
  rfl

/-- Appending a node: the last element of the list so far is linked to it, or it is the first one,
    and it becomes the end of the list. -/
theorem appendNode_tables (hg : g.WellFormed) (hfront : cells <+: g.cells) (a : Arena C R σ)
    (hlast : ∀ row ∈ (l.rows cell.1).last, (cell.1, row) ∈ cells)
    (hnumber : some cells.length = nodeIn cell.1 (some cell.2)) (amount : Amount) :
    (l.tables cells a).appendNode (slot (some cell.1)) cell.2.val amount =
      .ok { a with
        headers := (l.onRows cell.1 (·.attach cell.2)).headers
        nodes := cells.map (l.onRows cell.1 (·.attach cell.2)).node ++
          [⟨slot (some cell.1), cell.2, nodeIn cell.1 (l.rows cell.1).last, none, amount⟩] } := by
  have hgrow : (l.tables cells a).grow (slot (some cell.1)) = _ := grow_tables cells a
  have hend : ((l.onRows cell.1 fun c => { c with size := c.size + 1 }).tables cells a).changeHeader
      (slot (some cell.1)) (fun header =>
        { header with lastNode := nodeIn cell.1 (some cell.2) }) = _ :=
    changeHeader_onRows cells a (h := fun c => { c with last := some cell.2 })
      (by rw [header_onRows _ _ _ fun c => { c with last := some cell.2 }, if_pos rfl]; rfl)
      fun row => ⟨rfl, rfl⟩
  have hbelow : (((l.onRows cell.1 fun c => { c with size := c.size + 1 }).onRows cell.1
      fun c => { c with last := some cell.2 }).tables cells a).linkBelow (slot (some cell.1))
        (nodeIn cell.1 (l.rows cell.1).last) (nodeIn cell.1 (some cell.2)) = _ :=
    linkBelow_tables cells a hg hfront hlast
  have hlength : (l.tables cells a).nodes.length = cells.length := List.length_map _
  have hfetch : fetch ((l.onRows cell.1
      fun c => { c with size := c.size + 1 }).tables cells a).headers (slot (some cell.1)) =
        .ok { l.header cell.1 with size := (l.rows cell.1).size + 1 } := by
    refine (fetch_header _ cell.1).trans (congrArg Except.ok ?_)
    rw [header_onRows, if_pos rfl]
    rfl
  rw [Arena.appendNode, hgrow, ok_bind, hlength, hfetch, ok_bind, hnumber, hend, ok_bind]
  dsimp only [header]
  rw [hbelow, ok_bind, onRows_onRows, onRows_onRows]
  rfl

/-- Appending the node of the next cell. -/
theorem appendNode_listing (hg : g.WellFormed) (hfront : cells ++ [cell] <+: g.cells)
    (a : Arena C R σ) :
    ((listing g cells).tables cells a).appendNode (slot (some cell.1)) cell.2.val
        (Grid.weight cell) =
      .ok ((listing g (cells ++ [cell])).tables (cells ++ [cell]) a) := by
  have hcells : cells <+: g.cells := (List.prefix_append _ _).trans hfront
  have hnew : cell ∉ cells := fun hmem =>
    (List.nodup_append.mp (hg.cells_nodup.sublist hfront.sublist)).2.2 cell hmem cell
      List.mem_cons_self rfl
  have hnumber : some cells.length = nodeIn cell.1 (some cell.2) := by
    have hnumber := Grid.nodeAt_eq_idxOf hfront (List.mem_append_right _ List.mem_cons_self)
    rw [List.idxOf_append_of_notMem hnew, List.idxOf_cons_self] at hnumber
    exact congrArg some hnumber.symm
  have hlists := lists_listing hg hcells cell.1
  have hlinked : ∀ row, row ∈ (cells.filter fun other => other.1 = cell.1).map (·.2) →
      (cell.1, row) ∈ cells := by
    intro row hrow
    obtain ⟨other, hother, rfl⟩ := List.mem_map.mp hrow
    obtain ⟨hmem, hcolumn⟩ := List.mem_filter.mp hother
    exact of_decide_eq_true hcolumn ▸ hmem
  have hlast : ∀ row ∈ ((listing g cells).rows cell.1).last, (cell.1, row) ∈ cells := by
    intro row hrow
    rw [hlists.last_eq] at hrow
    exact hlinked row (List.mem_of_getLast? hrow)
  have hnodes : ∀ other ∈ cells, ((listing g cells).onRows cell.1 (·.push cell.2)).node other =
      ((listing g cells).onRows cell.1 (·.attach cell.2)).node other :=
    fun other hother => node_push_of_ne (ne_of_mem_of_not_mem hother hnew)
  rw [appendNode_tables hg hcells a hlast hnumber, listing_concat, tables, headers_push hlists,
    List.map_append, List.map_congr_left hnodes, List.map_singleton,
    node_push_self hlists (mt (hlinked cell.2) hnew)]

end Append

/-- The lists of all cells are those of a search that has not begun. -/
theorem listing_cells (hg : g.WellFormed) : listing g g.cells = initial g := by
  simp only [listing, initial, hg.cells_of_column]

end Links

/-- The number of the last of the first columns, or of the head. -/
theorem slot_take {n k : Nat} (h : k ≤ n) : slot ((List.finRange n).take k).getLast? = k := by
  cases k with
  | zero => rfl
  | succ k =>
    have hlast : ((List.finRange n).take (k + 1)).getLast? = some ⟨k, h⟩ := by
      rw [List.getLast?_take]
      simp [Nat.lt_of_succ_le h]
    rw [hlast, slot_some]

/-- The number of the first of the last columns, or of the head. -/
theorem slot_drop {n k : Nat} (h : k ≤ n) :
    slot ((List.finRange n).drop k).head? = if k = n then 0 else k + 1 := by
  rw [List.head?_drop]
  split
  · rename_i hk
    rw [List.getElem?_eq_none (by simp [hk])]
    rfl
  · rename_i hne
    have hlt : k < (List.finRange n).length := by simpa using Nat.lt_of_le_of_ne h hne
    rw [List.getElem?_eq_getElem hlt, List.getElem_finRange]
    rfl

namespace Problem

variable {C R σ : Type} [Ord C] {p : Problem C R}

/-- The tables while only some rows, and some nodes of the next one, have been appended. -/
def tablesOf (p : Problem C R) (rows : List (Fin p.grid.rows)) (cells : List p.grid.Cell)
    (state : σ) : Arena C R σ :=
  (Links.listing p.grid cells).tables cells
    { (Search.start p.grid state).arena p.columnAt p.rowAt with
      rows := rows.map fun row =>
        ⟨p.rowAt row, p.grid.nodesBefore row, (p.grid.cover row).length⟩ }

theorem emptyHeader_eq (p : Problem C R) (column : Fin p.grid.columns) :
    p.emptyHeader column.val = .ok ((Links.listing p.grid []).header column) := by
  have htarget : fetch p.targets.entries column.val = .ok (p.targets.entry column) :=
    fetch_of_getElem? (List.getElem?_eq_getElem column.2)
  have hactive := Links.lists_active_listing (g := p.grid) []
  rw [finRange_eq_append column] at hactive
  have hbefore := hactive.before_of_cut
  have hafter := hactive.after_of_cut
  have hdue : (Links.listing p.grid []).due column = (p.targets.entry column).2.toNat := by
    rw [← grid_target]
    exact Vector.getElem_map _ column.2
  rw [emptyHeader, htarget, ok_bind, Links.header, hbefore, hafter, hdue, Links.rows_listing,
    slot_take column.2.le, slot_drop column.2]
  rfl

/-- The tables without rows hold empty lists. -/
theorem emptyArena_eq (p : Problem C R) (state : σ) :
    p.emptyArena state = .ok (p.tablesOf [] [] state : Arena C R σ) := by
  have hheaders : (List.range p.targets.size).mapM p.emptyHeader =
      .ok ((List.finRange p.grid.columns).map (Links.listing p.grid []).header) := by
    have hrange : List.range p.targets.size = (List.finRange p.grid.columns).map Fin.val :=
      (List.map_coe_finRange_eq_range).symm
    rw [hrange, List.mapM_map]
    exact mapM_eq_ok fun column _ => p.emptyHeader_eq column
  have hhead : (Links.listing p.grid []).head =
      ⟨p.targets.size, if p.targets.size = 0 then 0 else 1, none, none, 0, 0⟩ := by
    have hactive := Links.lists_active_listing (g := p.grid) []
    have hleft := slot_take (le_refl p.grid.columns)
    have hright := slot_drop (Nat.zero_le p.grid.columns)
    rw [List.take_of_length_le (by simp)] at hleft
    rw [List.drop_zero] at hright
    rw [Links.head, hactive.first_eq, hactive.last_eq, hleft, hright]
    simp only [eq_comm (a := 0)]
    rfl
  rw [emptyArena, hheaders, ok_bind, columns_eq]
  refine congrArg Except.ok ?_
  rw [tablesOf, Links.tables, Links.headers, hhead]
  rfl

section Rows

variable [Ord R] [Std.TransOrd C] [Std.LawfulEqOrd C] {done todo : List (Fin p.grid.rows)}
  {row : Fin p.grid.rows}

/-- Appending the nodes of the next row, in ascending order of columns. -/
theorem WellFormed.appendNodes_tablesOf (hp : p.WellFormed)
    (hrows : List.finRange p.grid.rows = done ++ row :: todo) (state : σ) :
    (p.rows.entry row).2.entries.foldlM (p.appendEntry row.val)
        (p.tablesOf done (done.flatMap p.grid.rowCells) state : Arena C R σ) =
      .ok (p.tablesOf done ((done ++ [row]).flatMap p.grid.rowCells) state) := by
  have hcells : p.grid.cells = done.flatMap p.grid.rowCells ++
      (p.grid.rowCells row ++ todo.flatMap p.grid.rowCells) := by
    rw [Grid.cells, hrows, List.flatMap_append, List.flatMap_cons]
  -- After some entries there are nodes for all cells of the rows before and some of this row.
  have hloop := foldlM_eq_ok (f := fun a entry =>
      p.appendEntry row.val a (p.columnAt entry.1, entry.2))
    (fun front => (p.tablesOf done
      (done.flatMap p.grid.rowCells ++ front.map fun entry => (entry.1, row)) state : Arena C R σ))
    (p.grid.cover row) fun front entry back hcover => ?_
  · rw [List.map_nil, List.append_nil] at hloop
    rw [← hp.cover_labels row, List.foldlM_map, hloop, List.flatMap_append, List.flatMap_singleton]
    rfl
  have hentry : entry ∈ p.grid.cover row := hcover ▸ List.mem_append_right _ List.mem_cons_self
  have hposition : p.targets.position? (p.columnAt entry.1) = some entry.1 :=
    SortedMap.position?_entry hp.targets_ascending entry.1
  have hfront : (done.flatMap p.grid.rowCells ++ front.map fun entry => (entry.1, row)) ++
      [(entry.1, row)] <+: p.grid.cells := by
    refine ⟨back.map (fun entry => (entry.1, row)) ++ todo.flatMap p.grid.rowCells, ?_⟩
    rw [hcells, Grid.rowCells, hcover]
    simp
  have happend := Links.appendNode_listing hp.grid hfront
    (p.tablesOf done [] state : Arena C R σ)
  rw [hp.grid.weight_of_mem hentry] at happend
  rw [appendEntry, hposition, List.map_append, List.map_singleton, ← List.append_assoc]
  exact happend

/-- Appending the next row with its nodes. -/
theorem WellFormed.appendRow_tablesOf (hp : p.WellFormed)
    (hrows : List.finRange p.grid.rows = done ++ row :: todo) (state : σ) :
    p.appendRow (p.tablesOf done (done.flatMap p.grid.rowCells) state) (p.rows.entry row) =
      .ok (p.tablesOf (done ++ [row]) ((done ++ [row]).flatMap p.grid.rowCells) state) := by
  have hdone : done.length = row.val := by
    have hget : (List.finRange p.grid.rows)[done.length]? = some row := by simp [hrows]
    obtain ⟨hlt, hget⟩ := List.getElem?_eq_some_iff.mp hget
    rw [List.getElem_finRange] at hget
    exact congrArg Fin.val hget
  have htake : (List.finRange p.grid.rows).take row = done := by
    rw [hrows, ← hdone, List.take_left]
  have hnumber : (p.tablesOf done (done.flatMap p.grid.rowCells) state : Arena C R σ).rows.length =
      row.val := (List.length_map _).trans hdone
  have hfirst : (p.tablesOf done (done.flatMap p.grid.rowCells) state : Arena C R σ).nodes.length =
      p.grid.nodesBefore row := by
    rw [Grid.nodesBefore, htake]
    exact List.length_map _
  have hsize : (p.rows.entry row).2.size = (p.grid.cover row).length := by
    rw [SortedMap.size, ← hp.cover_labels row, List.length_map]
  rw [appendRow, hnumber, hfirst, hsize, hp.appendNodes_tablesOf hrows, ok_bind]
  refine congrArg Except.ok ?_
  rw [tablesOf, tablesOf, List.map_append, List.map_singleton]
  rfl

theorem WellFormed.incidenceCount_eq (hp : p.WellFormed) :
    p.incidenceCount = p.grid.cells.length := by
  have hsum : ∀ (rows : List (Fin p.grid.rows)) (n : Nat),
      (rows.map p.rows.entry).foldl (fun n (entry : R × Cover C) => n + entry.2.size) n =
        n + (rows.flatMap p.grid.rowCells).length := by
    intro rows
    induction rows with
    | nil => exact fun n => rfl
    | cons row rows ih =>
      intro n
      have hsize : (p.rows.entry row).2.size = (p.grid.rowCells row).length := by
        rw [SortedMap.size, ← hp.cover_labels row, List.length_map, Grid.length_rowCells]
      refine (ih (n + (p.rows.entry row).2.size)).trans ?_
      rw [List.flatMap_cons, List.length_append, hsize, Nat.add_assoc]
  have hall := hsum (List.finRange p.grid.rows) 0
  rw [Nat.zero_add] at hall
  rw [incidenceCount, ← SortedMap.map_entry]
  exact hall

/-- The tables of a problem hold the lists of a search that has not begun. -/
theorem WellFormed.arena_eq (hp : p.WellFormed) (L : Listener C R σ) (state : σ) :
    p.arena L state = .ok ((p.solve L state).search.arena p.columnAt p.rowAt) := by
  have hloop : p.rows.entries.foldlM p.appendRow (p.tablesOf [] [] state : Arena C R σ) =
      .ok (p.tablesOf (List.finRange p.grid.rows) p.grid.cells state) := by
    rw [← SortedMap.map_entry, List.foldlM_map]
    exact foldlM_eq_ok (f := fun a row => p.appendRow a (p.rows.entry row))
      (fun done => (p.tablesOf done (done.flatMap p.grid.rowCells) state : Arena C R σ))
      (List.finRange p.grid.rows) fun done row todo hrows => hp.appendRow_tablesOf hrows state
  have hrows : (p.tablesOf (List.finRange p.grid.rows) p.grid.cells state :
      Arena C R σ).rows.length = p.rowCount := by
    rw [tablesOf]
    exact (List.length_map _).trans (List.length_finRange)
  have hnodes : (p.tablesOf (List.finRange p.grid.rows) p.grid.cells state :
      Arena C R σ).nodes.length = p.incidenceCount :=
    (List.length_map _).trans hp.incidenceCount_eq.symm
  rw [arena, emptyArena_eq, ok_bind, hloop, ok_bind, hrows, hnodes, tablesOf,
    Links.listing_cells hp.grid]
  rfl

end Rows

end Problem

end ExactCover
