import ExactCover.Proofs.Arena.Layout

namespace ExactCover

namespace Chain

variable {n : Nat}

/-- Sets what is behind an element, or the first element where there is none in front. -/
def linkAfter (l : Chain n) (front back : Option (Fin n)) : Chain n :=
  match front with
  | some x => { l with next := l.next.set x back x.isLt }
  | none => { l with first := back }

/-- Sets what is in front of an element, or the last element where there is none behind. -/
def linkBefore (l : Chain n) (back front : Option (Fin n)) : Chain n :=
  match back with
  | some x => { l with prev := l.prev.set x front x.isLt }
  | none => { l with last := front }

variable (l : Chain n) (front back : Option (Fin n)) (x : Fin n)

/-- Taking an element out is two changes of links and one of the size. -/
theorem remove_eq : l.remove x =
    { (l.linkAfter (l.before x) (l.after x)).linkBefore (l.after x) (l.before x) with
      size := l.size - 1 } := by
  cases hbefore : l.before x <;> cases hafter : l.after x <;>
    simp [remove, linkAfter, linkBefore, hbefore, hafter]

theorem restore_eq : l.restore x =
    { (l.linkAfter (l.before x) (some x)).linkBefore (l.after x) (some x) with
      size := l.size + 1 } := by
  cases hbefore : l.before x <;> cases hafter : l.after x <;>
    simp [restore, linkAfter, linkBefore, hbefore, hafter]

@[simp]
theorem first_linkAfter :
    (l.linkAfter front back).first = if front = none then back else l.first := by
  cases front <;> rfl

@[simp]
theorem last_linkAfter : (l.linkAfter front back).last = l.last := by cases front <;> rfl

@[simp]
theorem size_linkAfter : (l.linkAfter front back).size = l.size := by cases front <;> rfl

@[simp]
theorem before_linkAfter : (l.linkAfter front back).before x = l.before x := by
  cases front <;> rfl

@[simp]
theorem after_linkAfter :
    (l.linkAfter front back).after x = if front = some x then back else l.after x := by
  cases front with
  | none => rfl
  | some y => simp [linkAfter, after, Vector.getElem_set, Fin.ext_iff]

@[simp]
theorem first_linkBefore : (l.linkBefore back front).first = l.first := by cases back <;> rfl

@[simp]
theorem last_linkBefore :
    (l.linkBefore back front).last = if back = none then front else l.last := by
  cases back <;> rfl

@[simp]
theorem size_linkBefore : (l.linkBefore back front).size = l.size := by cases back <;> rfl

@[simp]
theorem before_linkBefore :
    (l.linkBefore back front).before x = if back = some x then front else l.before x := by
  cases back with
  | none => rfl
  | some y => simp [linkBefore, before, Vector.getElem_set, Fin.ext_iff]

@[simp]
theorem after_linkBefore : (l.linkBefore back front).after x = l.after x := by
  cases back <;> rfl

end Chain

namespace Links

variable {g : Grid}

/-- Changes the list of one column. -/
def onRows (l : Links g) (column : Fin g.columns) (f : Chain g.rows → Chain g.rows) : Links g :=
  { l with covering := l.covering.setIfInBounds column (f (l.rows column)) }

variable (l : Links g) (column other : Fin g.columns) (f f' : Chain g.rows → Chain g.rows)

theorem rows_onRows :
    (l.onRows column f).rows other =
      if other = column then f (l.rows column) else l.rows other := by
  by_cases h : other = column
  · subst h
    simp [onRows, rows]
  · have hne : column.val ≠ other.val := fun heq => h (Fin.ext heq.symm)
    simp [onRows, rows, hne, h]

theorem onRows_onRows : (l.onRows column f).onRows column f' = l.onRows column (f' ∘ f) := by
  simp [onRows, rows]

theorem header_onRows : (l.onRows column f).header other =
    if other = column then
      { l.header column with
        firstNode := nodeIn column (f (l.rows column)).first
        lastNode := nodeIn column (f (l.rows column)).last
        size := (f (l.rows column)).size }
    else l.header other := by
  by_cases h : other = column
  · subst h
    rw [if_pos rfl, header, rows_onRows, if_pos rfl]
    rfl
  · rw [if_neg h, header, rows_onRows, if_neg h]
    rfl

theorem node_onRows (cell : g.Cell) : (l.onRows column f).node cell =
    if cell.1 = column then
      { l.node cell with
        above := nodeIn column ((f (l.rows column)).before cell.2)
        below := nodeIn column ((f (l.rows column)).after cell.2) }
    else l.node cell := by
  by_cases h : cell.1 = column
  · subst h
    rw [if_pos rfl, node, rows_onRows, if_pos rfl]
    rfl
  · rw [if_neg h, node, rows_onRows, if_neg h]
    rfl

section Tables

variable {C R σ : Type} {l l' : Links g} {column : Fin g.columns} (cells : List g.Cell)
  (a : Arena C R σ)

/-- Tables with the headers and the nodes of some lists. While the tables are built there are nodes
    for the first cells only. -/
def tables (l : Links g) (cells : List g.Cell) (a : Arena C R σ) : Arena C R σ :=
  { a with headers := l.headers, nodes := cells.map l.node }

/-- A change of one header. -/
theorem changeHeader_tables {f : Header → Header} (hhead : l'.head = l.head)
    (hheader : ∀ other, l'.header other =
      if other = column then f (l.header column) else l.header other)
    (hnodes : ∀ cell, l'.node cell = l.node cell) :
    (l.tables cells a).changeHeader (slot (some column)) f = .ok (l'.tables cells a) := by
  have hheaders : l'.headers = l.head :: (List.finRange g.columns).map fun other =>
      if other = column then f (l.header column) else l.header other := by
    rw [headers, hhead]
    exact congrArg _ (List.map_congr_left fun other _ => hheader other)
  have hnodes : cells.map l'.node = cells.map l.node :=
    List.map_congr_left fun cell _ => hnodes cell
  rw [Arena.changeHeader, slot_some]
  simp only [tables, l.change_header, ok_bind, hheaders, hnodes]
  rfl

/-- A change of one node. -/
theorem changeNode_tables (hg : g.WellFormed) (hfront : cells <+: g.cells) {f : Node → Node}
    {cell : g.Cell} (hcell : cell ∈ cells) (hheaders : l'.headers = l.headers)
    (hnode : ∀ other, l'.node other = if other = cell then f (l.node cell) else l.node other) :
    (l.tables cells a).changeNode (Grid.nodeAt cell) f = .ok (l'.tables cells a) := by
  have hchange : change (cells.map l.node) (Grid.nodeAt cell) f = .ok (cells.map l'.node) := by
    rw [Grid.nodeAt_eq_idxOf hfront hcell,
      change_map_idxOf (hg.cells_nodup.sublist hfront.sublist) hcell]
    exact congrArg _ (List.map_congr_left fun other _ => (hnode other).symm)
  simp only [Arena.changeNode, tables, hchange, ok_bind, hheaders]
  rfl

/-- A change of the ends or of the length of a list. -/
theorem changeHeader_onRows {f : Header → Header} {h : Chain g.rows → Chain g.rows}
    (hf : f (l.header column) = (l.onRows column h).header column)
    (hlinks : ∀ row, (h (l.rows column)).before row = (l.rows column).before row ∧
      (h (l.rows column)).after row = (l.rows column).after row) :
    (l.tables cells a).changeHeader (slot (some column)) f =
      .ok ((l.onRows column h).tables cells a) := by
  refine changeHeader_tables cells a rfl (fun other => ?_) fun cell => ?_
  · rw [hf, header_onRows, header_onRows, if_pos rfl]
  · rw [node_onRows, (hlinks _).1, (hlinks _).2]
    split
    · rename_i heq
      subst heq
      rfl
    · rfl

/-- A change of the links of one element of a list. -/
theorem changeNode_onRows (hg : g.WellFormed) (hfront : cells <+: g.cells) {f : Node → Node}
    {h : Chain g.rows → Chain g.rows} {row : Fin g.rows} (hcell : (column, row) ∈ cells)
    (hf : f (l.node (column, row)) = (l.onRows column h).node (column, row))
    (hends : (h (l.rows column)).first = (l.rows column).first ∧
      (h (l.rows column)).last = (l.rows column).last ∧
      (h (l.rows column)).size = (l.rows column).size)
    (hlinks : ∀ other, other ≠ row →
      (h (l.rows column)).before other = (l.rows column).before other ∧
        (h (l.rows column)).after other = (l.rows column).after other) :
    (l.tables cells a).changeNode (Grid.nodeAt (column, row)) f =
      .ok ((l.onRows column h).tables cells a) := by
  obtain ⟨hfirst, hlast, hsize⟩ := hends
  refine changeNode_tables cells a hg hfront hcell ?_ fun cell => ?_
  · rw [headers, headers]
    refine congrArg _ (List.map_congr_left fun other _ => ?_)
    rw [header_onRows, hfirst, hlast, hsize]
    split
    · rename_i heq
      subst heq
      rfl
    · rfl
  · by_cases hsame : cell = (column, row)
    · rw [if_pos hsame, hf, hsame]
    · rw [if_neg hsame, node_onRows]
      split
      · rename_i heq
        subst heq
        have hother : cell.2 ≠ row := fun hrow => hsame (Prod.ext rfl hrow)
        rw [(hlinks _ hother).1, (hlinks _ hother).2]
        rfl
      · rfl

theorem linkBelow_tables (hg : g.WellFormed) (hfront : cells <+: g.cells)
    {above below : Option (Fin g.rows)} (habove : ∀ row ∈ above, (column, row) ∈ cells) :
    (l.tables cells a).linkBelow (slot (some column)) (nodeIn column above) (nodeIn column below) =
      .ok ((l.onRows column (·.linkAfter above below)).tables cells a) := by
  cases above with
  | none =>
    refine changeHeader_onRows cells a ?_ fun row => ?_
    · rw [header_onRows, if_pos rfl]
      simp [header]
    · simp
  | some row =>
    refine changeNode_onRows cells a hg hfront (habove row rfl) ?_ ?_ fun other hother => ?_
    · rw [node_onRows, if_pos rfl]
      simp [node]
    · simp
    · simp [hother.symm]

theorem linkAbove_tables (hg : g.WellFormed) (hfront : cells <+: g.cells)
    {above below : Option (Fin g.rows)} (hbelow : ∀ row ∈ below, (column, row) ∈ cells) :
    (l.tables cells a).linkAbove (slot (some column)) (nodeIn column below) (nodeIn column above) =
      .ok ((l.onRows column (·.linkBefore below above)).tables cells a) := by
  cases below with
  | none =>
    refine changeHeader_onRows cells a ?_ fun row => ?_
    · rw [header_onRows, if_pos rfl]
      simp [header]
    · simp
  | some row =>
    refine changeNode_onRows cells a hg hfront (hbelow row rfl) ?_ ?_ fun other hother => ?_
    · rw [node_onRows, if_pos rfl]
      simp [node]
    · simp
    · simp [hother.symm]

theorem shrink_tables (hsize : 0 < (l.rows column).size) :
    (l.tables cells a).shrink (slot (some column)) =
      .ok ((l.onRows column fun c => { c with size := c.size - 1 }).tables cells a) := by
  have hpos : ¬ (l.header column).size = 0 := Nat.pos_iff_ne_zero.mp hsize
  have hfetch : fetch (l.tables cells a).headers (slot (some column)) = .ok (l.header column) :=
    l.fetch_header column
  rw [Arena.shrink, hfetch, ok_bind, if_neg hpos]
  refine changeHeader_onRows cells a ?_ fun row => ⟨rfl, rfl⟩
  rw [header_onRows, if_pos rfl]
  rfl

theorem grow_tables : (l.tables cells a).grow (slot (some column)) =
    .ok ((l.onRows column fun c => { c with size := c.size + 1 }).tables cells a) := by
  refine changeHeader_onRows cells a ?_ fun row => ⟨rfl, rfl⟩
  rw [header_onRows, if_pos rfl]
  rfl

end Tables

end Links

namespace Search

variable {g : Grid} {C R σ : Type} {columnAt : Fin g.columns → C} {rowAt : Fin g.rows → R}
  (s : Search g σ) {l : Links g} {column : Fin g.columns}

theorem columnLabel_arena (column : Fin g.columns) :
    (s.arena columnAt rowAt).columnLabel (slot (some column)) = .ok (columnAt column) := by
  have hfetch := fetch_map_idxOf (List.mem_finRange column) columnAt
  rw [List.idxOf_finRange] at hfetch
  exact hfetch

theorem fetch_row_arena (row : Fin g.rows) : fetch (s.arena columnAt rowAt).rows row.val =
    .ok ⟨rowAt row, g.nodesBefore row, (g.cover row).length⟩ := by
  have hfetch := fetch_map_idxOf (List.mem_finRange row) fun row =>
    RowSpan.mk (rowAt row) (g.nodesBefore row) (g.cover row).length
  rw [List.idxOf_finRange] at hfetch
  exact hfetch

theorem rowLabel_arena (row : Fin g.rows) :
    (s.arena columnAt rowAt).rowLabel row.val = .ok (rowAt row) := by
  rw [Arena.rowLabel, fetch_row_arena]
  rfl

/-- The nodes of a row are those of its cells, in ascending order of columns. -/
theorem rowNodes_arena (hg : g.WellFormed) (row : Fin g.rows) :
    (s.arena columnAt rowAt).rowNodes row.val = .ok ((g.rowCells row).map Grid.nodeAt) := by
  rw [Arena.rowNodes, fetch_row_arena, hg.map_nodeAt_rowCells]
  rfl

theorem fetch_node_arena {cell : g.Cell} (hcell : cell ∈ g.cells) :
    fetch (s.arena columnAt rowAt).nodes (Grid.nodeAt cell) = .ok (s.links.node cell) :=
  Links.fetch_node hcell

theorem fetch_header_arena (column : Fin g.columns) :
    fetch (s.arena columnAt rowAt).headers (slot (some column)) = .ok (s.links.header column) :=
  s.links.fetch_header column

theorem linkBelow_arena (hg : g.WellFormed) {above below : Option (Fin g.rows)}
    (habove : ∀ row ∈ above, (column, row) ∈ g.cells) :
    (s.arena columnAt rowAt).linkBelow (slot (some column)) (Links.nodeIn column above)
        (Links.nodeIn column below) =
      .ok ({ s with links := s.links.onRows column (·.linkAfter above below) }.arena columnAt
        rowAt) :=
  Links.linkBelow_tables g.cells (s.arena columnAt rowAt) hg List.prefix_rfl habove

theorem linkAbove_arena (hg : g.WellFormed) {above below : Option (Fin g.rows)}
    (hbelow : ∀ row ∈ below, (column, row) ∈ g.cells) :
    (s.arena columnAt rowAt).linkAbove (slot (some column)) (Links.nodeIn column below)
        (Links.nodeIn column above) =
      .ok ({ s with links := s.links.onRows column (·.linkBefore below above) }.arena columnAt
        rowAt) :=
  Links.linkAbove_tables g.cells (s.arena columnAt rowAt) hg List.prefix_rfl hbelow

theorem shrink_arena (hsize : 0 < (s.links.rows column).size) :
    (s.arena columnAt rowAt).shrink (slot (some column)) =
      .ok ({ s with links := s.links.onRows column fun l => { l with size := l.size - 1 } }.arena
        columnAt rowAt) :=
  Links.shrink_tables g.cells (s.arena columnAt rowAt) hsize

theorem grow_arena :
    (s.arena columnAt rowAt).grow (slot (some column)) =
      .ok ({ s with links := s.links.onRows column fun l => { l with size := l.size + 1 } }.arena
        columnAt rowAt) :=
  Links.grow_tables g.cells (s.arena columnAt rowAt)

/-- A change of one header is a change of the lists that shows in this header only. -/
theorem changeHeader_arena {f : Header → Header} (hhead : l.head = s.links.head)
    (hheader : ∀ other, l.header other =
      if other = column then f (s.links.header column) else s.links.header other)
    (hnodes : ∀ cell, l.node cell = s.links.node cell) :
    (s.arena columnAt rowAt).changeHeader (slot (some column)) f =
      .ok ({ s with links := l }.arena columnAt rowAt) :=
  Links.changeHeader_tables g.cells (s.arena columnAt rowAt) hhead hheader hnodes

/-- A link to the right in the list of active columns, or the first active column. -/
theorem linkRight_arena (front back : Option (Fin g.columns)) :
    (s.arena columnAt rowAt).changeHeader (slot front) (fun h => { h with right := slot back }) =
      .ok ({ s with links.active := s.links.active.linkAfter front back }.arena columnAt
        rowAt) := by
  cases front with
  | none => rfl
  | some column =>
    refine s.changeHeader_arena rfl (fun other => ?_) fun cell => rfl
    by_cases heq : other = column
    · subst heq
      simp [Links.header, Links.rows, Links.due]
    · simp [Links.header, Links.rows, Links.due, heq, Ne.symm heq]

/-- A link to the left in the list of active columns, or the last active column. -/
theorem linkLeft_arena (back front : Option (Fin g.columns)) :
    (s.arena columnAt rowAt).changeHeader (slot back) (fun h => { h with left := slot front }) =
      .ok ({ s with links.active := s.links.active.linkBefore back front }.arena columnAt
        rowAt) := by
  cases back with
  | none => rfl
  | some column =>
    refine s.changeHeader_arena rfl (fun other => ?_) fun cell => rfl
    by_cases heq : other = column
    · subst heq
      simp [Links.header, Links.rows, Links.due]
    · simp [Links.header, Links.rows, Links.due, heq, Ne.symm heq]

/-- A change of an open amount. -/
theorem changeRemaining_arena (n : Int) :
    (s.arena columnAt rowAt).changeHeader (slot (some column))
        (fun h => { h with remaining := s.links.due column + n }) =
      .ok ({ s with links := s.links.addRemaining column n }.arena columnAt rowAt) := by
  refine s.changeHeader_arena rfl (fun other => ?_) fun cell => rfl
  have hdue := congrFun (s.links.due_addRemaining column n) other
  by_cases heq : other = column
  · subst heq
    rw [Function.update_self] at hdue
    rw [if_pos rfl, Links.header, hdue]
    rfl
  · rw [Function.update_of_ne heq] at hdue
    rw [if_neg heq, Links.header, hdue]
    rfl

end Search

end ExactCover
