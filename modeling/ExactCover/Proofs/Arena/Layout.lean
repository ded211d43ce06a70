import ExactCover.Proofs.Arena.Basic
import ExactCover.Proofs.Links

namespace ExactCover

section Tables

variable {α β ι : Type}

@[simp]
theorem ok_bind (x : α) (f : α → Except Fault β) : (Except.ok x >>= f) = f x := rfl

theorem fetch_of_getElem? {xs : List α} {i : Nat} {x : α} (h : xs[i]? = some x) :
    fetch xs i = .ok x := by
  rw [fetch, h]
  rfl

theorem change_cons_succ (x : α) (xs : List α) (i : Nat) (f : α → α) :
    change (x :: xs) (i + 1) f = (change xs i f).map (x :: ·) := by
  simp only [change, List.length_cons, Nat.add_lt_add_iff_right]
  split <;> rfl

theorem splitOff_append (xs ys : List α) : splitOff (xs ++ ys) ys.length = .ok (xs, ys) := by
  have hcount : (xs ++ ys).length - ys.length = xs.length := by simp
  rw [splitOff, if_neg (by simp), hcount, List.take_left, List.drop_left]

/-- Steps that meet no fault, one for each element. -/
theorem mapM_eq_ok {f : α → Except Fault β} {value : α → β} {xs : List α}
    (h : ∀ x ∈ xs, f x = .ok (value x)) : xs.mapM f = .ok (xs.map value) := by
  induction xs with
  | nil => rfl
  | cons x xs ih =>
    rw [List.mapM_cons, h x List.mem_cons_self, ok_bind,
      ih fun y hy => h y (List.mem_cons_of_mem x hy)]
    rfl

/-- A loop over a list whose state depends on what is done so far. -/
theorem foldlM_eq_ok {f : β → α → Except Fault β} (state : List α → β) (xs : List α)
    (h : ∀ done x todo, xs = done ++ x :: todo → f (state done) x = .ok (state (done ++ [x]))) :
    xs.foldlM f (state []) = .ok (state xs) := by
  suffices hloop : ∀ todo done, xs = done ++ todo →
      todo.foldlM f (state done) = .ok (state xs) from hloop xs [] rfl
  intro todo
  induction todo with
  | nil =>
    rintro done rfl
    rw [List.append_nil]
    rfl
  | cons x todo ih =>
    intro done hxs
    rw [List.foldlM_cons, h done x todo hxs, ok_bind]
    exact ih (done ++ [x]) (by simpa using hxs)

/-- The positions below a bound are those in front of one, that one and those behind it. -/
theorem finRange_eq_append {n : Nat} (i : Fin n) :
    List.finRange n = (List.finRange n).take i ++ i :: (List.finRange n).drop (i + 1) := by
  have hsplit := List.take_append_drop i.val (List.finRange n)
  rw [List.drop_eq_getElem_cons (by simp), List.getElem_finRange] at hsplit
  exact hsplit.symm

variable [BEq ι] [LawfulBEq ι] {keys : List ι} {key : ι}

/-- A table with an entry for each key, in the order of the keys. -/
theorem fetch_map_idxOf (hkey : key ∈ keys) (f : ι → α) :
    fetch (keys.map f) (keys.idxOf key) = .ok (f key) := by
  have hlt := List.idxOf_lt_length_of_mem hkey
  refine fetch_of_getElem? ?_
  rw [List.getElem?_map, List.getElem?_eq_getElem hlt, List.getElem_idxOf]
  rfl

/-- A change at the place of a key in a table that is indexed by keys. -/
theorem change_map_idxOf [DecidableEq ι] (hnodup : keys.Nodup) (hkey : key ∈ keys) (f : ι → α)
    (h : α → α) :
    change (keys.map f) (keys.idxOf key) h =
      .ok (keys.map fun other => if other = key then h (f key) else f other) := by
  have hlt := List.idxOf_lt_length_of_mem hkey
  rw [change, if_pos (by rwa [List.length_map])]
  refine congrArg Except.ok (List.ext_getElem (by simp) fun i hi _ => ?_)
  have hi : i < keys.length := by simpa using hi
  rw [List.getElem_modify, List.getElem_map, List.getElem_map]
  by_cases heq : keys.idxOf key = i
  · subst heq
    rw [if_pos rfl, List.getElem_idxOf, if_pos rfl]
  · rw [if_neg heq, if_neg]
    exact fun hget => heq (hget ▸ hnodup.idxOf_getElem i hi)

end Tables

namespace Grid

variable {g : Grid}

/-- The cells of a grid, row by row. -/
def cells (g : Grid) : List g.Cell := (List.finRange g.rows).flatMap g.rowCells

/-- The number of the node of a cell. -/
def nodeAt (cell : g.Cell) : Nat := g.cells.idxOf cell

/-- The number of nodes in front of those of a row. -/
def nodesBefore (g : Grid) (row : Fin g.rows) : Nat :=
  (((List.finRange g.rows).take row).flatMap g.rowCells).length

/-- What the row of a cell gives to its column. -/
def weight (cell : g.Cell) : Amount :=
  ((g.cover cell.2).find? fun entry => entry.1 = cell.1).elim 0 fun entry => entry.2

theorem mem_cells {cell : g.Cell} : cell ∈ g.cells ↔ cell.1 ∈ g.columnsOf cell.2 := by
  rw [cells, List.mem_flatMap]
  constructor
  · rintro ⟨row, -, hcell⟩
    obtain ⟨hcolumn, rfl⟩ := mem_rowCells.mp hcell
    exact hcolumn
  · intro hcolumn
    exact ⟨cell.2, List.mem_finRange _, mem_rowCells.mpr ⟨hcolumn, rfl⟩⟩

theorem mem_cells_of_mem_rowCells {row : Fin g.rows} {cell : g.Cell} (h : cell ∈ g.rowCells row) :
    cell ∈ g.cells := List.mem_flatMap.mpr ⟨row, List.mem_finRange _, h⟩

theorem length_rowCells (row : Fin g.rows) : (g.rowCells row).length = (g.cover row).length :=
  List.length_map _

theorem WellFormed.cells_nodup (hg : g.WellFormed) : g.cells.Nodup := by
  refine List.nodup_flatMap.mpr ⟨fun row _ => hg.ascending.rowCells_nodup row, ?_⟩
  refine (List.nodup_finRange g.rows).imp fun hne cell hcell hcell' => hne ?_
  exact (mem_rowCells.mp hcell).2.symm.trans (mem_rowCells.mp hcell').2

theorem nodeAt_inj {cell other : g.Cell} (h : cell ∈ g.cells) :
    nodeAt cell = nodeAt other ↔ cell = other := List.idxOf_inj h

/-- The node of a cell is its place among the cells that have nodes so far. -/
theorem nodeAt_eq_idxOf {cells : List g.Cell} (hfront : cells <+: g.cells) {cell : g.Cell}
    (h : cell ∈ cells) : nodeAt cell = cells.idxOf cell := by
  obtain ⟨rest, hrest⟩ := hfront
  rw [nodeAt, ← hrest, List.idxOf_append_of_mem h]

/-- A cell weighs what its row gives to its column. -/
theorem WellFormed.weight_of_mem (hg : g.WellFormed) {row : Fin g.rows}
    {entry : Fin g.columns × Amount} (hentry : entry ∈ g.cover row) :
    weight (entry.1, row) = entry.2 := by
  have hamount := hg.amount_of_mem hentry
  rw [amount, given] at hamount
  rw [weight]
  cases hfind : (g.cover row).find? fun e => e.1 = entry.1 with
  | none =>
    rw [List.find?_eq_none] at hfind
    simpa using hfind entry hentry
  | some found =>
    rw [hfind] at hamount
    exact UInt32.toNat_inj.mp hamount

/-- The cells of a grid from a row on follow those of the rows in front of it. -/
theorem cells_eq_append (row : Fin g.rows) :
    g.cells = ((List.finRange g.rows).take row).flatMap g.rowCells ++ g.rowCells row ++
      ((List.finRange g.rows).drop (row + 1)).flatMap g.rowCells := by
  conv_lhs => rw [cells, finRange_eq_append row]
  simp [List.flatMap_append, List.append_assoc]

/-- The nodes of a row have successive numbers. -/
theorem WellFormed.map_nodeAt_rowCells (hg : g.WellFormed) (row : Fin g.rows) :
    (g.rowCells row).map nodeAt = List.range' (g.nodesBefore row) (g.cover row).length := by
  have hnodup := hg.cells_nodup
  refine List.ext_getElem (by simp [length_rowCells]) fun i hi _ => ?_
  have hi : i < (g.rowCells row).length := by simpa using hi
  rw [List.getElem_map, List.getElem_range', Nat.one_mul]
  have hlength : g.nodesBefore row + i < g.cells.length := by
    rw [cells_eq_append row, List.length_append, List.length_append]
    exact Nat.lt_of_lt_of_le (Nat.add_lt_add_left hi _) (Nat.le_add_right _ _)
  have hget : g.cells[g.nodesBefore row + i] = (g.rowCells row)[i] := by
    simp only [cells_eq_append row, nodesBefore]
    rw [List.getElem_append_left (by simpa using hi), List.getElem_append_right (by simp)]
    simp
  rw [← hget]
  exact hnodup.idxOf_getElem _ hlength

end Grid

/-- The number of the header of a column, or of the head of the active columns. -/
def slot {n : Nat} (column : Option (Fin n)) : Nat := column.elim 0 fun i => i.val + 1

@[simp]
theorem slot_none {n : Nat} : slot (none : Option (Fin n)) = 0 := rfl

@[simp]
theorem slot_some {n : Nat} (i : Fin n) : slot (some i) = i.val + 1 := rfl

namespace Links

variable {g : Grid}

/-- The number of the node of a row, if any, in a column. -/
def nodeIn (column : Fin g.columns) (row : Option (Fin g.rows)) : Option Nat :=
  row.map fun r => Grid.nodeAt (column, r)

/-- The head of the active columns. -/
def head (l : Links g) : Header where
  left := slot l.active.last
  right := slot l.active.first
  firstNode := none
  lastNode := none
  size := 0
  remaining := 0

/-- The header of a column. -/
def header (l : Links g) (column : Fin g.columns) : Header where
  left := slot (l.active.before column)
  right := slot (l.active.after column)
  firstNode := nodeIn column (l.rows column).first
  lastNode := nodeIn column (l.rows column).last
  size := (l.rows column).size
  remaining := l.due column

/-- The table of headers: the head and then the columns in order. -/
def headers (l : Links g) : List Header := l.head :: (List.finRange g.columns).map l.header

/-- The node of a cell. -/
def node (l : Links g) (cell : g.Cell) : Node where
  column := slot (some cell.1)
  row := cell.2
  above := nodeIn cell.1 ((l.rows cell.1).before cell.2)
  below := nodeIn cell.1 ((l.rows cell.1).after cell.2)
  amount := Grid.weight cell

/-- The table of nodes: the cells of the grid in order. -/
def nodes (l : Links g) : List Node := g.cells.map l.node

variable (l : Links g)

theorem fetch_header (column : Fin g.columns) :
    fetch l.headers (column.val + 1) = .ok (l.header column) := by
  have hfetch := fetch_map_idxOf (List.mem_finRange column) l.header
  rw [List.idxOf_finRange] at hfetch
  exact hfetch

theorem change_header (column : Fin g.columns) (f : Header → Header) :
    change l.headers (column.val + 1) f = .ok (l.head :: (List.finRange g.columns).map
      fun other => if other = column then f (l.header column) else l.header other) := by
  have hchange := change_map_idxOf (List.nodup_finRange _) (List.mem_finRange column) l.header f
  rw [List.idxOf_finRange] at hchange
  rw [headers, change_cons_succ, hchange]
  rfl

variable {l}

theorem fetch_node {cell : g.Cell} (hcell : cell ∈ g.cells) :
    fetch l.nodes (Grid.nodeAt cell) = .ok (l.node cell) := fetch_map_idxOf hcell l.node

end Links

namespace Search

variable {g : Grid} {C R σ : Type}

/-- The rows that were tried at some levels, latest first. -/
def triedAt (frames : List (Frame g)) : List (Fin g.rows) := frames.flatMap (·.tried)

/-- A level in the tables. -/
def level (column : Fin g.columns) (current : Option (Fin g.rows)) (outer : List (Frame g)) :
    Level where
  column := slot (some column)
  current := Links.nodeIn column current
  tried := (triedAt outer).length

/-- The levels of a search in its tables. -/
def levels : List (Frame g) → List Level
  | [] => []
  | frame :: outer => level frame.column frame.current outer :: levels outer

/-- The tables of a search, with labels for its columns and rows. The nodes are the cells of the
    grid, row by row, and every link is the number of a header or of a node. -/
def arena (columnAt : Fin g.columns → C) (rowAt : Fin g.rows → R) (s : Search g σ) :
    Arena C R σ where
  labels := (List.finRange g.columns).map columnAt
  headers := s.links.headers
  nodes := s.links.nodes
  rows := (List.finRange g.rows).map fun row =>
    ⟨rowAt row, g.nodesBefore row, (g.cover row).length⟩
  levels := levels s.frames
  selected := s.selected.map (·.val)
  tried := (triedAt s.frames).map (·.val)
  phase := s.phase
  statistics := s.statistics
  observed := s.observed

end Search

end ExactCover
