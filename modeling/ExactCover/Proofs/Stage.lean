import ExactCover.Proofs.Grid

namespace ExactCover

/-- What the selected and the tried rows leave of a grid. -/
structure Stage (g : Grid) where
  /-- What every column still has to receive. -/
  due : Fin g.columns → Int
  /-- The columns that reached their targets, in the order in which they did. -/
  exhausted : List (Fin g.columns)
  /-- The rows that are selected or were tried at an open level, latest first. -/
  gone : List (Fin g.rows)

namespace Stage

variable {g : Grid}

/-- The stage of a grid from which nothing was taken. -/
def initial (g : Grid) : Stage g where
  due column := g.target column
  exhausted := []
  gone := []

/-- The stage without a row. -/
def withdraw (s : Stage g) (row : Fin g.rows) : Stage g := { s with gone := row :: s.gone }

/-- Takes an amount from what a column has to receive. -/
def charge (s : Stage g) (entry : Fin g.columns × Amount) : Stage g :=
  let due := s.due entry.1 - entry.2.toNat
  { s with
    due := Function.update s.due entry.1 due
    exhausted := if due ≤ 0 then s.exhausted ++ [entry.1] else s.exhausted }

/-- The columns of a selected row receive its amounts in ascending order. -/
def select (s : Stage g) (row : Fin g.rows) : Stage g :=
  (g.cover row).foldl charge (s.withdraw row)

/-- Of the columns of a row that are exhausted, the one that was exhausted first. -/
def hider (s : Stage g) (row : Fin g.rows) : Option (Fin g.columns) :=
  s.exhausted.find? fun column => column ∈ g.columnsOf row

/-- Whether a row is linked in a column. It is linked in its columns as long as all of them are
    open. Once some are exhausted it stays linked only in the one that was exhausted first, and a
    row that is gone is linked nowhere. -/
def Linked (s : Stage g) (cell : g.Cell) : Prop :=
  cell.1 ∈ g.columnsOf cell.2 ∧ cell.2 ∉ s.gone ∧ ∀ column ∈ s.hider cell.2, column = cell.1

instance (s : Stage g) : DecidablePred s.Linked := fun cell =>
  inferInstanceAs (Decidable (cell.1 ∈ g.columnsOf cell.2 ∧ cell.2 ∉ s.gone ∧
    ∀ column ∈ s.hider cell.2, column = cell.1))

/-- The rows linked in a column, in ascending order. -/
def rows (s : Stage g) (column : Fin g.columns) : List (Fin g.rows) :=
  (List.finRange g.rows).filter fun row => s.Linked (column, row)

/-- The columns that still have to receive something, in ascending order. -/
def active (s : Stage g) : List (Fin g.columns) :=
  (List.finRange g.columns).filter fun column => 0 < s.due column

/-- The active column in which the fewest rows are linked, the first of them where several do. -/
def bestColumn (s : Stage g) : Option (Fin g.columns) :=
  s.active.minOn? fun column => (s.rows column).length

/-- The cells that are taken out when a charge exhausts a column. -/
def lost (s : Stage g) (entry : Fin g.columns × Amount) : List g.Cell :=
  if s.due entry.1 - entry.2.toNat ≤ 0 then
    (s.rows entry.1).flatMap (Links.cellsOutside entry.1)
  else []

/-- The cells that are taken out by one charge after the other. -/
def lostAll : Stage g → List (Fin g.columns × Amount) → List g.Cell
  | _, [] => []
  | s, entry :: rest => s.lost entry ++ (s.charge entry).lostAll rest

/-- The cells of other rows that the selection of a row takes out. -/
def hidden (s : Stage g) (row : Fin g.rows) : List g.Cell :=
  (s.withdraw row).lostAll (g.cover row)

/-- Whether the columns of a row are all open and the row is not gone. -/
def Available (s : Stage g) (row : Fin g.rows) : Prop :=
  row ∉ s.gone ∧ ∀ column ∈ g.columnsOf row, column ∉ s.exhausted

/-- The exhausted columns are those that have nothing left to receive. -/
def Settled (s : Stage g) : Prop := ∀ column, column ∈ s.exhausted ↔ s.due column ≤ 0

/-- From the first stage to the second exactly the given cells are taken out. -/
structure Loses (s : Stage g) (cells : List g.Cell) (t : Stage g) : Prop where
  nodup : cells.Nodup
  linked : ∀ cell ∈ cells, s.Linked cell
  linked_iff : ∀ cell, t.Linked cell ↔ s.Linked cell ∧ cell ∉ cells

@[simp]
theorem gone_charge (s : Stage g) (entry : Fin g.columns × Amount) :
    (s.charge entry).gone = s.gone := rfl

theorem mem_rows {s : Stage g} {column : Fin g.columns} {row : Fin g.rows} :
    row ∈ s.rows column ↔ s.Linked (column, row) := by
  simp [rows]

theorem rows_ascending (s : Stage g) (column : Fin g.columns) :
    (s.rows column).Pairwise (· < ·) :=
  (List.pairwise_lt_finRange g.rows).filter _

theorem rows_nodup (s : Stage g) (column : Fin g.columns) : (s.rows column).Nodup :=
  (s.rows_ascending column).imp ne_of_lt

theorem Loses.refl (s : Stage g) : s.Loses [] s :=
  ⟨List.nodup_nil, by simp, by simp⟩

/-- What is lost on the way from one stage to another is lost in the order of the way. -/
theorem Loses.trans {s t u : Stage g} {cells cells' : List g.Cell} (hst : s.Loses cells t)
    (htu : t.Loses cells' u) : s.Loses (cells ++ cells') u := by
  refine ⟨?_, ?_, ?_⟩
  · refine List.nodup_append.mpr ⟨hst.nodup, htu.nodup, ?_⟩
    rintro cell hcell _ hcell' rfl
    exact ((hst.linked_iff cell).mp (htu.linked cell hcell')).2 hcell
  · intro cell hcell
    obtain hcell | hcell := List.mem_append.mp hcell
    · exact hst.linked cell hcell
    · exact ((hst.linked_iff cell).mp (htu.linked cell hcell)).1
  · intro cell
    rw [htu.linked_iff, hst.linked_iff, List.mem_append]
    tauto

/-- A row linked in an open column is linked in all its columns. -/
theorem Linked.available {s : Stage g} {cell : g.Cell} (h : s.Linked cell)
    (hopen : cell.1 ∉ s.exhausted) : s.Available cell.2 := by
  refine ⟨h.2.1, fun column hcolumn hexhausted => ?_⟩
  cases hhider : s.hider cell.2 with
  | none =>
    have := List.find?_eq_none.mp hhider column hexhausted
    simp [hcolumn] at this
  | some first =>
    have hfirst : first = cell.1 := h.2.2 first hhider
    exact hopen (hfirst ▸ List.mem_of_find?_eq_some hhider)

/-- No column of an available row is exhausted. -/
theorem Available.hider_eq_none {s : Stage g} {row : Fin g.rows} (h : s.Available row) :
    s.hider row = none := by
  rw [hider, List.find?_eq_none]
  intro column hexhausted hcolumn
  exact h.2 column (by simpa using hcolumn) hexhausted

theorem Available.linked {s : Stage g} {row : Fin g.rows} (h : s.Available row)
    {column : Fin g.columns} (hcolumn : column ∈ g.columnsOf row) : s.Linked (column, row) :=
  ⟨hcolumn, h.1, by simp [h.hider_eq_none]⟩

/-- Withdrawing an available row loses its cells. -/
theorem loses_withdraw (hg : g.WellFormed) {s : Stage g} {row : Fin g.rows}
    (h : s.Available row) : s.Loses (g.rowCells row) (s.withdraw row) := by
  refine ⟨hg.ascending.rowCells_nodup row, ?_, ?_⟩
  · rintro ⟨column, row'⟩ hcell
    obtain ⟨hcolumn, rfl⟩ := Grid.mem_rowCells.mp hcell
    exact h.linked hcolumn
  · rintro ⟨column, row'⟩
    simp only [Grid.mem_rowCells, Linked, withdraw, hider, List.mem_cons]
    by_cases hrow : row' = row
    · subst hrow
      tauto
    · simp [hrow]

theorem mem_cellsOutside {column : Fin g.columns} {row : Fin g.rows} {cell : g.Cell} :
    cell ∈ Links.cellsOutside column row ↔
      cell.1 ∈ g.columnsOf row ∧ cell.2 = row ∧ cell.1 ≠ column := by
  simp [Links.cellsOutside, Grid.mem_rowCells, and_assoc]

/-- A charge that exhausts its column takes the rows linked there out of all other columns. -/
theorem mem_lost {s : Stage g} {entry : Fin g.columns × Amount}
    (hdue : s.due entry.1 - entry.2.toNat ≤ 0) {cell : g.Cell} :
    cell ∈ s.lost entry ↔
      cell.1 ∈ g.columnsOf cell.2 ∧ cell.1 ≠ entry.1 ∧ s.Linked (entry.1, cell.2) := by
  rw [lost, if_pos hdue, List.mem_flatMap]
  constructor
  · rintro ⟨row, hrow, hcell⟩
    obtain ⟨hcolumn, rfl, hne⟩ := mem_cellsOutside.mp hcell
    exact ⟨hcolumn, hne, mem_rows.mp hrow⟩
  · rintro ⟨hcolumn, hne, hlinked⟩
    exact ⟨cell.2, mem_rows.mpr hlinked, mem_cellsOutside.mpr ⟨hcolumn, rfl, hne⟩⟩

/-- No cell is listed twice among those that different rows have outside a column. -/
theorem cellsOutside_nodup (hg : g.Ascending) (column : Fin g.columns) {rows : List (Fin g.rows)}
    (h : rows.Nodup) : (rows.flatMap (Links.cellsOutside column)).Nodup := by
  refine List.nodup_flatMap.mpr ⟨fun row _ => (hg.rowCells_nodup row).filter _, ?_⟩
  refine h.imp fun hne => ?_
  intro cell hcell hcell'
  exact hne ((mem_cellsOutside.mp hcell).2.1.symm.trans (mem_cellsOutside.mp hcell').2.1)

theorem lost_nodup (hg : g.WellFormed) (s : Stage g) (entry : Fin g.columns × Amount) :
    (s.lost entry).Nodup := by
  unfold lost
  split
  · exact cellsOutside_nodup hg.ascending entry.1 (s.rows_nodup entry.1)
  · exact List.nodup_nil

/-- A charge that exhausts its column makes it the first exhausted one of the rows that had none
    before. -/
theorem hider_charge {s : Stage g} {entry : Fin g.columns × Amount}
    (hdue : s.due entry.1 - entry.2.toNat ≤ 0) (row : Fin g.rows) :
    (s.charge entry).hider row =
      (s.hider row).or (if entry.1 ∈ g.columnsOf row then some entry.1 else none) := by
  simp [hider, charge, hdue, List.find?_append, List.find?_singleton]

theorem linked_iff_of_none {s : Stage g} {cell : g.Cell} (h : s.hider cell.2 = none) :
    s.Linked cell ↔ cell.1 ∈ g.columnsOf cell.2 ∧ cell.2 ∉ s.gone := by
  simp [Linked, h]

theorem linked_iff_of_some {s : Stage g} {cell : g.Cell} {first : Fin g.columns}
    (h : s.hider cell.2 = some first) :
    s.Linked cell ↔ cell.1 ∈ g.columnsOf cell.2 ∧ cell.2 ∉ s.gone ∧ first = cell.1 := by
  simp [Linked, h]

/-- Of the rows linked in a column that is exhausted now, only the cells in that column stay. -/
theorem linked_charge_iff {s : Stage g} {entry : Fin g.columns × Amount}
    (hopen : entry.1 ∉ s.exhausted) (hdue : s.due entry.1 - entry.2.toNat ≤ 0) (cell : g.Cell) :
    (s.charge entry).Linked cell ↔
      s.Linked cell ∧ (cell.1 = entry.1 ∨ ¬ s.Linked (entry.1, cell.2)) := by
  have hcharge := hider_charge hdue cell.2
  cases hhider : s.hider cell.2 with
  | none =>
    have hentry : s.Linked (entry.1, cell.2) ↔ _ := linked_iff_of_none hhider
    rw [hhider, Option.none_or] at hcharge
    rw [linked_iff_of_none hhider, hentry]
    by_cases hcolumn : entry.1 ∈ g.columnsOf cell.2
    · rw [if_pos hcolumn] at hcharge
      rw [linked_iff_of_some hcharge, gone_charge]
      grind
    · rw [if_neg hcolumn] at hcharge
      rw [linked_iff_of_none hcharge, gone_charge]
      tauto
  | some first =>
    -- The row was hidden before, by a column that is not the one exhausted now.
    have hentry : s.Linked (entry.1, cell.2) ↔ _ := linked_iff_of_some hhider
    have hne : first ≠ entry.1 := ne_of_mem_of_not_mem (List.mem_of_find?_eq_some hhider) hopen
    rw [hhider, Option.some_or] at hcharge
    rw [linked_iff_of_some hcharge, linked_iff_of_some hhider, hentry, gone_charge]
    tauto

/-- A charge that exhausts its column loses the cells that the linked rows have outside it, any
    other charge loses none. -/
theorem loses_charge (hg : g.WellFormed) {s : Stage g} {entry : Fin g.columns × Amount}
    (hopen : entry.1 ∉ s.exhausted) : s.Loses (s.lost entry) (s.charge entry) := by
  by_cases hdue : s.due entry.1 - entry.2.toNat ≤ 0
  · refine ⟨s.lost_nodup hg entry, fun cell hcell => ?_, fun cell => ?_⟩
    · obtain ⟨hcolumn, _, hlinked⟩ := (mem_lost hdue).mp hcell
      exact (hlinked.available hopen).linked hcolumn
    · rw [linked_charge_iff hopen hdue, mem_lost hdue]
      have hcolumn : s.Linked cell → cell.1 ∈ g.columnsOf cell.2 := And.left
      tauto
  · have hlost : s.lost entry = [] := by rw [lost, if_neg hdue]
    rw [hlost]
    refine ⟨List.nodup_nil, by simp, fun cell => ?_⟩
    simp [Linked, hider, charge, hdue]

/-- A charge exhausts no column but its own. -/
theorem mem_exhausted_charge {s : Stage g} {entry : Fin g.columns × Amount}
    {column : Fin g.columns} (h : column ∈ (s.charge entry).exhausted) :
    column ∈ s.exhausted ∨ column = entry.1 := by
  unfold charge at h
  dsimp only at h
  split at h
  · simpa using h
  · exact .inl h

/-- After a charge to an open column, the exhausted columns still are those that have nothing left
    to receive. -/
theorem Settled.charge {s : Stage g} (h : s.Settled) {entry : Fin g.columns × Amount}
    (hopen : entry.1 ∉ s.exhausted) : (s.charge entry).Settled := by
  intro column
  have hold := h column
  by_cases heq : column = entry.1
  · subst heq
    by_cases hdue : s.due entry.1 - entry.2.toNat ≤ 0 <;> simp [Stage.charge, hdue, hopen]
  · by_cases hdue : s.due entry.1 - entry.2.toNat ≤ 0 <;> simp [Stage.charge, hdue, heq, hold]

/-- Of the columns yet to be charged, a charge exhausts none. -/
theorem open_after_charge {s : Stage g} {entry : Fin g.columns × Amount}
    {rest : List (Fin g.columns × Amount)} (hnodup : ((entry :: rest).map (·.1)).Nodup)
    (hopen : ∀ e ∈ entry :: rest, e.1 ∉ s.exhausted) :
    (rest.map (·.1)).Nodup ∧ ∀ e ∈ rest, e.1 ∉ (s.charge entry).exhausted := by
  obtain ⟨hhead, hrest⟩ := List.nodup_cons.mp hnodup
  refine ⟨hrest, fun e he hexhausted => ?_⟩
  obtain hold | heq := mem_exhausted_charge hexhausted
  · exact hopen e (List.mem_cons_of_mem _ he) hold
  · exact hhead (List.mem_map.mpr ⟨e, he, heq⟩)

/-- What one charge after the other does to a stage in which the charged columns are open. -/
theorem chargeAll_spec (hg : g.WellFormed) {s : Stage g} {entries : List (Fin g.columns × Amount)}
    (hs : s.Settled) (hnodup : (entries.map (·.1)).Nodup)
    (hopen : ∀ e ∈ entries, e.1 ∉ s.exhausted) :
    s.Loses (s.lostAll entries) (entries.foldl charge s) ∧ (entries.foldl charge s).Settled := by
  induction entries generalizing s with
  | nil => exact ⟨.refl s, hs⟩
  | cons entry rest ih =>
    have hentry := hopen entry List.mem_cons_self
    obtain ⟨hrestNodup, hrestOpen⟩ := open_after_charge hnodup hopen
    obtain ⟨hloses, hsettled⟩ := ih (hs.charge hentry) hrestNodup hrestOpen
    exact ⟨(loses_charge hg hentry).trans hloses, hsettled⟩

theorem gone_chargeAll (s : Stage g) (entries : List (Fin g.columns × Amount)) :
    (entries.foldl charge s).gone = s.gone := by
  induction entries generalizing s with
  | nil => rfl
  | cons entry rest ih => rw [List.foldl_cons, ih, gone_charge]

theorem due_chargeAll (s : Stage g) {entries : List (Fin g.columns × Amount)}
    (hnodup : (entries.map (·.1)).Nodup) (column : Fin g.columns) :
    (entries.foldl charge s).due column = s.due column - Grid.given entries column :=
  Grid.due_foldl (fun _ _ => rfl) s hnodup column

@[simp]
theorem gone_select (s : Stage g) (row : Fin g.rows) : (s.select row).gone = row :: s.gone :=
  gone_chargeAll _ _

/-- A selection takes from every column what its row gives. -/
theorem due_select (hg : g.WellFormed) (s : Stage g) (row : Fin g.rows) (column : Fin g.columns) :
    (s.select row).due column = s.due column - g.amount row column :=
  due_chargeAll _ (hg.columns_nodup row) column

/-- Charging different columns exhausts those of them that get all they have to receive. -/
theorem exhausted_chargeAll (s : Stage g) {entries : List (Fin g.columns × Amount)}
    (hnodup : (entries.map (·.1)).Nodup) :
    (entries.foldl charge s).exhausted = s.exhausted ++
      (entries.filter fun e => s.due e.1 - e.2.toNat ≤ 0).map (·.1) := by
  induction entries generalizing s with
  | nil => simp
  | cons entry rest ih =>
    obtain ⟨hhead, hrest⟩ := List.nodup_cons.mp hnodup
    have hdue : ∀ e ∈ rest, (s.charge entry).due e.1 = s.due e.1 := by
      intro e he
      refine Function.update_of_ne (fun heq => hhead ?_) _ _
      exact List.mem_map.mpr ⟨e, he, heq⟩
    have hfilter : (rest.filter fun e => (s.charge entry).due e.1 - e.2.toNat ≤ 0) =
        rest.filter fun e => s.due e.1 - e.2.toNat ≤ 0 :=
      List.filter_congr fun e he => by rw [hdue e he]
    rw [List.foldl_cons, ih (s.charge entry) hrest, hfilter, List.filter_cons]
    by_cases hzero : s.due entry.1 - entry.2.toNat ≤ 0
    · simp only [charge, hzero, decide_true, if_true, List.map_cons,
        List.append_assoc, List.singleton_append]
    · simp only [charge, hzero, decide_false, Bool.false_eq_true, if_false]

/-- A selection exhausts the columns of the row that get all they have to receive. -/
theorem exhausted_select (hg : g.WellFormed) (s : Stage g) (row : Fin g.rows) :
    (s.select row).exhausted = s.exhausted ++
      (g.columnsOf row).filter fun column => s.due column - g.amount row column ≤ 0 := by
  rw [select, exhausted_chargeAll _ (hg.columns_nodup row), Grid.columnsOf, List.filter_map]
  refine congrArg (fun cs => s.exhausted ++ List.map _ cs) (List.filter_congr fun e he => ?_)
  rw [Function.comp_apply, hg.amount_of_mem he]
  rfl

/-- The columns of an available row are open, also right after it is withdrawn. -/
theorem Available.open_withdraw {s : Stage g} {row : Fin g.rows} (h : s.Available row) :
    ∀ e ∈ g.cover row, e.1 ∉ (s.withdraw row).exhausted := fun e he =>
  h.2 e.1 (List.mem_map_of_mem he)

/-- Once a row is withdrawn, the charges of its columns take out the hidden cells of other rows. -/
theorem loses_hidden (hg : g.WellFormed) {s : Stage g} {row : Fin g.rows} (hs : s.Settled)
    (hrow : s.Available row) :
    (s.withdraw row).Loses (s.hidden row) (s.select row) ∧ (s.select row).Settled :=
  chargeAll_spec hg hs (hg.columns_nodup row) hrow.open_withdraw

/-- What the selection of an available row does: the row loses its cells, then other rows do. -/
theorem select_spec (hg : g.WellFormed) {s : Stage g} {row : Fin g.rows} (hs : s.Settled)
    (hrow : s.Available row) :
    s.Loses (g.rowCells row ++ s.hidden row) (s.select row) ∧ (s.select row).Settled := by
  obtain ⟨hloses, hsettled⟩ := loses_hidden hg hs hrow
  exact ⟨(loses_withdraw hg hrow).trans hloses, hsettled⟩

theorem settled_initial (hg : g.WellFormed) : (initial g).Settled := by
  intro column
  have hpos := hg.target_pos column
  simp only [initial, List.not_mem_nil, false_iff]
  omega

/-- The active columns are those that are not exhausted. -/
theorem Settled.active_eq {s : Stage g} (h : s.Settled) :
    s.active = (List.finRange g.columns).filter fun column => column ∉ s.exhausted := by
  refine List.filter_congr fun column _ => ?_
  simp [h column]

theorem Settled.mem_active {s : Stage g} (h : s.Settled) {column : Fin g.columns} :
    column ∈ s.active ↔ column ∉ s.exhausted := by
  rw [h.active_eq]
  simp

/-- A row that is not gone is linked in all its columns, or only in the one exhausted first. -/
theorem linked_cases {s : Stage g} (hs : s.Settled) {row : Fin g.rows} (hrow : row ∉ s.gone) :
    ((∀ column ∈ g.columnsOf row, 0 < s.due column) →
      ∀ column, s.Linked (column, row) ↔ column ∈ g.columnsOf row) ∧
    (¬ (∀ column ∈ g.columnsOf row, 0 < s.due column) →
      ∃ first, s.exhausted.find? (· ∈ g.columnsOf row) = some first ∧
        ∀ column, s.Linked (column, row) ↔ column = first) := by
  constructor
  · intro hopen column
    have havailable : s.Available row := ⟨hrow, fun c hc hexhausted => by
      have hpos := hopen c hc
      have hdue := (hs c).mp hexhausted
      omega⟩
    exact ⟨fun h => h.1, havailable.linked⟩
  · intro hcovered
    cases hfirst : s.exhausted.find? (· ∈ g.columnsOf row) with
    | none =>
      rw [List.find?_eq_none] at hfirst
      refine absurd (fun c hc => ?_) hcovered
      by_contra hdue
      exact hfirst c ((hs c).mpr (by omega)) (by simpa using hc)
    | some first =>
      have hmem : first ∈ g.columnsOf row := by simpa using List.find?_some hfirst
      refine ⟨first, rfl, fun column => ?_⟩
      have hlinked : s.Linked (column, row) ↔ _ := linked_iff_of_some hfirst
      rw [hlinked]
      constructor
      · rintro ⟨-, -, rfl⟩
        rfl
      · rintro rfl
        exact ⟨hmem, hrow, rfl⟩

end Stage

end ExactCover
