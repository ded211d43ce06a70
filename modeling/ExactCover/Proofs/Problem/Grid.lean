import ExactCover.Exploration
import ExactCover.Problem.Solution
import ExactCover.Proofs.Grid
import ExactCover.Proofs.Problem.WellFormed
import ExactCover.Proofs.SortedSet

namespace ExactCover.Problem

variable {C R : Type} [Ord C] {p : Problem C R}

/-- The labels of a cell of the grid. -/
def pairAt (p : Problem C R) (cell : p.grid.Cell) : C × R := (p.columnAt cell.1, p.rowAt cell.2)

theorem columns_eq (p : Problem C R) :
    p.columns = (List.finRange p.grid.columns).map p.columnAt := by
  rw [columns, SortedMap.keys, ← SortedMap.map_entry, List.map_map]
  rfl

theorem mem_columns {column : C} : column ∈ p.columns ↔ ∃ i, p.columnAt i = column := by
  rw [columns_eq]
  simp

theorem rowKeys_eq (p : Problem C R) : p.rows.keys = (List.finRange p.grid.rows).map p.rowAt := by
  rw [SortedMap.keys, ← SortedMap.map_entry, List.map_map]
  rfl

theorem grid_target (p : Problem C R) (i : Fin p.grid.columns) :
    p.grid.target i = (p.targets.entry i).2.toNat :=
  congrArg UInt32.toNat (Vector.getElem_ofFn i.2)

theorem grid_cover (p : Problem C R) (row : Fin p.grid.rows) :
    p.grid.cover row = p.positions (p.rows.entry row).2 := Vector.getElem_ofFn row.2

variable [Ord R]

/-- Labels of columns ascend with their positions. -/
theorem WellFormed.compare_columnAt (hp : p.WellFormed) {i j : Fin p.grid.columns} (h : i < j) :
    compare (p.columnAt i) (p.columnAt j) = .lt := hp.targets_ascending.compare_entry h

theorem WellFormed.compare_rowAt (hp : p.WellFormed) {i j : Fin p.grid.rows} (h : i < j) :
    compare (p.rowAt i) (p.rowAt j) = .lt := hp.rows_ascending.compare_entry h

variable [Std.TransOrd C] [Std.LawfulEqOrd C]

omit [Std.TransOrd C] in
theorem WellFormed.columnAt_injective (hp : p.WellFormed) : Function.Injective p.columnAt :=
  fun _ _ h => hp.targets_ascending.entry_inj h

theorem WellFormed.lt_of_compare_columnAt (hp : p.WellFormed) {i j : Fin p.grid.columns}
    (h : compare (p.columnAt i) (p.columnAt j) = .lt) : i < j := by
  obtain hij | rfl | hij := lt_trichotomy i j
  · exact hij
  · exact absurd rfl (SortedMap.ne_of_compare_lt h)
  · have hgt := Std.OrientedCmp.gt_of_lt (hp.compare_columnAt hij)
    rw [h] at hgt
    cases hgt

omit [Ord R] in
/-- A cover of known columns, by their labels. -/
theorem positions_labels (hp : p.targets.Ascending) {cover : Cover C}
    (hknown : ∀ x ∈ cover.entries, x.1 ∈ p.targets.keys) :
    (p.positions cover).map (fun entry => ((p.targets.entry entry.1).1, entry.2)) =
      cover.entries := by
  rw [positions]
  generalize cover.entries = entries at hknown
  induction entries with
  | nil => rfl
  | cons entry entries ih =>
    obtain ⟨value, hmem⟩ := SortedMap.mem_keys_iff.mp (hknown entry List.mem_cons_self)
    obtain ⟨i, hi⟩ := SortedMap.mem_entries_iff.mp hmem
    have hkey : (p.targets.entry i).1 = entry.1 := by rw [hi]
    have hposition : p.targets.position? entry.1 = some i := by
      rw [← hkey]
      exact SortedMap.position?_entry hp i
    rw [List.filterMap_cons_some (b := (i, entry.2)) (by simp [hposition]), List.map_cons,
      ih fun x hx => hknown x (List.mem_cons_of_mem _ hx), hkey]

/-- What the grid gives to the columns of a row, by labels. -/
theorem WellFormed.cover_labels (hp : p.WellFormed) (row : Fin p.grid.rows) :
    (p.grid.cover row).map (fun entry => (p.columnAt entry.1, entry.2)) =
      (p.rows.entry row).2.entries := by
  rw [grid_cover]
  exact positions_labels hp.targets_ascending (hp.cover _ (List.get_mem _ row)).mem_columns

/-- A row covers the same columns by positions as by labels. -/
theorem WellFormed.columnsOf_labels (hp : p.WellFormed) (row : Fin p.grid.rows) :
    (p.grid.columnsOf row).map p.columnAt = (p.rows.entry row).2.keys := by
  rw [SortedMap.keys, ← hp.cover_labels row, Grid.columnsOf, List.map_map, List.map_map]
  rfl

/-- The grid of a problem that can be built. -/
theorem WellFormed.grid (hp : p.WellFormed) : p.grid.WellFormed := by
  refine ⟨fun column => ?_, fun row => ?_, fun row => ?_, fun row entry hentry => ?_⟩
  · have hne := hp.target_ne_zero _ (List.get_mem _ column)
    rw [grid_target]
    exact amount_pos_iff.mpr hne
  · intro hnil
    have hlabels := hp.cover_labels row
    rw [hnil] at hlabels
    exact hp.cover_ne_nil _ (List.get_mem _ row) hlabels.symm
  · have hascending := (hp.cover _ (List.get_mem _ row)).ascending
    have hpairs : ((p.grid.columnsOf row).map p.columnAt).Pairwise
        fun x y => compare x y = .lt := by
      rw [hp.columnsOf_labels, SortedMap.keys, List.pairwise_map]
      exact hascending
    rw [List.pairwise_map] at hpairs
    exact hpairs.imp hp.lt_of_compare_columnAt
  · have hmem : (p.columnAt entry.1, entry.2) ∈ (p.rows.entry row).2.entries := by
      rw [← hp.cover_labels row]
      exact List.mem_map_of_mem hentry
    have hne := (hp.cover _ (List.get_mem _ row)).amount_ne_zero _ hmem
    exact amount_pos_iff.mpr hne

variable [Std.TransOrd R] [Std.LawfulEqOrd R]

omit [Std.TransOrd C] [Std.LawfulEqOrd C] [Std.TransOrd R] in
theorem WellFormed.rowAt_injective (hp : p.WellFormed) : Function.Injective p.rowAt :=
  fun _ _ h => hp.rows_ascending.entry_inj h

omit [Std.TransOrd C] [Std.TransOrd R] in
theorem WellFormed.pairAt_injective (hp : p.WellFormed) : Function.Injective p.pairAt := by
  rintro ⟨c, r⟩ ⟨c', r'⟩ h
  simp only [pairAt, Prod.mk.injEq] at h
  rw [hp.columnAt_injective h.1, hp.rowAt_injective h.2]

omit [Std.TransOrd C] [Std.LawfulEqOrd C] in
theorem WellFormed.row?_rowAt (hp : p.WellFormed) (row : Fin p.grid.rows) :
    p.row? (p.rowAt row) = some (p.rows.entry row).2 := SortedMap.get?_entry hp.rows_ascending row

/-- A row gives the same amounts by labels as by positions. -/
theorem WellFormed.amountsOf_rowAt (hp : p.WellFormed) (row : Fin p.grid.rows) :
    p.amountsOf (p.rowAt row) =
      (p.grid.cover row).map fun entry => (p.columnAt entry.1, entry.2) := by
  rw [amountsOf, hp.row?_rowAt, hp.cover_labels]
  rfl

/-- The pairs of a row are the labels of its cells. -/
theorem WellFormed.pairsOf_rowAt (hp : p.WellFormed) (row : Fin p.grid.rows) :
    p.pairsOf (p.rowAt row) = (p.grid.rowCells row).map p.pairAt := by
  rw [pairsOf, hp.amountsOf_rowAt, Grid.rowCells, List.map_map, List.map_map]
  rfl

/-- What a row gives to a column is the same by labels as by positions. -/
theorem WellFormed.amount?_labels (hp : p.WellFormed) (row : Fin p.grid.rows)
    (column : Fin p.grid.columns) :
    ((p.amount? (p.rowAt row) (p.columnAt column)).getD 0).toNat = p.grid.amount row column := by
  have hascending := (hp.cover _ (List.get_mem _ row)).ascending
  change (p.rows.entry row).2.Ascending at hascending
  rw [amount?, hp.row?_rowAt, Option.bind_some]
  by_cases hcolumn : column ∈ p.grid.columnsOf row
  · obtain ⟨entry, hentry, rfl⟩ := List.mem_map.mp hcolumn
    have hget : (p.rows.entry row).2.get? (p.columnAt entry.1) = some entry.2 := by
      rw [SortedMap.get?_eq_some_iff hascending, ← hp.cover_labels row]
      exact List.mem_map_of_mem hentry
    rw [hget, hp.grid.amount_of_mem hentry]
    rfl
  · have hget : (p.rows.entry row).2.get? (p.columnAt column) = none := by
      rw [Option.eq_none_iff_forall_ne_some]
      intro amount hsome
      rw [SortedMap.get?_eq_some_iff hascending, ← hp.cover_labels row] at hsome
      obtain ⟨entry, hentry, heq⟩ := List.mem_map.mp hsome
      have hkey := hp.columnAt_injective (Prod.mk.inj heq).1
      exact hcolumn (List.mem_map.mpr ⟨entry, hentry, hkey⟩)
    rw [hget, Grid.amount_eq_zero hcolumn]
    rfl

/-- A row covers a column just if it gives it something. -/
theorem WellFormed.isSome_amount?_labels (hp : p.WellFormed) (row : Fin p.grid.rows)
    (column : Fin p.grid.columns) :
    (p.amount? (p.rowAt row) (p.columnAt column)).isSome = true ↔
      column ∈ p.grid.columnsOf row := by
  have hascending := (hp.cover _ (List.get_mem _ row)).ascending
  change (p.rows.entry row).2.Ascending at hascending
  rw [amount?, hp.row?_rowAt, Option.bind_some]
  refine (SortedMap.contains_iff hascending).trans ?_
  rw [← hp.columnsOf_labels row, List.mem_map]
  constructor
  · rintro ⟨c, hc, heq⟩
    exact hp.columnAt_injective heq ▸ hc
  · intro hcolumn
    exact ⟨column, hcolumn, rfl⟩

/-- The incidences of a problem are the cells of its grid. -/
theorem WellFormed.mem_incidences (hp : p.WellFormed) {pair : C × R} :
    pair ∈ p.incidences.elements ↔
      ∃ cell : p.grid.Cell, cell.1 ∈ p.grid.columnsOf cell.2 ∧ p.pairAt cell = pair := by
  simp only [incidences, SortedSet.mem_ofList, List.mem_flatMap, List.mem_map]
  constructor
  · rintro ⟨entry, hentry, column, hcolumn, rfl⟩
    obtain ⟨row, rfl⟩ := SortedMap.mem_entries_iff.mp hentry
    rw [← hp.columnsOf_labels row] at hcolumn
    obtain ⟨i, hi, rfl⟩ := List.mem_map.mp hcolumn
    exact ⟨(i, row), hi, rfl⟩
  · rintro ⟨⟨i, row⟩, hi, rfl⟩
    refine ⟨p.rows.entry row, List.get_mem _ row, p.columnAt i, ?_, rfl⟩
    rw [← hp.columnsOf_labels row]
    exact List.mem_map_of_mem hi

end ExactCover.Problem
