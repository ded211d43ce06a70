import ExactCover.Proofs.Problem.Grid
import ExactCover.Proofs.Stage

namespace ExactCover

/-- The least element of renamed elements. -/
theorem minOn?_map {α β : Type} (f : α → β) (size : β → Nat) (xs : List α) :
    (xs.map f).minOn? size = (xs.minOn? fun x => size (f x)).map f := by
  induction xs with
  | nil => rfl
  | cons x xs ih =>
    rw [List.map_cons, List.minOn?_cons, List.minOn?_cons, ih]
    cases xs.minOn? fun x => size (f x) with
    | none => rfl
    | some y =>
      simp only [Option.map_some, Option.elim_some, minOn]
      split <;> rfl

/-- Among ascending pairs, those with the same first component are ascending in the second. -/
theorem SortedSet.Ascending.seconds {C R : Type} [Ord C] [Ord R] [Std.ReflOrd C] [DecidableEq C]
    {s : SortedSet (C × R)} (h : s.Ascending) (column : C) :
    ((s.elements.filter fun (c, _) => c = column).map (·.2)).Pairwise
      fun x y => compare x y = .lt := by
  rw [List.pairwise_map]
  refine (h.filter _).imp_of_mem ?_
  rintro ⟨c, r⟩ ⟨c', r'⟩ hx hy hlt
  obtain rfl : c = column := by simpa using (List.mem_filter.mp hx).2
  obtain rfl : c' = c := by simpa using (List.mem_filter.mp hy).2
  change (compare c' c').then (compare r r') = .lt at hlt
  rwa [Std.ReflOrd.compare_self] at hlt

namespace Problem

variable {C R : Type} [Ord C] {p : Problem C R}

/-- A number for every column, by labels. -/
def byColumn (p : Problem C R) (f : Fin p.grid.columns → Int) : SortedMap C Int :=
  ⟨(List.finRange p.grid.columns).map fun column => (p.columnAt column, f column)⟩

theorem activeColumns_byColumn (f : Fin p.grid.columns → Int) :
    ((p.byColumn f).entries.filter fun (_, n) => 0 < n).map (·.1) =
      ((List.finRange p.grid.columns).filter fun column => 0 < f column).map p.columnAt := by
  rw [byColumn, List.filter_map, List.map_map]
  rfl

theorem demand_eq (p : Problem C R) :
    p.demand = p.byColumn (Stage.initial p.grid).due := by
  rw [demand, SortedMap.mapValues, ← SortedMap.map_entry, List.map_map, byColumn]
  refine congrArg SortedMap.mk (List.map_congr_left fun column _ => ?_)
  have htarget := congrArg (fun n : Nat => (n : Int)) (grid_target p column)
  exact Prod.ext rfl htarget.symm

variable [Ord R]

/-- The pairs of a column and a row that is linked in it. -/
def pairsLinked (p : Problem C R) (s : Stage p.grid) : SortedSet (C × R) :=
  .ofList ((List.finRange p.grid.columns).flatMap fun column =>
    (s.rows column).map fun row => p.pairAt (column, row))

/-- What a stage leaves of a problem. -/
def remainder (p : Problem C R) (s : Stage p.grid) : Remainder C R :=
  ⟨p.pairsLinked s, p.byColumn s.due⟩

theorem WellFormed.ascending_byColumn (hp : p.WellFormed) (f : Fin p.grid.columns → Int) :
    (p.byColumn f).Ascending := by
  refine List.pairwise_map.mpr ((List.pairwise_lt_finRange p.grid.columns).imp ?_)
  exact hp.compare_columnAt

variable [Std.TransOrd C] [Std.LawfulEqOrd C]

theorem WellFormed.get?_byColumn (hp : p.WellFormed) (f : Fin p.grid.columns → Int)
    (column : Fin p.grid.columns) : (p.byColumn f).get? (p.columnAt column) = some (f column) := by
  rw [SortedMap.get?_eq_some_iff (hp.ascending_byColumn f)]
  exact List.mem_map_of_mem (List.mem_finRange column)

/-- A change of one column's number by labels is a change by positions. -/
theorem WellFormed.modify_byColumn (hp : p.WellFormed) (f : Fin p.grid.columns → Int)
    (column : Fin p.grid.columns) (change : Int → Int) :
    (p.byColumn f).modify (p.columnAt column) change =
      p.byColumn (Function.update f column (change (f column))) := by
  have hascending := hp.ascending_byColumn f
  rw [SortedMap.modify, hp.get?_byColumn]
  refine (hascending.insert _ _).ext (hp.ascending_byColumn _) fun entry => ?_
  rw [SortedMap.mem_insert hascending]
  simp only [byColumn, List.mem_map, List.mem_finRange, true_and]
  constructor
  · rintro (rfl | ⟨⟨c, rfl⟩, hne⟩)
    · exact ⟨column, by rw [Function.update_self]⟩
    · have hother : c ≠ column := fun heq => hne (by rw [heq])
      exact ⟨c, by rw [Function.update_of_ne hother]⟩
  · rintro ⟨c, rfl⟩
    by_cases heq : c = column
    · subst heq
      exact .inl (by rw [Function.update_self])
    · refine .inr ⟨⟨c, by rw [Function.update_of_ne heq]⟩, ?_⟩
      exact fun hkey => heq (hp.columnAt_injective hkey)

/-- Adding multiples of the amounts of different columns, one after the other. -/
theorem WellFormed.modifyAll_byColumn (hp : p.WellFormed) (f : Fin p.grid.columns → Int)
    {entries : List (Fin p.grid.columns × Amount)} (hnodup : (entries.map (·.1)).Nodup)
    (factor : Int) :
    entries.foldl (fun m entry => m.modify (p.columnAt entry.1)
        (· + factor * (entry.2.toNat : Int))) (p.byColumn f) =
      p.byColumn fun column => f column + factor * Grid.given entries column := by
  induction entries generalizing f with
  | nil => simp
  | cons entry rest ih =>
    obtain ⟨hhead, hrest⟩ := List.nodup_cons.mp hnodup
    rw [List.foldl_cons, hp.modify_byColumn, ih _ hrest]
    refine congrArg p.byColumn (funext fun column => ?_)
    rw [Grid.given_cons]
    by_cases heq : entry.1 = column
    · subst heq
      rw [Function.update_self, Grid.given_eq_zero hhead, if_pos rfl, Int.natCast_zero,
        Int.mul_zero, Int.add_zero]
    · rw [Function.update_of_ne (Ne.symm heq), if_neg heq]

variable [Std.TransOrd R] [Std.LawfulEqOrd R]

theorem ascending_pairsLinked (p : Problem C R) (s : Stage p.grid) : (p.pairsLinked s).Ascending :=
  SortedSet.ascending_ofList _

theorem mem_pairsLinked {s : Stage p.grid} {pair : C × R} :
    pair ∈ (p.pairsLinked s).elements ↔ ∃ cell, s.Linked cell ∧ p.pairAt cell = pair := by
  simp only [pairsLinked, SortedSet.mem_ofList, List.mem_flatMap, List.mem_map, List.mem_finRange,
    true_and, Stage.mem_rows]
  constructor
  · rintro ⟨column, row, hlinked, rfl⟩
    exact ⟨(column, row), hlinked, rfl⟩
  · rintro ⟨⟨column, row⟩, hlinked, rfl⟩
    exact ⟨column, row, hlinked, rfl⟩

theorem WellFormed.pairAt_mem_pairsLinked (hp : p.WellFormed) {s : Stage p.grid}
    {cell : p.grid.Cell} : p.pairAt cell ∈ (p.pairsLinked s).elements ↔ s.Linked cell := by
  rw [mem_pairsLinked]
  constructor
  · rintro ⟨other, hlinked, heq⟩
    rwa [← hp.pairAt_injective heq]
  · exact fun hlinked => ⟨cell, hlinked, rfl⟩

/-- At first a row is linked in all its columns. -/
theorem WellFormed.incidences_eq (hp : p.WellFormed) :
    p.incidences = p.pairsLinked (.initial p.grid) := by
  have hascending : p.incidences.Ascending := SortedSet.ascending_ofList _
  refine hascending.ext (ascending_pairsLinked p _) fun pair => ?_
  rw [hp.mem_incidences, mem_pairsLinked]
  refine exists_congr fun cell => and_congr_left fun _ => ?_
  simp [Stage.Linked, Stage.initial, Stage.hider]

/-- The plain sets of a stage from which nothing was taken are those of the problem. -/
theorem WellFormed.remainder_initial (hp : p.WellFormed) :
    p.remainder (.initial p.grid) = ⟨p.incidences, p.demand⟩ := by
  rw [hp.incidences_eq, demand_eq]
  rfl

/-- Erasing the pairs of the cells lost leaves the pairs of those still linked. -/
theorem WellFormed.eraseAll_pairsLinked (hp : p.WellFormed) {s t : Stage p.grid}
    {cells : List p.grid.Cell} (h : s.Loses cells t) :
    (cells.map p.pairAt).foldl SortedSet.erase (p.pairsLinked s) = p.pairsLinked t := by
  obtain ⟨hascending, hmem⟩ :=
    SortedSet.eraseAll_spec (cells.map p.pairAt) (ascending_pairsLinked p s)
  refine hascending.ext (ascending_pairsLinked p t) fun pair => ?_
  rw [hmem, mem_pairsLinked, mem_pairsLinked]
  constructor
  · rintro ⟨⟨cell, hlinked, rfl⟩, hkept⟩
    refine ⟨cell, (h.linked_iff cell).mpr ⟨hlinked, fun hcell => hkept ?_⟩, rfl⟩
    exact List.mem_map_of_mem hcell
  · rintro ⟨cell, hlinked, rfl⟩
    obtain ⟨hbefore, hkept⟩ := (h.linked_iff cell).mp hlinked
    refine ⟨⟨cell, hbefore, rfl⟩, fun hmem => hkept ?_⟩
    obtain ⟨other, hother, heq⟩ := List.mem_map.mp hmem
    rwa [← hp.pairAt_injective heq]

/-- Inserting the pairs of the cells lost, latest first, leads back. -/
theorem insertAll_pairsLinked {s t : Stage p.grid}
    {cells : List p.grid.Cell} (h : s.Loses cells t) :
    (cells.reverse.map p.pairAt).foldl SortedSet.insert (p.pairsLinked t) = p.pairsLinked s := by
  obtain ⟨hascending, hmem⟩ :=
    SortedSet.insertAll_spec (cells.reverse.map p.pairAt) (ascending_pairsLinked p t)
  refine hascending.ext (ascending_pairsLinked p s) fun pair => ?_
  rw [hmem, mem_pairsLinked, mem_pairsLinked]
  constructor
  · rintro (hpair | ⟨cell, hlinked, rfl⟩)
    · obtain ⟨cell, hcell, rfl⟩ := List.mem_map.mp hpair
      exact ⟨cell, h.linked cell (List.mem_reverse.mp hcell), rfl⟩
    · exact ⟨cell, ((h.linked_iff cell).mp hlinked).1, rfl⟩
  · rintro ⟨cell, hlinked, rfl⟩
    by_cases hcell : cell ∈ cells
    · exact .inl (List.mem_map_of_mem (List.mem_reverse.mpr hcell))
    · exact .inr ⟨cell, (h.linked_iff cell).mpr ⟨hlinked, hcell⟩, rfl⟩

variable [DecidableEq C]

/-- The rows of a column by labels are those of the stage. -/
theorem WellFormed.rows_pairsLinked (hp : p.WellFormed) (s : Stage p.grid)
    (column : Fin p.grid.columns) :
    ((p.pairsLinked s).elements.filter fun (c, _) => c = p.columnAt column).map (·.2) =
      (s.rows column).map p.rowAt := by
  refine SortedSet.eq_of_mem_iff ((ascending_pairsLinked p s).seconds _)
    (List.pairwise_map.mpr ((s.rows_ascending column).imp hp.compare_rowAt)) fun row => ?_
  simp only [List.mem_map, List.mem_filter, decide_eq_true_iff, mem_pairsLinked]
  constructor
  · rintro ⟨_, ⟨⟨⟨c, r⟩, hlinked, rfl⟩, hcolumn⟩, rfl⟩
    obtain rfl := hp.columnAt_injective hcolumn
    exact ⟨r, Stage.mem_rows.mpr hlinked, rfl⟩
  · rintro ⟨r, hr, rfl⟩
    exact ⟨_, ⟨⟨(column, r), Stage.mem_rows.mp hr, rfl⟩, rfl⟩, rfl⟩

theorem WellFormed.rows_remainder (hp : p.WellFormed) (s : Stage p.grid)
    (column : Fin p.grid.columns) :
    (p.remainder s).rows (p.columnAt column) = (s.rows column).map p.rowAt :=
  hp.rows_pairsLinked s column

/-- The recursion chooses the column that the search chooses. -/
theorem WellFormed.bestColumn_remainder (hp : p.WellFormed) (s : Stage p.grid) :
    (p.remainder s).bestColumn = s.bestColumn.map p.columnAt := by
  have hactive : (p.remainder s).activeColumns = s.active.map p.columnAt :=
    activeColumns_byColumn s.due
  rw [Remainder.bestColumn, hactive, minOn?_map, Stage.bestColumn]
  simp only [hp.rows_remainder, List.length_map]

end Problem

end ExactCover
