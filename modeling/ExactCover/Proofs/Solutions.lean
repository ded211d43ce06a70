import ExactCover.Proofs.Search.Completeness
import ExactCover.Proofs.Solver

namespace ExactCover.Problem

variable {C R σ : Type} [Ord C] [Ord R] [Std.TransOrd C] [Std.LawfulEqOrd C] [Std.TransOrd R]
  [Std.LawfulEqOrd R] {p : Problem C R}

/-- Columns receive the same by labels as by positions. -/
theorem WellFormed.received_labels (hp : p.WellFormed) (rows : List (Fin p.grid.rows))
    (column : Fin p.grid.columns) :
    p.received (rows.map p.rowAt) (p.columnAt column) = p.grid.received rows column := by
  induction rows with
  | nil => rfl
  | cons row rows ih =>
    rw [Grid.received_cons, ← ih, ← hp.amount?_labels]
    rfl

/-- Rows are a solution of a problem just if their positions are one of its grid. -/
theorem WellFormed.isSolution_labels (hp : p.WellFormed) {rows : List (Fin p.grid.rows)} :
    p.IsSolution (rows.map p.rowAt) ↔ p.grid.Exact rows := by
  constructor
  · intro h
    refine ⟨h.nodup.of_map _, fun column => ?_⟩
    have hreceived := h.received_eq (p.targets.entry column) (List.get_mem _ column)
    rw [← hp.received_labels, grid_target]
    exact hreceived
  · intro h
    refine ⟨h.nodup.map hp.rowAt_injective, fun row hrow => ?_, fun entry hentry => ?_⟩
    · obtain ⟨i, -, rfl⟩ := List.mem_map.mp hrow
      rw [rowKeys_eq]
      exact List.mem_map_of_mem (List.mem_finRange i)
    · obtain ⟨column, rfl⟩ := SortedMap.mem_entries_iff.mp hentry
      exact (hp.received_labels rows column).trans
        ((h.received_eq column).trans (grid_target p column))

omit [Ord R] [Std.TransOrd C] [Std.LawfulEqOrd C] [Std.TransOrd R] [Std.LawfulEqOrd R] in
/-- Rows of a problem have positions in its grid. -/
theorem exists_positions {rows : List R} (h : ∀ row ∈ rows, row ∈ p.rows.keys) :
    ∃ positions : List (Fin p.grid.rows), positions.map p.rowAt = rows := by
  induction rows with
  | nil => exact ⟨[], rfl⟩
  | cons row rows ih =>
    obtain ⟨positions, hpositions⟩ := ih fun r hr => h r (List.mem_cons_of_mem _ hr)
    have hrow := h row List.mem_cons_self
    rw [rowKeys_eq, List.mem_map] at hrow
    obtain ⟨i, -, hi⟩ := hrow
    exact ⟨i :: positions, by rw [List.map_cons, hi, hpositions]⟩

omit [Std.TransOrd C] [Std.LawfulEqOrd C] [Std.TransOrd R] [Std.LawfulEqOrd R] in
/-- Over the empty universe there are no rows, and only the empty selection is a solution. -/
theorem WellFormed.isSolution_of_columns_eq_nil (hp : p.WellFormed) (hcolumns : p.columns = [])
    {rows : List R} : p.IsSolution rows ↔ rows = [] := by
  have hkeys : p.rows.keys = [] := by
    rw [List.eq_nil_iff_forall_not_mem]
    intro row hrow
    obtain ⟨cover, hentry⟩ := SortedMap.mem_keys_iff.mp hrow
    obtain ⟨x, hx⟩ := List.exists_mem_of_ne_nil _ (hp.cover_ne_nil _ hentry)
    have hmem := (hp.cover _ hentry).mem_columns x hx
    rw [hcolumns] at hmem
    cases hmem
  constructor
  · intro h
    rw [List.eq_nil_iff_forall_not_mem]
    intro row hrow
    have hmem := h.mem row hrow
    rw [hkeys] at hmem
    cases hmem
  · rintro rfl
    have hentries : p.targets.entries = [] := List.map_eq_nil_iff.mp hcolumns
    exact ⟨List.nodup_nil, by simp, by simp [hentries]⟩

/-- Asked for solutions until there are no more, a solver returns finitely many, and its search is
    over. Each is a solution of the problem, and every set of rows that is a solution is returned in
    exactly one order and exactly once. Over the empty universe the empty solution is returned, and
    nothing else. -/
theorem Reachable.yields_solutions [DecidableEq R] (hp : p.Reachable) (L : Listener C R σ)
    (state : σ) : ∃ found t, (p.solve L state).Yields found t ∧
      (p.solve L state).rest = (found, t) ∧ t.isExhausted = true ∧
      (∀ rows ∈ found, p.IsSolution rows) ∧
      (∀ rows, p.IsSolution rows → found.countP (fun other => other.Perm rows) = 1) ∧
      (p.columns = [] → found = [[]]) := by
  have hwell := hp.wellFormed
  have hg := hwell.grid
  obtain ⟨notes, o, hmoves, hend, hrest⟩ := rest_solve hg
  obtain ⟨hrest, hyields⟩ := hrest L state
  have hstart := Outline.valid_start p.grid
  have hsound : ∀ rows ∈ p.labelledSolutions notes, p.IsSolution rows := by
    intro rows hrows
    obtain ⟨positions, hpositions, rfl⟩ := List.mem_map.mp hrows
    exact hwell.isSolution_labels.mpr (hmoves.exact hg hstart positions hpositions)
  have hcomplete : ∀ rows, p.IsSolution rows →
      (p.labelledSolutions notes).countP (fun other => other.Perm rows) = 1 := by
    intro rows hrows
    obtain ⟨positions, rfl⟩ := exists_positions hrows.mem
    have hchances := hmoves.chances_eq hg hstart (hwell.isSolution_labels.mp hrows)
    have hnone : o.chances positions = 0 := by
      simp [Outline.chances, (hmoves.valid hstart).frames_eq_nil hend, hend, chancesBelow]
    have hone : (Outline.start p.grid).chances positions = 1 := by
      simp [Outline.chances, Outline.start, chancesBelow, Open, selectedAt]
    rw [hnone, hone] at hchances
    rw [labelledSolutions, List.countP_map, ← hchances]
    refine List.countP_congr fun other _ => ?_
    simp [List.map_perm_map_iff hwell.rowAt_injective]
  have hover (observed : σ) : (p.solverAt L o observed).isExhausted = true := beq_iff_eq.mpr hend
  refine ⟨_, _, hyields, hrest, hover _, hsound, hcomplete, fun hcolumns => ?_⟩
  generalize p.labelledSolutions notes = found at hsound hcomplete
  have hempty : ∀ rows ∈ found, rows = [] := fun rows hrows =>
    (hwell.isSolution_of_columns_eq_nil hcolumns).mp (hsound rows hrows)
  have hone := hcomplete [] ((hwell.isSolution_of_columns_eq_nil hcolumns).mpr rfl)
  rw [List.countP_eq_length.mpr (by simpa using hempty), List.length_eq_one_iff] at hone
  obtain ⟨rows, rfl⟩ := hone
  rw [hempty rows List.mem_cons_self]

/-- A solver of two columns, a row that covers both and two rows that cover one each. -/
theorem Reachable.yields_both_solutions : ∃ p : Problem Nat Nat, p.columns = [1, 2] ∧
    p.IsSolution [7] ∧ p.IsSolution [8, 9] ∧ ∃ found t,
      (p.solve Listener.logging #[]).Yields found t ∧
      found.countP (fun other => other.Perm [7]) = 1 ∧
      found.countP (fun other => other.Perm [8, 9]) = 1 := by
  obtain ⟨p, hp, hcolumns, hboth, heach⟩ : ∃ p : Problem Nat Nat, p.Reachable ∧
      p.columns = [1, 2] ∧ p.IsSolution [7] ∧ p.IsSolution [8, 9] :=
    ⟨_, .attempt (.addUnitRow 9 [2]) (.attempt (.addUnitRow 8 [1])
        (.attempt (.addUnitRow 7 [1, 2]) (.ofColumns (rfl : Problem.ofColumns [1, 2] = .ok _)))),
      rfl, ⟨by decide, by decide +kernel, by decide +kernel⟩,
      ⟨by decide, by decide +kernel, by decide +kernel⟩⟩
  obtain ⟨found, t, hyields, -, -, -, hcomplete, -⟩ := hp.yields_solutions Listener.logging #[]
  exact ⟨p, hcolumns, hboth, heach, found, t, hyields, hcomplete _ hboth, hcomplete _ heach⟩

end ExactCover.Problem
