import ExactCover.Proofs.Solver

namespace ExactCover

variable {g : Grid} {σ : Type}

namespace Grid

/-- The columns whose targets the rows of a selection reach, in the order in which they are covered:
    each row, the latest being the first of the list, covers those of its columns that it brings to
    their targets, in ascending order. -/
def coverOrder (g : Grid) : List (Fin g.rows) → List (Fin g.columns)
  | [] => []
  | row :: earlier => g.coverOrder earlier ++ (g.columnsOf row).filter fun column =>
      g.received earlier column < g.target column ∧
        g.target column ≤ g.received (row :: earlier) column

end Grid

namespace Search

/-- Whether a row is in the partial solution or was tried at a level that is still open. -/
def IsGone (s : Search g σ) (row : Fin g.rows) : Prop :=
  row ∈ s.selected ∨ ∃ frame ∈ s.frames, row ∈ frame.tried

/-- Whether a row is linked in the list of a column. -/
def IsLinked (s : Search g σ) (column : Fin g.columns) (row : Fin g.rows) : Prop :=
  row ∈ (s.links.rows column).forward

/-- Whether a row can still be selected: it is not gone and all its columns are active. -/
def IsAvailable (s : Search g σ) (row : Fin g.rows) : Prop :=
  ¬ s.IsGone row ∧ ∀ column ∈ g.columnsOf row, 0 < s.links.due column

instance (s : Search g σ) : DecidablePred s.IsAvailable := fun row =>
  inferInstanceAs (Decidable (¬ (row ∈ s.selected ∨ ∃ frame ∈ s.frames, row ∈ frame.tried) ∧
    ∀ column ∈ g.columnsOf row, 0 < s.links.due column))

/-- What holds of the lists between any two steps of a search. -/
structure Consistent (s : Search g σ) : Prop where
  due_eq : ∀ column, s.links.due column =
    g.target column - (g.received s.selected column : Int)
  due_nonneg : s.phase = .choose → ∀ column, 0 ≤ s.links.due column
  active_lists : s.links.active.Lists s.links.active.forward
  active_forward : s.links.active.forward =
    (List.finRange g.columns).filter fun column => 0 < s.links.due column
  active_backward : s.links.active.backward = s.links.active.forward.reverse
  rows_lists : ∀ column, (s.links.rows column).Lists (s.links.rows column).forward
  rows_ascending : ∀ column, (s.links.rows column).forward.Pairwise (· < ·)
  rows_backward : ∀ column,
    (s.links.rows column).backward = (s.links.rows column).forward.reverse
  rows_size : ∀ column, (s.links.rows column).size = (s.links.rows column).forward.length
  first_eq_none : ∀ column, (s.links.rows column).first = none ↔ (s.links.rows column).size = 0
  last_eq_none : ∀ column, (s.links.rows column).last = none ↔ (s.links.rows column).size = 0
  linked_of_gone : ∀ row, s.IsGone row → ∀ column, ¬ s.IsLinked column row
  linked_of_open : ∀ row, ¬ s.IsGone row → (∀ column ∈ g.columnsOf row, 0 < s.links.due column) →
    ∀ column, s.IsLinked column row ↔ column ∈ g.columnsOf row
  mem_coverOrder : ∀ column, column ∈ g.coverOrder s.selected ↔ s.links.due column ≤ 0
  linked_of_covered : ∀ row, ¬ s.IsGone row →
    ¬ (∀ column ∈ g.columnsOf row, 0 < s.links.due column) →
    ∃ first, (g.coverOrder s.selected).find? (· ∈ g.columnsOf row) = some first ∧
      ∀ column, s.IsLinked column row ↔ column = first

end Search

/-- The columns that the selected rows exhaust are exhausted in the order of their covering. -/
theorem Path.exhausted_eq (hg : g.WellFormed) {frames : List (Frame g)} (h : Path frames) :
    (stageAt frames).exhausted = g.coverOrder (selectedAt frames) := by
  induction h with
  | root => rfl
  | enter _ _ _ _ ih => exact ih
  | pass _ _ ih => exact ih
  | @pick outer column tried rest row hpath hrows ih =>
    have hnext := hpath.available_next hg hrows
    have hsettled := hpath.settled hg
    rw [stageAt_pick, Stage.exhausted_select hg, ih, selectedAt_pick, Grid.coverOrder,
      selectedAt_none]
    refine congrArg (_ ++ ·) (List.filter_congr fun c hc => ?_)
    have hopen : ¬ (stageAt (⟨column, none, tried⟩ :: outer)).due c ≤ 0 :=
      fun hdue => hnext.2 c hc ((hsettled c).mpr hdue)
    rw [due_stageAt hg, selectedAt_none] at hopen ⊢
    rw [Bool.eq_iff_iff, decide_eq_true_iff, decide_eq_true_iff, Grid.received_cons]
    omega

/-- The lists are consistent wherever a search stands. -/
theorem Outline.Valid.consistent (hg : g.WellFormed) {o : Outline g} (ho : o.Valid) (observed : σ) :
    (o.search observed).Consistent := by
  have hshows := ho.path.shows hg
  have hsettled := ho.path.settled hg
  have hrows column := (hshows.rows column).forward_eq
  have hgone {row : Fin g.rows} :
      (o.search observed).IsGone row ↔ row ∈ (stageAt o.frames).gone := mem_gone_stageAt.symm
  have hlinked {column : Fin g.columns} {row : Fin g.rows} :
      (o.search observed).IsLinked column row ↔ (stageAt o.frames).Linked (column, row) := by
    rw [← Stage.mem_rows, ← hrows]
    rfl
  have hdue column : (o.search observed).links.due column = (stageAt o.frames).due column :=
    hshows.due column
  have hcases {row : Fin g.rows} (h : ¬ (o.search observed).IsGone row) :=
    Stage.linked_cases hsettled (mt hgone.mpr h)
  rw [ho.path.exhausted_eq hg] at hcases
  exact {
    due_eq := fun column => by rw [hdue, due_stageAt hg]; rfl
    due_nonneg := fun hphase column => by rw [hdue]; exact ho.fitting hphase column
    active_lists := by
      have hlists := hshows.active
      rw [← hlists.forward_eq] at hlists
      exact hlists
    active_forward := by
      simp only [hdue]
      exact hshows.active.forward_eq
    active_backward := by
      have hbackward := hshows.active.backward_eq
      rw [← hshows.active.forward_eq] at hbackward
      exact hbackward
    rows_lists := fun column => by
      have hlists := hshows.rows column
      rw [← hrows] at hlists
      exact hlists
    rows_ascending := fun column => by
      have hascending := (stageAt o.frames).rows_ascending column
      rw [← hrows] at hascending
      exact hascending
    rows_backward := fun column => by
      have hbackward := (hshows.rows column).backward_eq
      rw [← hrows] at hbackward
      exact hbackward
    rows_size := fun column => by
      have hsize := (hshows.rows column).size_eq
      rw [← hrows] at hsize
      exact hsize
    first_eq_none := fun column => (hshows.rows column).ends_eq_none.1
    last_eq_none := fun column => (hshows.rows column).ends_eq_none.2
    linked_of_gone := fun row hrow column h => (hlinked.mp h).2.1 (hgone.mp hrow)
    linked_of_open := fun row hrow hopen column => by
      simp only [hdue] at hopen
      rw [hlinked]
      exact (hcases hrow).1 hopen column
    mem_coverOrder := fun column => by
      rw [hdue, ← hsettled column, ho.path.exhausted_eq hg]
      rfl
    linked_of_covered := fun row hrow hcovered => by
      simp only [hdue] at hcovered
      obtain ⟨first, hfirst, hiff⟩ := (hcases hrow).2 hcovered
      exact ⟨first, hfirst, fun column => hlinked.trans (hiff column)⟩ }

/-- A column's list is, as long as the column is active, that of the rows that can be selected. -/
theorem Search.Consistent.rows_forward {s : Search g σ} (h : s.Consistent) {column : Fin g.columns}
    (hactive : 0 < s.links.due column) :
    (s.links.rows column).forward = (g.rowsOf column).filter fun row => s.IsAvailable row := by
  have hrowsOf : (g.rowsOf column).Pairwise (· < ·) := (List.pairwise_lt_finRange g.rows).filter _
  refine List.Perm.eq_of_pairwise (fun x y _ _ hxy hyx => absurd hxy hyx.not_gt)
    (h.rows_ascending column) (hrowsOf.filter _) ?_
  refine (List.perm_ext_iff_of_nodup ((h.rows_ascending column).imp ne_of_lt)
    ((hrowsOf.filter _).imp ne_of_lt)).mpr fun row => ?_
  rw [List.mem_filter, decide_eq_true_iff, Grid.mem_rowsOf]
  change s.IsLinked column row ↔ _
  by_cases hgone : s.IsGone row
  · have hunlinked := h.linked_of_gone row hgone column
    simp [IsAvailable, hgone, hunlinked]
  · by_cases hopen : ∀ c ∈ g.columnsOf row, 0 < s.links.due c
    · rw [h.linked_of_open row hgone hopen column]
      exact ⟨fun hcolumn => ⟨hcolumn, hgone, hopen⟩, And.left⟩
    · obtain ⟨first, hfirst, hlinked⟩ := h.linked_of_covered row hgone hopen
      have hcovered := (h.mem_coverOrder first).mp (List.mem_of_find?_eq_some hfirst)
      have hne : column ≠ first := by
        rintro rfl
        omega
      rw [hlinked column]
      exact ⟨fun heq => absurd heq hne, fun hright => absurd hright.2.2 hopen⟩

end ExactCover
