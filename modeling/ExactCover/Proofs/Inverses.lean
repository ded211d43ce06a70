import ExactCover.Proofs.Search.Operations

namespace ExactCover

variable {g : Grid} {σ : Type}

namespace Links

variable {l : Links g} {ys : List (Fin g.columns)} {xs : Fin g.columns → List (Fin g.rows)}
  {column : Fin g.columns} {row : Fin g.rows} {entry : Fin g.columns × Amount}
  {entries : List (Fin g.columns × Amount)}

/-- Covering a column leaves its own list alone, links of absent rows included. -/
theorem Sound.rows_cover_self (h : l.Sound ys xs) :
    (l.cover column).rows column = l.rows column :=
  rows_removeAll_of_outside fun _ hcell => ((mem_cellsHidden (h.rows column)).mp hcell).2.2

/-- Every other column loses just the rows in the list of the column that is covered. -/
theorem Sound.rows_cover_of_ne (hg : g.Ascending) (h : l.Sound ys xs) (hcolumn : column ∈ ys)
    {c : Fin g.columns} (hc : c ≠ column) :
    ((l.cover column).rows c).Lists ((xs c).filter fun r => r ∉ xs column) := by
  have hfilter : (xs c).filter (fun r => (c, r) ∉ l.cellsHidden column) =
      (xs c).filter fun r => r ∉ xs column := by
    refine List.filter_congr fun r hr => ?_
    rw [decide_eq_decide, not_iff_not, mem_cellsHidden (h.rows column)]
    exact ⟨And.left, fun hmem => ⟨hmem, h.covers c r hr, hc⟩⟩
  rw [← hfilter]
  exact (h.cover hg hcolumn).1.rows c

/-- A charge leaves the lists in order, and all active columns but its own stay active. -/
theorem Sound.charge (hg : g.Ascending) (h : l.Sound ys xs) (hentry : entry.1 ∈ ys) :
    ∃ ys' xs', (l.charge entry).Sound ys' xs' ∧ ∀ c ∈ ys, c ≠ entry.1 → c ∈ ys' := by
  have hlessen : (l.lessen entry).Sound ys xs := ⟨h.active, h.rows, h.covers, h.linked⟩
  rw [Links.charge]
  split
  · refine ⟨_, _, (hlessen.cover hg hentry).1, fun c hc hne => ?_⟩
    exact List.mem_filter.mpr ⟨hc, decide_eq_true hne⟩
  · exact ⟨ys, xs, hlessen, fun c hc _ => hc⟩

/-- Charges of different active columns are undone by refunds in the opposite order. -/
theorem Sound.refundAll_chargeAll (hg : g.Ascending) (h : l.Sound ys xs)
    (hnodup : (entries.map (·.1)).Nodup) (hentries : ∀ e ∈ entries, e.1 ∈ ys) :
    entries.reverse.foldl refund (entries.foldl Links.charge l) = l := by
  induction entries generalizing l ys xs with
  | nil => rfl
  | cons entry rest ih =>
    obtain ⟨hfresh, hnodup⟩ := List.nodup_cons.mp hnodup
    have hentry := hentries entry List.mem_cons_self
    obtain ⟨ys', xs', hcharged, hactive⟩ := h.charge hg hentry
    have hrest := ih hcharged hnodup fun e he =>
      hactive e.1 (hentries e (List.mem_cons_of_mem _ he)) fun heq =>
        hfresh (List.mem_map.mpr ⟨e, he, heq⟩)
    rw [List.foldl_cons, List.reverse_cons, List.foldl_append, hrest, List.foldl_cons,
      List.foldl_nil, h.refund_charge hg hentry]

/-- Deselecting a row leads back to the lists after its withdrawal. -/
theorem Sound.deselect_select (hg : g.Ascending) (h : l.Sound ys xs)
    (hrow : ∀ c ∈ g.columnsOf row, row ∈ xs c) (hactive : ∀ c ∈ g.columnsOf row, c ∈ ys) :
    (l.select row).deselect row = l.withdraw row :=
  (h.withdraw hg hrow).1.refundAll_chargeAll hg (hg.columns_nodup row) fun e he =>
    hactive e.1 (List.mem_map_of_mem he)

end Links

namespace Search

variable {L : Listener (Fin g.columns) (Fin g.rows) σ} {ys : List (Fin g.columns)}
  {xs : Fin g.columns → List (Fin g.rows)} {column : Fin g.columns} {row : Fin g.rows}

/-- Uncovering the column that was covered last restores the search. -/
theorem uncover_cover (hg : g.Ascending) (s : Search g σ) (h : s.links.Sound ys xs)
    (hcolumn : column ∈ ys) :
    { (s.cover L column).uncover L column with observed := s.observed } = s := by
  rw [cover_eq, uncover_eq, links_moved, (h.cover hg hcolumn).2.2]
  rfl

/-- Reinstating the row that was withdrawn last restores the search. -/
theorem reinstate_withdraw (hg : g.Ascending) (s : Search g σ) (h : s.links.Sound ys xs)
    (hrow : ∀ c ∈ g.columnsOf row, row ∈ xs c) :
    { (s.withdraw L row).reinstate L row with observed := s.observed } = s := by
  rw [withdraw_eq, reinstate_eq, links_moved, (h.withdraw hg hrow).2]
  rfl

/-- Deselecting the row that was selected last leaves what withdrawing it does. -/
theorem deselect_select (hg : g.Ascending) (s : Search g σ) (h : s.links.Sound ys xs)
    (hrow : ∀ c ∈ g.columnsOf row, row ∈ xs c) (hopen : ∀ c ∈ g.columnsOf row, c ∈ ys) :
    { (s.select L row).deselect L row with
        statistics := s.statistics, observed := s.observed } =
      { s.withdraw L row with observed := s.observed } := by
  obtain ⟨events, hselect⟩ := s.exists_moved_select (L := L) row
  obtain ⟨events', hdeselect⟩ := (s.select L row).exists_moved_deselect (L := L) row
  rw [hdeselect, withdraw_eq, hselect, links_moved, h.deselect_select hg hrow hopen]
  rfl

/-- On lists in order, in a search that stands anywhere and apart from what its listener hears:
    covering an active column takes just the rows in its list out of all other columns, and
    uncovering it restores everything; so does reinstating a row that was linked in all its columns
    when it was withdrawn; and if these columns are all active, deselecting the row after its
    selection leaves what withdrawing it does, whatever the columns have to receive and so whether
    or not the selection has overshot. -/
theorem inverse_operations (hg : g.Ascending) (s : Search g σ) {ys : List (Fin g.columns)}
    {xs : Fin g.columns → List (Fin g.rows)} (h : s.links.Sound ys xs) :
    (∀ column ∈ ys,
      (∀ c ≠ column,
        ((s.cover L column).links.rows c).Lists ((xs c).filter fun r => r ∉ xs column)) ∧
      (s.cover L column).links.rows column = s.links.rows column ∧
      { (s.cover L column).uncover L column with observed := s.observed } = s) ∧
    (∀ row, (∀ c ∈ g.columnsOf row, row ∈ xs c) →
      (∀ c, ((s.withdraw L row).links.rows c).Lists ((xs c).filter fun r => r ≠ row)) ∧
      { (s.withdraw L row).reinstate L row with observed := s.observed } = s) ∧
    (∀ row, (∀ c ∈ g.columnsOf row, row ∈ xs c) →
      (∀ c ∈ g.columnsOf row, c ∈ ys) →
      { (s.select L row).deselect L row with
          statistics := s.statistics, observed := s.observed } =
        { s.withdraw L row with observed := s.observed }) := by
  refine ⟨fun column hcolumn => ⟨fun c hc => ?_, ?_, s.uncover_cover hg h hcolumn⟩,
    fun row hrow => ⟨fun c => ?_, s.reinstate_withdraw hg h hrow⟩,
    fun row hrow hopen => s.deselect_select hg h hrow hopen⟩
  · rw [cover_eq]
    exact h.rows_cover_of_ne hg hcolumn hc
  · rw [cover_eq]
    exact h.rows_cover_self
  · rw [withdraw_eq]
    exact (h.withdraw hg hrow).1.rows c

/-- Two rows share their first column, and the second of them takes it past its target. -/
theorem inverse_operations_of_overshoot : ∃ g : Grid, ∃ row column,
    ((start g #[]).select Listener.logging row).fits row = false ∧
    (((start g #[]).cover Listener.logging column).uncover .logging column).links = .initial g ∧
    (((start g #[]).withdraw Listener.logging row).reinstate .logging row).links = .initial g ∧
    (((start g #[]).select Listener.logging row).deselect .logging row).links =
      ((start g #[]).withdraw Listener.logging row).links := by
  obtain ⟨g, row, column, hg, hfits, hcolumn, hrow, hopen⟩ : ∃ g : Grid, ∃ row column,
      g.WellFormed ∧ ((start g #[]).select Listener.logging row).fits row = false ∧
      column ∈ (Stage.initial g).active ∧
      (∀ c ∈ g.columnsOf row, row ∈ (Stage.initial g).rows c) ∧
      ∀ c ∈ g.columnsOf row, c ∈ (Stage.initial g).active :=
    ⟨⟨2, 2, #v[1, 2], #v[[(0, 1)], [(0, 3), (1, 1)]]⟩, 1, 0,
      ⟨by decide, by decide, by decide, by simp [Fin.forall_fin_two, Grid.cover]⟩,
      by decide +kernel, by decide +kernel, by decide +kernel, by decide +kernel⟩
  obtain ⟨hcover, hwithdraw, hselect⟩ := inverse_operations (L := .logging) hg.ascending
    (start g #[]) ((Links.shows_initial hg).sound (Stage.settled_initial hg))
  have hlinks := congrArg Search.links (hselect row hrow hopen)
  exact ⟨g, row, column, hfits, congrArg Search.links (hcover column hcolumn).2.2,
    congrArg Search.links (hwithdraw row hrow).2, hlinks⟩

end Search

end ExactCover
