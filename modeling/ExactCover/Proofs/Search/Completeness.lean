import ExactCover.Proofs.Search.Moves
import Mathlib.Algebra.Order.BigOperators.Group.List
import Mathlib.Algebra.Order.Group.Nat

namespace ExactCover

variable {g : Grid}

namespace Grid

/-- Whether rows, each of them listed once, give every column its target. -/
structure Exact (g : Grid) (rows : List (Fin g.rows)) : Prop where
  nodup : rows.Nodup
  received_eq : ∀ column, g.received rows column = g.target column

theorem received_perm {rows rows' : List (Fin g.rows)} (h : rows.Perm rows')
    (column : Fin g.columns) : g.received rows column = g.received rows' column :=
  (h.map _).sum_eq

/-- What a column receives from a part of some rows and from the others. -/
theorem received_split {part rows : List (Fin g.rows)} (hpart : part.Nodup) (hrows : rows.Nodup)
    (hsub : ∀ row ∈ part, row ∈ rows) (column : Fin g.columns) :
    g.received rows column =
      g.received part column + g.received (rows.filter (· ∉ part)) column := by
  have hperm : rows.Perm (part ++ rows.filter (· ∉ part)) := by
    refine (List.perm_ext_iff_of_nodup hrows ?_).mpr fun row => ?_
    · refine List.nodup_append.mpr ⟨hpart, hrows.filter _, ?_⟩
      rintro row hrow _ hother rfl
      simp [hrow] at hother
    · have := hsub row
      simp only [List.mem_append, List.mem_filter, decide_eq_true_iff]
      tauto
  rw [received_perm hperm, received, List.map_append, List.sum_append]
  rfl

theorem amount_le_received {rows : List (Fin g.rows)} {row : Fin g.rows} (h : row ∈ rows)
    (column : Fin g.columns) : g.amount row column ≤ g.received rows column :=
  List.le_sum_of_mem (List.mem_map_of_mem h)

theorem exists_of_received_pos {rows : List (Fin g.rows)} {column : Fin g.columns}
    (h : 0 < g.received rows column) : ∃ row ∈ rows, column ∈ g.columnsOf row := by
  by_contra hnone
  have hzero : g.received rows column = 0 := by
    refine List.sum_eq_zero fun n hn => ?_
    obtain ⟨row, hrow, rfl⟩ := List.mem_map.mp hn
    exact amount_eq_zero fun hcolumn => hnone ⟨row, hrow, hcolumn⟩
  omega

/-- Of two solutions none is a proper part of the other. -/
theorem Exact.perm_of_subset (hg : g.WellFormed) {rows rows' : List (Fin g.rows)}
    (h : g.Exact rows) (h' : g.Exact rows') (hsub : ∀ row ∈ rows, row ∈ rows') :
    rows.Perm rows' := by
  refine (List.perm_ext_iff_of_nodup h.nodup h'.nodup).mpr fun row => ⟨hsub row, fun hrow => ?_⟩
  by_contra hother
  obtain ⟨entry, hentry⟩ := List.exists_mem_of_ne_nil _ (hg.cover_ne_nil row)
  have hpos := hg.amount_pos_iff.mpr (List.mem_map_of_mem hentry : entry.1 ∈ g.columnsOf row)
  have hmem : row ∈ rows'.filter (· ∉ rows) := by simp [hrow, hother]
  have hle := amount_le_received hmem entry.1
  have hsplit := received_split h.nodup h'.nodup hsub entry.1
  rw [h.received_eq, h'.received_eq] at hsplit
  omega

end Grid

/-- Whether a set of rows can still be found below some levels: it contains the selected rows and
    none of the tried ones. -/
def Open (rows : List (Fin g.rows)) (frames : List (Frame g)) : Prop :=
  (∀ row ∈ selectedAt frames, row ∈ rows) ∧ ∀ frame ∈ frames, ∀ row ∈ frame.tried, row ∉ rows

instance (rows : List (Fin g.rows)) : DecidablePred (Open rows) := fun frames =>
  inferInstanceAs (Decidable ((∀ row ∈ selectedAt frames, row ∈ rows) ∧
    ∀ frame ∈ frames, ∀ row ∈ frame.tried, row ∉ rows))

/-- A level once its current row is deselected. -/
def Frame.dropped (frame : Frame g) : Frame g :=
  ⟨frame.column, none, frame.current.toList ++ frame.tried⟩

/-- The number of levels at which a set of rows can still be found, below a row that is still to be
    selected there. -/
def chancesBelow (rows : List (Fin g.rows)) : List (Frame g) → Nat
  | [] => 0
  | frame :: outer =>
    (if Open rows (frame.dropped :: outer) then 1 else 0) + chancesBelow rows outer

/-- The number of ways in which a set of rows can still be found. Every solution can be found in one
    way: below the selected rows, if it contains them and none of the rows tried before. -/
def Outline.chances (o : Outline g) (rows : List (Fin g.rows)) : Nat :=
  (if o.phase = .choose ∧ Open rows o.frames then 1 else 0) + chancesBelow rows o.frames

variable {outer frames : List (Frame g)} {column : Fin g.columns} {tried : List (Fin g.rows)}
  {row : Fin g.rows} {rows : List (Fin g.rows)}

theorem open_none : Open rows (⟨column, none, tried⟩ :: outer) ↔
    Open rows outer ∧ ∀ row ∈ tried, row ∉ rows := by
  simp only [Open, selectedAt_none, List.mem_cons, forall_eq_or_imp]
  tauto

theorem open_some : Open rows (⟨column, some row, tried⟩ :: outer) ↔
    row ∈ rows ∧ Open rows outer ∧ ∀ row ∈ tried, row ∉ rows := by
  simp only [Open, selectedAt_pick, List.mem_cons, forall_eq_or_imp]
  tauto

/-- Rows that a solution contains take no column past its target. -/
theorem Open.fitting (hg : g.WellFormed) (hpath : Path frames) (hrows : g.Exact rows)
    (h : Open rows frames) : Fitting frames := by
  intro column
  have hsplit := Grid.received_split (hpath.selected_nodup hg) hrows.nodup h.1 column
  rw [hrows.received_eq] at hsplit
  rw [due_stageAt hg]
  omega

/-- Selected rows that leave no column active and take none past its target are a solution. -/
theorem Path.exact (hg : g.WellFormed) (h : Path frames) (hfits : Fitting frames)
    (hbest : (stageAt frames).bestColumn = none) : g.Exact (selectedAt frames) := by
  refine ⟨h.selected_nodup hg, fun column => ?_⟩
  have hdue : ¬ 0 < (stageAt frames).due column := fun hpos => by
    have hmem : column ∈ (stageAt frames).active := by simpa [Stage.active] using hpos
    have hsome := List.isSome_minOn?_of_mem (f := fun c => ((stageAt frames).rows c).length) hmem
    rw [Stage.bestColumn] at hbest
    rw [hbest] at hsome
    cases hsome
  have hnonneg := hfits column
  rw [due_stageAt hg] at hdue hnonneg
  omega

/-- As long as a solution can be found at a level, there is a row left for the level: its column
    still has to receive something, and the row that gives it has not been tried and fits. -/
theorem Open.rows_ne_nil (hg : g.WellFormed) (hpath : Path (⟨column, none, tried⟩ :: outer))
    (hrows : g.Exact rows) (h : Open rows (⟨column, none, tried⟩ :: outer)) :
    (stageAt (⟨column, none, tried⟩ :: outer)).rows column ≠ [] := by
  have hsplit := Grid.received_split (hpath.selected_nodup hg) hrows.nodup h.1
  have hdue := due_stageAt hg (⟨column, none, tried⟩ :: outer)
  have hpos : 0 < (stageAt (⟨column, none, tried⟩ :: outer)).due column := by
    rw [(stageAt_none _ _ _).1]
    exact hpath.column_due_pos
  rw [hdue] at hpos
  have hgain : 0 < g.received
      (rows.filter (· ∉ selectedAt (⟨column, none, tried⟩ :: outer))) column := by
    have := hsplit column
    rw [hrows.received_eq] at this
    omega
  obtain ⟨row, hother, hcolumn⟩ := Grid.exists_of_received_pos hgain
  obtain ⟨hrow, hselected⟩ := List.mem_filter.mp hother
  -- An exhausted column receives its target from the selected rows and nothing from this one.
  have havailable : (stageAt (⟨column, none, tried⟩ :: outer)).Available row := by
    refine ⟨fun hgone => ?_, fun c hc hexhausted => ?_⟩
    · obtain hgone | ⟨frame, hframe, htried⟩ := mem_gone_stageAt.mp hgone
      · exact of_decide_eq_true hselected hgone
      · exact h.2 frame hframe row htried hrow
    · have hzero := (hpath.settled hg c).mp hexhausted
      have hgain := hg.amount_pos_iff.mpr hc
      have hle := Grid.amount_le_received hother c
      have := hsplit c
      rw [hrows.received_eq] at this
      rw [hdue] at hzero
      omega
  intro hnil
  have hmem := Stage.mem_rows.mpr (havailable.linked hcolumn)
  rw [hnil] at hmem
  cases hmem

variable {o o' : Outline g} {notes : List (Note (Fin g.columns) (Fin g.rows))}

/-- A move finds nothing but solutions. -/
theorem Move.exact (hg : g.WellFormed) (h : Move o notes o') (ho : o.Valid) :
    ∀ rows ∈ Note.solutions notes, g.Exact rows := by
  intro rows hrows
  cases h with
  | @find frames st hbest =>
    have hexact := ho.path.exact hg (ho.fitting rfl) hbest
    rw [Note.solutions_remark, Note.solutions_solution, Note.solutions_nil,
      List.mem_singleton] at hrows
    subst hrows
    refine ⟨List.nodup_reverse.mpr hexact.nodup, fun column => ?_⟩
    rw [Grid.received_perm (List.reverse_perm _), hexact.received_eq]
  | _ => simp [-List.map_append] at hrows

/-- A solution is found where just its rows are selected. -/
theorem Path.perm_iff_open (hg : g.WellFormed) (h : Path frames)
    (hselected : g.Exact (selectedAt frames)) (hrows : g.Exact rows) :
    (selectedAt frames).reverse.Perm rows ↔ Open rows frames := by
  constructor
  · intro hperm
    have hmem : ∀ row, row ∈ selectedAt frames ↔ row ∈ rows := fun row => by
      rw [← hperm.mem_iff, List.mem_reverse]
    refine ⟨fun row => (hmem row).mp, fun frame hframe row htried hrow => ?_⟩
    exact h.not_selected_of_tried hg hframe htried ((hmem row).mpr hrow)
  · intro hopen
    exact (List.reverse_perm _).trans (hselected.perm_of_subset hg hrows hopen.1)

/-- A move neither loses a solution nor makes it possible to find it a second time. -/
theorem Move.chances_eq (hg : g.WellFormed) (h : Move o notes o') (ho : o.Valid)
    (hrows : g.Exact rows) :
    (Note.solutions notes).countP (fun found => found.Perm rows) + o'.chances rows =
      o.chances rows := by
  cases h with
  | enter hbest => simp [Outline.chances, chancesBelow, Frame.dropped, open_none]
  | @find frames st hbest =>
    have hperm := ho.path.perm_iff_open hg (ho.path.exact hg (ho.fitting rfl) hbest) hrows
    simp [Outline.chances, hperm]
  | @pick outer column tried rest row st _ _ =>
    by_cases hrow : row ∈ rows <;>
      simp [Outline.chances, chancesBelow, Frame.dropped, open_none, open_some, hrow]
  | @overshoot outer column tried rest row st hnext hfits =>
    have hclosed : ¬ Open rows (⟨column, some row, tried⟩ :: outer) := fun hopen =>
      hfits (hopen.fitting hg (ho.path.pick hnext) hrows)
    rw [open_some] at hclosed
    by_cases hrow : row ∈ rows
    · have hnone : ¬ Open rows (⟨column, none, tried⟩ :: outer) :=
        fun hopen => hclosed ⟨hrow, open_none.mp hopen⟩
      simp [Outline.chances, chancesBelow, Frame.dropped, hnone, open_none, hrow]
    · simp [Outline.chances, chancesBelow, Frame.dropped, open_none, hrow]
  | drop =>
    simp only [Note.solutions_map_event, Event.solutions_append, Event.solutions_restorals]
    exact Nat.zero_add _
  | @leave outer column tried st hnil =>
    have hclosed : ¬ Open rows (⟨column, none, tried⟩ :: outer) := fun hopen =>
      hopen.rows_ne_nil hg ho.path hrows hnil
    simp [Outline.chances, chancesBelow, Frame.dropped, hclosed]
  | finish => simp [Outline.chances]

/-- Moves find nothing but solutions. -/
theorem Moves.exact (hg : g.WellFormed) (h : Moves o notes o') (ho : o.Valid) :
    ∀ rows ∈ Note.solutions notes, g.Exact rows := by
  induction h with
  | refl => simp
  | tail hmoves hlast ih =>
    intro rows hrows
    rw [Note.solutions_append, List.mem_append] at hrows
    exact hrows.elim (ih rows) (hlast.exact hg (hmoves.valid ho) rows)

/-- What was found of a solution and what can still be found of it is constant. -/
theorem Moves.chances_eq (hg : g.WellFormed) (h : Moves o notes o') (ho : o.Valid)
    (hrows : g.Exact rows) :
    (Note.solutions notes).countP (fun found => found.Perm rows) + o'.chances rows =
      o.chances rows := by
  induction h with
  | refl => simp
  | tail hmoves hlast ih =>
    have hmove := hlast.chances_eq hg (hmoves.valid ho) hrows
    rw [Note.solutions_append, List.countP_append]
    omega

end ExactCover
