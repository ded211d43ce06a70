import ExactCover.Proofs.Links
import ExactCover.Search

namespace ExactCover

variable {g : Grid}

/-- The stage at the end of some levels, deepest first. At each level the rows tried are withdrawn,
    and then the current one is selected. -/
def stageAt : List (Frame g) → Stage g
  | [] => .initial g
  | frame :: outer =>
    let s := frame.tried.foldr (fun row s => s.withdraw row) (stageAt outer)
    frame.current.elim s s.select

/-- The lists at the end of some levels, reached by the same operations. -/
def linksAt : List (Frame g) → Links g
  | [] => .initial g
  | frame :: outer =>
    let l := frame.tried.foldr (fun row l => l.withdraw row) (linksAt outer)
    frame.current.elim l l.select

/-- The rows selected at some levels, latest first. -/
def selectedAt (frames : List (Frame g)) : List (Fin g.rows) := frames.filterMap (·.current)

/-- No column has gone past its target, so that a level can be entered or a solution is found. -/
def Fitting (frames : List (Frame g)) : Prop := ∀ column, 0 ≤ (stageAt frames).due column

/-- The levels that are open at some place in the search tree, deepest first. The levels alone
    determine the stage of the selection and every link of the lists. -/
inductive Path : List (Frame g) → Prop where
  /-- The root of the tree. -/
  | root : Path []
  /-- A new level, at which no row has been tried. At every level outside a row is selected. -/
  | enter {outer : List (Frame g)} {column : Fin g.columns} (h : Path outer)
      (hselected : (selectedAt outer).length = outer.length) (hfits : Fitting outer)
      (hbest : (stageAt outer).bestColumn = some column) : Path (⟨column, none, []⟩ :: outer)
  /-- The next row of the level is selected. -/
  | pick {outer : List (Frame g)} {column : Fin g.columns} {tried rest : List (Fin g.rows)}
      {row : Fin g.rows} (h : Path (⟨column, none, tried⟩ :: outer))
      (hrows : (stageAt (⟨column, none, tried⟩ :: outer)).rows column = row :: rest) :
      Path (⟨column, some row, tried⟩ :: outer)
  /-- The row was tried. -/
  | pass {outer : List (Frame g)} {column : Fin g.columns} {tried rest : List (Fin g.rows)}
      {row : Fin g.rows} (h : Path (⟨column, none, tried⟩ :: outer))
      (hrows : (stageAt (⟨column, none, tried⟩ :: outer)).rows column = row :: rest) :
      Path (⟨column, none, row :: tried⟩ :: outer)

variable {outer : List (Frame g)} {column : Fin g.columns} {tried rest : List (Fin g.rows)}
  {row : Fin g.rows}

@[simp]
theorem stageAt_enter : stageAt (⟨column, none, []⟩ :: outer) = stageAt outer := rfl

/-- Selecting a row at a level leads to the stage after its selection. -/
@[simp]
theorem stageAt_pick : stageAt (⟨column, some row, tried⟩ :: outer) =
    (stageAt (⟨column, none, tried⟩ :: outer)).select row := rfl

@[simp]
theorem stageAt_pass : stageAt (⟨column, none, row :: tried⟩ :: outer) =
    (stageAt (⟨column, none, tried⟩ :: outer)).withdraw row := rfl

@[simp]
theorem linksAt_enter : linksAt (⟨column, none, []⟩ :: outer) = linksAt outer := rfl

@[simp]
theorem linksAt_pick : linksAt (⟨column, some row, tried⟩ :: outer) =
    (linksAt (⟨column, none, tried⟩ :: outer)).select row := rfl

@[simp]
theorem linksAt_pass : linksAt (⟨column, none, row :: tried⟩ :: outer) =
    (linksAt (⟨column, none, tried⟩ :: outer)).withdraw row := rfl

@[simp]
theorem selectedAt_none : selectedAt (⟨column, none, tried⟩ :: outer) = selectedAt outer := rfl

@[simp]
theorem selectedAt_pick :
    selectedAt (⟨column, some row, tried⟩ :: outer) = row :: selectedAt outer := rfl

/-- Between two tries of a level, the columns are charged as they were when it was entered. -/
theorem stageAt_none (outer : List (Frame g)) (column : Fin g.columns) (tried : List (Fin g.rows)) :
    (stageAt (⟨column, none, tried⟩ :: outer)).due = (stageAt outer).due ∧
      (stageAt (⟨column, none, tried⟩ :: outer)).exhausted = (stageAt outer).exhausted ∧
      (stageAt (⟨column, none, tried⟩ :: outer)).gone = tried ++ (stageAt outer).gone := by
  induction tried with
  | nil => exact ⟨rfl, rfl, rfl⟩
  | cons row tried ih =>
    rw [stageAt_pass]
    exact ⟨ih.1, ih.2.1, congrArg (row :: ·) ih.2.2⟩

theorem Stage.mem_active_of_bestColumn {s : Stage g} (h : s.bestColumn = some column) :
    column ∈ s.active := List.minOn?_mem h

/-- What was true outside a level when it was entered. -/
theorem Path.of_cons {frame : Frame g} (h : Path (frame :: outer)) :
    Path outer ∧ (selectedAt outer).length = outer.length ∧ Fitting outer ∧
      (stageAt outer).bestColumn = some frame.column := by
  generalize hframes : frame :: outer = frames at h
  induction h generalizing frame with
  | root => cases hframes
  | enter hpath hselected hfits hbest =>
    cases hframes
    exact ⟨hpath, hselected, hfits, hbest⟩
  | @pick _ column tried _ _ _ _ ih =>
    cases hframes
    exact @ih ⟨column, none, tried⟩ rfl
  | @pass _ column tried _ _ _ _ ih =>
    cases hframes
    exact @ih ⟨column, none, tried⟩ rfl

/-- A level with a selected row was the same level before, and the row came first of those left. -/
theorem Path.of_pick (h : Path (⟨column, some row, tried⟩ :: outer)) :
    Path (⟨column, none, tried⟩ :: outer) ∧
      ∃ rest, (stageAt (⟨column, none, tried⟩ :: outer)).rows column = row :: rest := by
  cases h with
  | pick hpath hrows => exact ⟨hpath, _, hrows⟩

theorem Path.of_pass (h : Path (⟨column, none, row :: tried⟩ :: outer)) :
    Path (⟨column, none, tried⟩ :: outer) ∧
      ∃ rest, (stageAt (⟨column, none, tried⟩ :: outer)).rows column = row :: rest := by
  cases h with
  | pass hpath hrows => exact ⟨hpath, _, hrows⟩

/-- The column of a level had something to receive when the level was entered. -/
theorem Path.column_due_pos {frame : Frame g} (h : Path (frame :: outer)) :
    0 < (stageAt outer).due frame.column := by
  have hactive := Stage.mem_active_of_bestColumn h.of_cons.2.2.2
  simpa [Stage.active] using hactive

/-- The rows that are left for a level are available: its column is open. -/
theorem Path.available_of_mem_rows (h : Path (⟨column, none, tried⟩ :: outer))
    (hs : (stageAt (⟨column, none, tried⟩ :: outer)).Settled)
    (hrow : row ∈ (stageAt (⟨column, none, tried⟩ :: outer)).rows column) :
    (stageAt (⟨column, none, tried⟩ :: outer)).Available row := by
  refine (Stage.mem_rows.mp hrow).available fun hexhausted => ?_
  have hpos := h.column_due_pos
  have hdue := (hs column).mp hexhausted
  rw [(stageAt_none _ _ _).1] at hdue
  dsimp only at hpos
  omega

/-- At any levels the exhausted columns are those that have nothing left to receive. -/
theorem Path.settled (hg : g.WellFormed) {frames : List (Frame g)} (h : Path frames) :
    (stageAt frames).Settled := by
  induction h with
  | root => exact Stage.settled_initial hg
  | enter _ _ _ _ ih => exact ih
  | pick hpath hrows ih =>
    have hnext := hpath.available_of_mem_rows ih (hrows ▸ List.mem_cons_self)
    exact (Stage.select_spec hg ih hnext).2
  | pass _ _ ih => exact ih

/-- The next row of a level is linked in all its columns. -/
theorem Path.available_next (hg : g.WellFormed) (h : Path (⟨column, none, tried⟩ :: outer))
    (hrows : (stageAt (⟨column, none, tried⟩ :: outer)).rows column = row :: rest) :
    (stageAt (⟨column, none, tried⟩ :: outer)).Available row :=
  h.available_of_mem_rows (h.settled hg) (hrows ▸ List.mem_cons_self)

/-- The lists at the end of a path are those of its stage. -/
theorem Path.shows (hg : g.WellFormed) {frames : List (Frame g)} (h : Path frames) :
    (linksAt frames).Shows (stageAt frames) := by
  induction h with
  | root => exact Links.shows_initial hg
  | enter _ _ _ _ ih => exact ih
  | pick hpath hrows ih => exact ih.select hg (hpath.settled hg) (hpath.available_next hg hrows)
  | pass hpath hrows ih => exact (ih.withdraw hg (hpath.available_next hg hrows)).1

/-- No row is selected or tried twice. -/
theorem Path.gone_nodup (hg : g.WellFormed) {frames : List (Frame g)} (h : Path frames) :
    (stageAt frames).gone.Nodup := by
  induction h with
  | root => exact List.nodup_nil
  | enter _ _ _ _ ih => exact ih
  | pick hpath hrows ih =>
    rw [stageAt_pick, Stage.gone_select]
    exact List.nodup_cons.mpr ⟨(hpath.available_next hg hrows).1, ih⟩
  | pass hpath hrows ih => exact List.nodup_cons.mpr ⟨(hpath.available_next hg hrows).1, ih⟩

/-- The selected rows are among those that are gone. -/
theorem selectedAt_sublist (frames : List (Frame g)) :
    (selectedAt frames).Sublist (stageAt frames).gone := by
  induction frames with
  | nil => exact List.Sublist.refl _
  | cons frame outer ih =>
    obtain ⟨column, current, tried⟩ := frame
    have hnone := (stageAt_none outer column tried).2.2
    cases current with
    | none =>
      rw [selectedAt_none, hnone]
      exact ih.trans (List.sublist_append_right tried _)
    | some row =>
      rw [selectedAt_pick, stageAt_pick, Stage.gone_select, hnone]
      exact (ih.trans (List.sublist_append_right tried _)).cons_cons row

theorem Path.selected_nodup (hg : g.WellFormed) {frames : List (Frame g)} (h : Path frames) :
    (selectedAt frames).Nodup := (h.gone_nodup hg).sublist (selectedAt_sublist frames)

/-- The rows that are gone are those selected and those tried at a level that is still open. -/
theorem mem_gone_stageAt {frames : List (Frame g)} :
    row ∈ (stageAt frames).gone ↔
      row ∈ selectedAt frames ∨ ∃ frame ∈ frames, row ∈ frame.tried := by
  induction frames with
  | nil => simp [stageAt, Stage.initial, selectedAt]
  | cons frame outer ih =>
    obtain ⟨column, current, tried⟩ := frame
    have hnone := (stageAt_none outer column tried).2.2
    cases current with
    | none =>
      rw [hnone, List.mem_append, ih, selectedAt_none]
      simp only [List.mem_cons, exists_eq_or_imp]
      tauto
    | some selected =>
      rw [stageAt_pick, Stage.gone_select, hnone, List.mem_cons, List.mem_append, ih,
        selectedAt_pick]
      simp only [List.mem_cons, exists_eq_or_imp]
      tauto

/-- No row that is selected was tried at a level that is still open. -/
theorem Path.not_selected_of_tried (hg : g.WellFormed) {frames : List (Frame g)} (h : Path frames)
    {frame : Frame g} (hframe : frame ∈ frames) (htried : row ∈ frame.tried) :
    row ∉ selectedAt frames := by
  -- The induction is on the levels and needs of the path only that no row is gone twice.
  have hnodup := h.gone_nodup hg
  clear h
  induction frames with
  | nil => cases hframe
  | cons head outer ih =>
    obtain ⟨column, current, tried⟩ := head
    have hnone := (stageAt_none outer column tried).2.2
    have hlevel : (stageAt (⟨column, none, tried⟩ :: outer)).gone.Nodup →
        row ∈ (stageAt (⟨column, none, tried⟩ :: outer)).gone ∧ row ∉ selectedAt outer := by
      intro hnodup
      rw [hnone] at hnodup ⊢
      obtain ⟨-, houter, hdisjoint⟩ := List.nodup_append.mp hnodup
      obtain heq | hinner := List.mem_cons.mp hframe
      · subst heq
        refine ⟨List.mem_append_left _ htried, fun hselected => ?_⟩
        exact hdisjoint row htried row ((selectedAt_sublist outer).subset hselected) rfl
      · exact ⟨List.mem_append_right _ (mem_gone_stageAt.mpr (.inr ⟨frame, hinner, htried⟩)),
          ih hinner houter⟩
    cases current with
    | none => exact (hlevel hnodup).2
    | some selected =>
      rw [stageAt_pick, Stage.gone_select] at hnodup
      obtain ⟨hfresh, hnodup⟩ := List.nodup_cons.mp hnodup
      obtain ⟨hgone, houter⟩ := hlevel hnodup
      rw [selectedAt_pick, List.mem_cons, not_or]
      exact ⟨fun heq => hfresh (heq ▸ hgone), houter⟩

/-- What a column has to receive is its target, less what the selected rows give to it. -/
theorem due_stageAt (hg : g.WellFormed) (frames : List (Frame g)) (column : Fin g.columns) :
    (stageAt frames).due column =
      g.target column - (g.received (selectedAt frames) column : Int) := by
  induction frames with
  | nil => simp [stageAt, Stage.initial, selectedAt]
  | cons frame outer ih =>
    obtain ⟨c, current, tried⟩ := frame
    have hnone := (stageAt_none outer c tried).1
    cases current with
    | none => rw [hnone, ih, selectedAt_none]
    | some selected =>
      rw [stageAt_pick, Stage.due_select hg, hnone, ih, selectedAt_pick, Grid.received_cons]
      omega

/-- After the selection of a row, the columns of the row tell whether any column is past its
    target. -/
theorem Path.fitting_pick_iff (hg : g.WellFormed) (h : Path (⟨column, none, tried⟩ :: outer)) :
    Fitting (⟨column, some row, tried⟩ :: outer) ↔
      ∀ c ∈ g.columnsOf row, 0 ≤ (stageAt (⟨column, some row, tried⟩ :: outer)).due c := by
  refine ⟨fun hfits c _ => hfits c, fun hcover c => ?_⟩
  by_cases hc : c ∈ g.columnsOf row
  · exact hcover c hc
  · have hnonneg := h.of_cons.2.2.1 c
    rw [stageAt_pick, Stage.due_select hg, Grid.amount_eq_zero hc, (stageAt_none _ _ _).1]
    omega

/-- Once the first of the rows left for a level is withdrawn, the others are left. -/
theorem Stage.rows_withdraw {s : Stage g} (h : s.rows column = row :: rest) :
    (s.withdraw row).rows column = rest := by
  have hnodup := s.rows_nodup column
  rw [h] at hnodup
  have hfilter : (s.withdraw row).rows column = (s.rows column).filter fun r => r ≠ row := by
    simp only [Stage.rows, List.filter_filter]
    refine List.filter_congr fun r _ => ?_
    rw [Bool.eq_iff_iff]
    simp [Stage.Linked, Stage.withdraw, Stage.hider]
    tauto
  have hrest : rest.filter (fun r => r ≠ row) = rest := by
    rw [List.filter_eq_self]
    intro r hr
    simpa using ne_of_mem_of_not_mem hr (List.nodup_cons.mp hnodup).1
  rw [hfilter, h, List.filter_cons_of_neg (by simp), hrest]

/-- A level tries the rows that covered its column when it was entered, in ascending order. -/
theorem Path.rows_eq (h : Path (⟨column, none, tried⟩ :: outer)) :
    (stageAt outer).rows column =
      tried.reverse ++ (stageAt (⟨column, none, tried⟩ :: outer)).rows column := by
  induction tried with
  | nil => rfl
  | cons row tried ih =>
    obtain ⟨hpath, rest, hrows⟩ := h.of_pass
    rw [ih hpath, hrows, stageAt_pass, Stage.rows_withdraw hrows]
    simp

end ExactCover
