import ExactCover.Proofs.Search.Operations

namespace ExactCover

/-- Where a search stands. Its lists and its partial solution follow from the open levels, and so do
    its moves, whoever listens. -/
structure Outline (g : Grid) where
  /-- The levels of the search tree, deepest first. -/
  frames : List (Frame g)
  phase : Phase
  statistics : Statistics

variable {g : Grid} {σ : Type}

namespace Outline

/-- The root of the search tree, before the first step. -/
def start (g : Grid) : Outline g := ⟨[], .choose, {}⟩

/-- The search that stands at a place, with what its listener knows. -/
def search (o : Outline g) (observed : σ) : Search g σ where
  links := linksAt o.frames
  frames := o.frames
  selected := selectedAt o.frames
  phase := o.phase
  statistics := o.statistics
  observed := observed

/-- A place that a search can reach: its levels are open at the same time, a row is selected at each
    of them and no column is past its target when another level is to be entered, and no level is
    left open at the end. -/
structure Valid (o : Outline g) : Prop where
  path : Path o.frames
  selected : o.phase = .choose → (selectedAt o.frames).length = o.frames.length
  fitting : o.phase = .choose → Fitting o.frames
  frames_eq_nil : o.phase = .exhausted → o.frames = []

end Outline

/-- The notes of the selection of a row after the rows tried before it at a level. -/
def selectionNotes (s : Stage g) (row : Fin g.rows) : List (Note (Fin g.columns) (Fin g.rows)) :=
  (Event.select row :: Event.removals (g.rowCells row ++ s.hidden row)).map .event

/-- One move from a place of the search tree to the next one, with the notes of the listener. -/
inductive Move : Outline g → List (Note (Fin g.columns) (Fin g.rows)) → Outline g → Prop where
  /-- A new level is entered. -/
  | enter {frames : List (Frame g)} {column : Fin g.columns} {st : Statistics}
      (hbest : (stageAt frames).bestColumn = some column) :
      Move ⟨frames, .choose, st⟩ []
        ⟨⟨column, none, []⟩ :: frames, .advance, { st with nodes := st.nodes + 1 }⟩
  /-- The selected rows are a solution. -/
  | find {frames : List (Frame g)} {st : Statistics}
      (hbest : (stageAt frames).bestColumn = none) :
      Move ⟨frames, .choose, st⟩
        [.remark (.solutionFound (selectedAt frames).length),
          .event (.solution (selectedAt frames).reverse)]
        ⟨frames, .advance,
          { st with nodes := st.nodes + 1, solutions := st.solutions + 1 }⟩
  /-- The next row of the deepest level is selected. -/
  | pick {outer : List (Frame g)} {column : Fin g.columns} {tried rest : List (Fin g.rows)}
      {row : Fin g.rows} {st : Statistics}
      (hrows : (stageAt (⟨column, none, tried⟩ :: outer)).rows column = row :: rest)
      (hfits : Fitting (⟨column, some row, tried⟩ :: outer)) :
      Move ⟨⟨column, none, tried⟩ :: outer, .advance, st⟩
        (selectionNotes (stageAt (⟨column, none, tried⟩ :: outer)) row)
        ⟨⟨column, some row, tried⟩ :: outer, .choose,
          st.addSelection ((selectedAt outer).length + 1)⟩
  /-- The next row of the deepest level is selected and takes a column past its target. -/
  | overshoot {outer : List (Frame g)} {column : Fin g.columns} {tried rest : List (Fin g.rows)}
      {row : Fin g.rows} {st : Statistics}
      (hrows : (stageAt (⟨column, none, tried⟩ :: outer)).rows column = row :: rest)
      (hfits : ¬ Fitting (⟨column, some row, tried⟩ :: outer)) :
      Move ⟨⟨column, none, tried⟩ :: outer, .advance, st⟩
        (selectionNotes (stageAt (⟨column, none, tried⟩ :: outer)) row ++
          [.remark (.overshoot ((selectedAt outer).length + 1))])
        ⟨⟨column, some row, tried⟩ :: outer, .advance,
          { st.addSelection ((selectedAt outer).length + 1) with
            overshoots := st.overshoots + 1 }⟩
  /-- The row selected at the deepest level is deselected and counts as tried. -/
  | drop {outer : List (Frame g)} {column : Fin g.columns} {tried : List (Fin g.rows)}
      {row : Fin g.rows} {st : Statistics} :
      Move ⟨⟨column, some row, tried⟩ :: outer, .advance, st⟩
        ((Event.restorals ((stageAt (⟨column, none, tried⟩ :: outer)).hidden row).reverse ++
          [Event.deselect row]).map .event)
        ⟨⟨column, none, row :: tried⟩ :: outer, .advance, st⟩
  /-- The deepest level has no rows left. Those tried at it come back, latest first. -/
  | leave {outer : List (Frame g)} {column : Fin g.columns} {tried : List (Fin g.rows)}
      {st : Statistics} (hrows : (stageAt (⟨column, none, tried⟩ :: outer)).rows column = []) :
      Move ⟨⟨column, none, tried⟩ :: outer, .advance, st⟩
        ((tried.flatMap fun row => Event.restorals (g.rowCells row).reverse).map .event)
        ⟨outer, .advance, st⟩
  /-- No level is left. -/
  | finish {st : Statistics} :
      Move ⟨[], .advance, st⟩ [.remark (.exhausted st)] ⟨[], .exhausted, st⟩

/-- Any number of moves, with all their notes. -/
inductive Moves : Outline g → List (Note (Fin g.columns) (Fin g.rows)) → Outline g → Prop where
  | refl (o : Outline g) : Moves o [] o
  | tail {o o₁ o₂ : Outline g} {notes notes' : List (Note (Fin g.columns) (Fin g.rows))}
      (h : Moves o notes o₁) (hlast : Move o₁ notes' o₂) : Moves o (notes ++ notes') o₂

@[simp]
theorem solutions_selectionNotes (s : Stage g) (row : Fin g.rows) :
    Note.solutions (selectionNotes s row) = [] := by
  simp [selectionNotes, -List.map_cons]

theorem Moves.single {o o' : Outline g} {notes : List (Note (Fin g.columns) (Fin g.rows))}
    (h : Move o notes o') : Moves o notes o' := by
  simpa using (Moves.refl o).tail h

theorem Moves.trans {o o₁ o₂ : Outline g} {notes notes' : List (Note (Fin g.columns) (Fin g.rows))}
    (h : Moves o notes o₁) (h' : Moves o₁ notes' o₂) : Moves o (notes ++ notes') o₂ := by
  induction h' with
  | refl => simpa using h
  | tail _ hlast ih =>
    rw [← List.append_assoc]
    exact ih.tail hlast

theorem Outline.valid_start (g : Grid) : (start g).Valid :=
  ⟨.root, fun _ => rfl, fun _ column => by simp [start, stageAt, Stage.initial], fun _ => rfl⟩

/-- A move leads from a place that can be reached to another one. -/
theorem Move.valid {o o' : Outline g} {notes : List (Note (Fin g.columns) (Fin g.rows))}
    (h : Move o notes o') (ho : o.Valid) : o'.Valid := by
  cases h with
  | enter hbest =>
    exact ⟨ho.path.enter (ho.selected rfl) (ho.fitting rfl) hbest, nofun, nofun, nofun⟩
  | find hbest => exact ⟨ho.path, nofun, nofun, nofun⟩
  | pick hrows hfits =>
    refine ⟨ho.path.pick hrows, fun _ => ?_, fun _ => hfits, nofun⟩
    exact congrArg (· + 1) ho.path.of_cons.2.1
  | overshoot hrows hfits => exact ⟨ho.path.pick hrows, nofun, nofun, nofun⟩
  | drop =>
    obtain ⟨hpath, _, hrows⟩ := ho.path.of_pick
    exact ⟨hpath.pass hrows, nofun, nofun, nofun⟩
  | leave hrows => exact ⟨ho.path.of_cons.1, nofun, nofun, nofun⟩
  | finish => exact ⟨.root, nofun, nofun, fun _ => rfl⟩

/-- Moves lead from a place that can be reached to another one. -/
theorem Moves.valid {o o' : Outline g} {notes : List (Note (Fin g.columns) (Fin g.rows))}
    (h : Moves o notes o') (ho : o.Valid) : o'.Valid := by
  induction h with
  | refl => exact ho
  | tail _ hlast ih => exact hlast.valid ih

/-- After the selection of the next row, the columns of that row tell whether any column is past
    its target. -/
theorem fits_iff (hg : g.WellFormed) {outer : List (Frame g)} {column : Fin g.columns}
    {tried rest : List (Fin g.rows)} {row : Fin g.rows}
    (h : Path (⟨column, none, tried⟩ :: outer))
    (hrows : (stageAt (⟨column, none, tried⟩ :: outer)).rows column = row :: rest)
    (phase : Phase) (st : Statistics) (observed : σ) :
    ((⟨⟨column, some row, tried⟩ :: outer, phase, st⟩ : Outline g).search observed).fits row =
        true ↔
      Fitting (⟨column, some row, tried⟩ :: outer) := by
  have hshows := (h.pick hrows).shows hg
  rw [h.fitting_pick_iff hg, Search.fits, List.all_eq_true]
  simp only [decide_eq_true_eq]
  constructor
  · intro hcover c hc
    obtain ⟨entry, hentry, rfl⟩ := List.mem_map.mp hc
    rw [← hshows.due]
    exact hcover entry hentry
  · intro hfits entry hentry
    exact (hshows.due entry.1).symm ▸ hfits entry.1 (List.mem_map_of_mem hentry)

end ExactCover
