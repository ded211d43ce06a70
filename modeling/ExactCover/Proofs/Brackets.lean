import ExactCover.Proofs.Solutions

namespace ExactCover

/-- What some events leave open. Selections are taken back latest first, and so are removals, but
    the two kinds cross each other: what a row removes from its own columns comes back only when its
    level is left, long after the row was deselected. -/
structure Brackets (C R : Type) where
  /-- The rows selected and not yet deselected, latest first. -/
  selected : List R
  /-- The pairs removed and not yet restored, latest first. -/
  removed : List (C × R)
deriving DecidableEq, Repr

namespace Brackets

variable {C R : Type}

/-- Before the first event nothing is open. -/
def empty : Brackets C R := ⟨[], []⟩

/-- What is open after one more event. -/
def after [DecidableEq C] [DecidableEq R] (b : Brackets C R) : Event C R → Brackets C R
  | .select row => { b with selected := row :: b.selected }
  | .deselect row => { b with selected := b.selected.erase row }
  | .remove column row => { b with removed := (column, row) :: b.removed }
  | .restore column row => { b with removed := b.removed.erase (column, row) }
  | .solution _ => b

/-- What is open after some more events. -/
def afterAll [DecidableEq C] [DecidableEq R] (b : Brackets C R) (events : List (Event C R)) :
    Brackets C R := events.foldl after b

variable [Ord C] [Ord R]

/-- Whether an event may come next among the events of a search for the solutions of a problem. -/
def Admits (p : Problem C R) (b : Brackets C R) : Event C R → Prop
  | .select row => row ∉ b.selected
  | .deselect row => b.selected.head? = some row
  | .remove column row => (column, row) ∉ b.removed ∧ column ∈ p.columns ∧
      (p.amount? row column).isSome = true
  | .restore column row => b.removed.head? = some (column, row) ∧ column ∈ p.columns ∧
      (p.amount? row column).isSome = true
  | .solution rows => rows = b.selected.reverse ∧ p.IsSolution rows

variable [DecidableEq C] [DecidableEq R]

/-- Events that are admitted, one after the other, between what is open before and after them. -/
inductive Nested (p : Problem C R) : Brackets C R → List (Event C R) → Brackets C R → Prop where
  | nil (b : Brackets C R) : Nested p b [] b
  | cons {b b' : Brackets C R} {e : Event C R} {events : List (Event C R)} (h : b.Admits p e)
      (hrest : Nested p (b.after e) events b') : Nested p b (e :: events) b'

variable {p : Problem C R} {b b' b'' : Brackets C R} {events events' : List (Event C R)}

theorem Nested.single {e : Event C R} (h : b.Admits p e) : Nested p b [e] (b.after e) :=
  .cons h (.nil _)

theorem Nested.append (h : Nested p b events b') (h' : Nested p b' events' b'') :
    Nested p b (events ++ events') b'' := by
  induction h with
  | nil => exact h'
  | cons hadmits _ ih => exact .cons hadmits (ih h')

theorem Nested.afterAll_eq (h : Nested p b events b') : b.afterAll events = b' := by
  induction h with
  | nil => rfl
  | cons _ _ ih => exact ih

/-- Each of the events is admitted after those in front of it. -/
theorem Nested.admits (h : Nested p b events b') {earlier : List (Event C R)} {e : Event C R}
    (hearlier : earlier ++ [e] <+: events) : (b.afterAll earlier).Admits p e := by
  induction h generalizing earlier with
  | nil => simp at hearlier
  | cons hadmits _ ih =>
    cases earlier with
    | nil =>
      obtain ⟨rfl, -⟩ := List.cons_prefix_cons.mp hearlier
      exact hadmits
    | cons first earlier =>
      obtain ⟨rfl, hrest⟩ := List.cons_prefix_cons.mp hearlier
      exact ih hrest

/-- Removals of different pairs that are not removed yet are admitted. -/
theorem nested_removals {pairs : List (C × R)} (hnodup : pairs.Nodup)
    (hclosed : ∀ pair ∈ pairs, pair ∉ b.removed)
    (hcovers : ∀ pair ∈ pairs, pair.1 ∈ p.columns ∧ (p.amount? pair.2 pair.1).isSome = true) :
    Nested p b (Event.removals pairs) { b with removed := pairs.reverse ++ b.removed } := by
  induction pairs generalizing b with
  | nil => exact .nil b
  | cons pair pairs ih =>
    obtain ⟨hfresh, hnodup⟩ := List.nodup_cons.mp hnodup
    rw [List.reverse_cons, List.append_assoc]
    refine .cons ⟨hclosed pair List.mem_cons_self, hcovers pair List.mem_cons_self⟩ ?_
    refine ih hnodup (fun other hother => ?_) fun other hother =>
      hcovers other (List.mem_cons_of_mem _ hother)
    exact List.not_mem_cons_of_ne_of_not_mem (ne_of_mem_of_not_mem hother hfresh)
      (hclosed other (List.mem_cons_of_mem _ hother))

/-- Restorations are admitted in the opposite order of the removals. -/
theorem nested_restorals {pairs others : List (C × R)} (hopen : b.removed = pairs ++ others)
    (hcovers : ∀ pair ∈ pairs, pair.1 ∈ p.columns ∧ (p.amount? pair.2 pair.1).isSome = true) :
    Nested p b (Event.restorals pairs) { b with removed := others } := by
  induction pairs generalizing b with
  | nil =>
    rw [List.nil_append] at hopen
    rw [← hopen]
    exact .nil b
  | cons pair pairs ih =>
    rw [List.cons_append] at hopen
    refine .cons ⟨by rw [hopen]; rfl, hcovers pair List.mem_cons_self⟩ ?_
    have hrest : (b.after (.restore pair.1 pair.2)).removed = pairs ++ others := by
      rw [after, hopen]
      exact List.erase_cons_head ..
    exact ih hrest fun other hother => hcovers other (List.mem_cons_of_mem _ hother)

end Brackets

section Levels

variable {g : Grid} {outer : List (Frame g)} {column : Fin g.columns}
  {tried : List (Fin g.rows)} {row : Fin g.rows}

/-- The cells taken out at some levels, latest first. A row that was tried took out its own cells,
    and the current one those that it hides as well. -/
def removedAt : List (Frame g) → List g.Cell
  | [] => []
  | frame :: outer =>
    let s := stageAt (⟨frame.column, none, frame.tried⟩ :: outer)
    frame.current.elim [] (fun row => (g.rowCells row ++ s.hidden row).reverse) ++
      (frame.tried.flatMap fun row => (g.rowCells row).reverse) ++ removedAt outer

@[simp]
theorem removedAt_none : removedAt (⟨column, none, tried⟩ :: outer) =
    (tried.flatMap fun row => (g.rowCells row).reverse) ++ removedAt outer := rfl

theorem removedAt_pass : removedAt (⟨column, none, row :: tried⟩ :: outer) =
    (g.rowCells row).reverse ++ removedAt (⟨column, none, tried⟩ :: outer) := by
  simp

/-- A selected row opens its own removals and then those of the rows that it hides. -/
theorem removedAt_pick : removedAt (⟨column, some row, tried⟩ :: outer) =
    (g.rowCells row ++ (stageAt (⟨column, none, tried⟩ :: outer)).hidden row).reverse ++
      removedAt (⟨column, none, tried⟩ :: outer) := List.append_assoc _ _ _

/-- What was taken out is not linked. -/
theorem Path.not_linked_of_mem_removedAt (hg : g.WellFormed) {frames : List (Frame g)}
    (h : Path frames) : ∀ cell ∈ removedAt frames, ¬ (stageAt frames).Linked cell := by
  have hlost {s t : Stage g} {cells others : List g.Cell} (hloses : s.Loses cells t)
      (hothers : ∀ cell ∈ others, ¬ s.Linked cell) :
      ∀ cell ∈ cells.reverse ++ others, ¬ t.Linked cell := by
    intro cell hcell hlinked
    obtain ⟨hbefore, hkept⟩ := (hloses.linked_iff cell).mp hlinked
    obtain hcell | hcell := List.mem_append.mp hcell
    · exact hkept (List.mem_reverse.mp hcell)
    · exact hothers cell hcell hbefore
  induction h with
  | root => simp [removedAt]
  | enter _ _ _ _ ih => exact ih
  | pick hpath hrows ih =>
    rw [removedAt_pick, stageAt_pick]
    exact hlost (Stage.select_spec hg (hpath.settled hg) (hpath.available_next hg hrows)).1 ih
  | pass hpath hrows ih =>
    rw [removedAt_pass, stageAt_pass]
    exact hlost (Stage.loses_withdraw hg (hpath.available_next hg hrows)) ih

end Levels

namespace Problem

open Brackets (Nested)

variable {C R : Type} [Ord C] [Ord R] {p : Problem C R}

/-- What is open at some levels of a search. -/
def bracketsAt (p : Problem C R) (frames : List (Frame p.grid)) : Brackets C R :=
  ⟨(selectedAt frames).map p.rowAt, (removedAt frames).map p.pairAt⟩

variable [Std.TransOrd C] [Std.LawfulEqOrd C] [Std.TransOrd R] [Std.LawfulEqOrd R]

/-- The labels of cells are columns with rows that cover them. -/
theorem WellFormed.covers_pairAt (hp : p.WellFormed) {cells : List p.grid.Cell}
    (hcells : ∀ cell ∈ cells, cell.1 ∈ p.grid.columnsOf cell.2) :
    ∀ pair ∈ cells.map p.pairAt,
      pair.1 ∈ p.columns ∧ (p.amount? pair.2 pair.1).isSome = true := by
  rw [List.forall_mem_map]
  intro cell hcell
  exact ⟨mem_columns.mpr ⟨cell.1, rfl⟩, (hp.isSome_amount?_labels _ _).mpr (hcells cell hcell)⟩

variable [DecidableEq C] [DecidableEq R] {outer : List (Frame p.grid)}
  {column : Fin p.grid.columns} {tried rest : List (Fin p.grid.rows)} {row : Fin p.grid.rows}

/-- Removals of cells that are linked at some levels, after anything that took no cell out. -/
theorem WellFormed.nested_lost (hp : p.WellFormed) {frames : List (Frame p.grid)}
    (h : Path frames) {t : Stage p.grid} {cells : List p.grid.Cell}
    (hloses : (stageAt frames).Loses cells t) {b : Brackets C R}
    (hb : b.removed = (removedAt frames).map p.pairAt) :
    Nested p b (p.labelledEvents (Event.removals cells))
      { b with removed := (cells.reverse ++ removedAt frames).map p.pairAt } := by
  have hclosed : ∀ pair ∈ cells.map p.pairAt, pair ∉ b.removed := by
    rw [List.forall_mem_map, hb]
    intro cell hcell hremoved
    obtain ⟨other, hother, heq⟩ := List.mem_map.mp hremoved
    rw [hp.pairAt_injective heq] at hother
    exact h.not_linked_of_mem_removedAt hp.grid cell hother (hloses.linked cell hcell)
  have hnested := Brackets.nested_removals (hloses.nodup.map hp.pairAt_injective) hclosed
    (hp.covers_pairAt fun cell hcell => (hloses.linked cell hcell).1)
  rwa [← List.map_reverse, hb, ← List.map_append, ← labelledEvents_removals] at hnested

/-- Restorals of the cells that were taken out last. -/
theorem WellFormed.nested_regained (hp : p.WellFormed) {cells others : List p.grid.Cell}
    (hcells : ∀ cell ∈ cells, cell.1 ∈ p.grid.columnsOf cell.2) {b : Brackets C R}
    (hb : b.removed = (cells.reverse ++ others).map p.pairAt) :
    Nested p b (p.labelledEvents (Event.restorals cells.reverse))
      { b with removed := others.map p.pairAt } := by
  rw [labelledEvents_restorals]
  refine Brackets.nested_restorals (hb.trans List.map_append)
    (hp.covers_pairAt fun cell hcell => ?_)
  exact hcells cell (List.mem_reverse.mp hcell)

/-- A selection opens brackets up to those of the level with the selected row. -/
theorem WellFormed.nested_select (hp : p.WellFormed) (h : Path (⟨column, none, tried⟩ :: outer))
    (hrows : (stageAt (⟨column, none, tried⟩ :: outer)).rows column = row :: rest) :
    Nested p (p.bracketsAt (⟨column, none, tried⟩ :: outer))
      (p.labelledEvents
        (Note.events (selectionNotes (stageAt (⟨column, none, tried⟩ :: outer)) row)))
      (p.bracketsAt (⟨column, some row, tried⟩ :: outer)) := by
  have havailable := h.available_next hp.grid hrows
  have hloses := (Stage.select_spec hp.grid (h.settled hp.grid) havailable).1
  have hfresh : p.rowAt row ∉ (p.bracketsAt (⟨column, none, tried⟩ :: outer)).selected := by
    intro hselected
    obtain ⟨other, hother, heq⟩ := List.mem_map.mp hselected
    rw [hp.rowAt_injective heq] at hother
    exact havailable.1 ((selectedAt_sublist _).subset hother)
  have hremovals := hp.nested_lost h hloses
    (b := (p.bracketsAt (⟨column, none, tried⟩ :: outer)).after (.select (p.rowAt row))) rfl
  rw [← removedAt_pick] at hremovals
  rw [selectionNotes, Note.events_map_event]
  exact .cons hfresh hremovals

/-- A deselection closes the selection and the removals of other rows. Those of the row itself stay
    open. -/
theorem WellFormed.nested_deselect (hp : p.WellFormed)
    (h : Path (⟨column, some row, tried⟩ :: outer)) :
    Nested p (p.bracketsAt (⟨column, some row, tried⟩ :: outer))
      (p.labelledEvents
        (Event.restorals ((stageAt (⟨column, none, tried⟩ :: outer)).hidden row).reverse ++
          [.deselect row]))
      (p.bracketsAt (⟨column, none, row :: tried⟩ :: outer)) := by
  obtain ⟨hpath, _, hrows⟩ := h.of_pick
  have hloses := (Stage.loses_hidden hp.grid (hpath.settled hp.grid)
    (hpath.available_next hp.grid hrows)).1
  have hremoved : (p.bracketsAt (⟨column, some row, tried⟩ :: outer)).removed =
      (((stageAt (⟨column, none, tried⟩ :: outer)).hidden row).reverse ++
        removedAt (⟨column, none, row :: tried⟩ :: outer)).map p.pairAt := by
    rw [bracketsAt, removedAt_pick, removedAt_pass, List.reverse_append, List.append_assoc]
  have hrestorals := hp.nested_regained (fun cell hcell => (hloses.linked cell hcell).1) hremoved
  have hlast : Brackets.after ⟨p.rowAt row :: (selectedAt outer).map p.rowAt,
      (removedAt (⟨column, none, row :: tried⟩ :: outer)).map p.pairAt⟩
        (.deselect (p.rowAt row)) = p.bracketsAt (⟨column, none, row :: tried⟩ :: outer) :=
    congrArg (Brackets.mk · _) (List.erase_cons_head ..)
  rw [labelledEvents_append, ← hlast]
  exact hrestorals.append (.single rfl)

/-- Leaving a level closes what the rows tried at it have opened. -/
theorem WellFormed.nested_leave (hp : p.WellFormed) (outer : List (Frame p.grid))
    (column : Fin p.grid.columns) (tried : List (Fin p.grid.rows)) :
    Nested p (p.bracketsAt (⟨column, none, tried⟩ :: outer))
      (p.labelledEvents
        (tried.flatMap fun row => Event.restorals (p.grid.rowCells row).reverse))
      (p.bracketsAt outer) := by
  induction tried with
  | nil => exact .nil _
  | cons row tried ih =>
    rw [List.flatMap_cons, labelledEvents_append]
    refine Nested.append ?_ ih
    refine hp.nested_regained (fun cell hcell => ?_) (congrArg _ removedAt_pass)
    obtain ⟨hcolumn, hrow⟩ := Grid.mem_rowCells.mp hcell
    exact hrow ▸ hcolumn

/-- The events of a move are nested, and what they leave open follows from the levels. -/
theorem WellFormed.nested_move (hp : p.WellFormed) {o o' : Outline p.grid}
    {notes : List (Note (Fin p.grid.columns) (Fin p.grid.rows))} (h : Move o notes o')
    (ho : o.Valid) :
    Nested p (p.bracketsAt o.frames) (Note.events (p.labelled notes))
      (p.bracketsAt o'.frames) := by
  have hexact := h.exact hp.grid ho
  rw [events_labelled]
  cases h with
  | enter hbest => exact .nil _
  | @find frames st hbest =>
    refine Nested.single ⟨List.map_reverse, ?_⟩
    exact hp.isSolution_labels.mpr (hexact _ (by simp))
  | pick hrows hfits => exact hp.nested_select ho.path hrows
  | overshoot hrows hfits =>
    rw [Note.events_append, Note.events_remark, Note.events_nil, List.append_nil]
    exact hp.nested_select ho.path hrows
  | drop =>
    rw [Note.events_map_event]
    exact hp.nested_deselect ho.path
  | leave hrows =>
    rw [Note.events_map_event]
    exact hp.nested_leave _ _ _
  | finish => exact .nil _

/-- After any moves the events so far are nested. -/
theorem WellFormed.nested_moves (hp : p.WellFormed) {o o' : Outline p.grid}
    {notes : List (Note (Fin p.grid.columns) (Fin p.grid.rows))} (h : Moves o notes o')
    (ho : o.Valid) :
    Nested p (p.bracketsAt o.frames) (Note.events (p.labelled notes))
      (p.bracketsAt o'.frames) := by
  induction h with
  | refl => exact .nil _
  | tail hmoves hlast ih =>
    rw [labelled_append, Note.events_append]
    exact ih.append (hp.nested_move hlast (hmoves.valid ho))

/-- The bracket discipline, at any time of any run. Every event so far is admitted by what the
    events in front of it leave open: a row is not selected while it is selected, and the one
    deselected is the one selected last; a pair is not removed while it is removed, and the one
    restored is the one removed last, always a column of the problem and a row that covers it; a
    solution has the selected rows, oldest first, and they are one. Once the search is over nothing
    is open. -/
theorem Reachable.events_nested (hp : p.Reachable) {found : List (List R)}
    {t : Solver C R (Array (Event C R))} (h : (p.solve .logging #[]).Reaches found t) :
    (∀ earlier e, earlier ++ [e] <+: t.observed.toList →
      (Brackets.empty.afterAll earlier).Admits p e) ∧
    (t.isExhausted = true → Brackets.empty.afterAll t.observed.toList = .empty) := by
  have hwell := hp.wellFormed
  have hstart := Outline.valid_start p.grid
  obtain ⟨notes, o, hmoves, -, rfl⟩ := outline_of_reaches hwell.grid h
  have hlog : (p.solverAt .logging o (Listener.logging.hearAll (p.starting :: p.labelled notes)
      #[])).observed.toList = Note.events (p.labelled notes) := log_solverAt _ _ _
  have hnested := hwell.nested_moves hmoves hstart
  rw [hlog]
  refine ⟨fun earlier e hearlier => hnested.admits hearlier, fun hover => ?_⟩
  have hframes := (hmoves.valid hstart).frames_eq_nil (beq_iff_eq.mp hover)
  rw [hframes] at hnested
  exact hnested.afterAll_eq

/-- A search with one column and two rows. What the first row removes stays removed after it was
    deselected, until the search is over. -/
theorem Reachable.removal_outlasts_selection : ∃ p : Problem Nat Nat, ∃ t,
    (p.solve .logging #[]).Reaches [[7], [8]] t ∧
    [.select 7, .remove 1 7, .solution [7], .deselect 7] ++ [.select 8] <+: t.observed.toList ∧
    (Brackets.mk [] [(1, 7)]).Admits p (.select 8) ∧
    Brackets.empty.afterAll t.observed.toList = .empty := by
  obtain ⟨p, hp, hfirst, hsecond, hthird, hover, hlog⟩ : ∃ p : Problem Nat Nat, p.Reachable ∧
      (p.solve Listener.logging #[]).next.1 = some [7] ∧
      (p.solve Listener.logging #[]).next.2.next.1 = some [8] ∧
      (p.solve Listener.logging #[]).next.2.next.2.next.1 = none ∧
      (p.solve Listener.logging #[]).next.2.next.2.next.2.isExhausted = true ∧
      [.select 7, .remove 1 7, .solution [7], .deselect 7] ++ [.select 8] <+:
        (p.solve Listener.logging #[]).next.2.next.2.next.2.observed.toList :=
    ⟨_, .attempt (.addUnitRow 8 [1]) (.attempt (.addUnitRow 7 [1])
      (.ofColumns (rfl : Problem.ofColumns [1] = .ok _))),
      by decide +kernel, by decide +kernel, by decide +kernel, by decide +kernel,
      by decide +kernel⟩
  have hreaches := (Solver.Reaches.refl (s := p.solve Listener.logging #[])).next.next.next
  rw [hfirst, hsecond, hthird] at hreaches
  obtain ⟨hadmits, hend⟩ := hp.events_nested hreaches
  exact ⟨p, _, hreaches, hlog, hadmits _ _ hlog, hend hover⟩

end Problem

end ExactCover
