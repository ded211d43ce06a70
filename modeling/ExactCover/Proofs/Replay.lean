import ExactCover.Proofs.Problem.Remainder
import ExactCover.Proofs.Solver
import ExactCover.Replay

namespace ExactCover

namespace Replay

variable {C R : Type} [Ord C] [Ord R] [DecidableEq R]

theorem applyAll_cons (r : Replay C R) (e : Event C R) (events : List (Event C R)) :
    r.applyAll (e :: events) = r.apply e >>= fun r => r.applyAll events := List.foldlM_cons

theorem applyAll_append (r : Replay C R) (events events' : List (Event C R)) :
    r.applyAll (events ++ events') = r.applyAll events >>= fun r => r.applyAll events' :=
  List.foldlM_append

variable [Std.TransOrd C] [Std.LawfulEqOrd C] [Std.TransOrd R] [Std.LawfulEqOrd R]

theorem applyAll_removals {r : Replay C R} (hascending : r.coverage.Ascending)
    {pairs : List (C × R)} (hnodup : pairs.Nodup)
    (hmem : ∀ pair ∈ pairs, pair ∈ r.coverage.elements) :
    r.applyAll (Event.removals pairs) =
      .ok { r with coverage := pairs.foldl SortedSet.erase r.coverage } := by
  induction pairs generalizing r with
  | nil => rfl
  | cons pair pairs ih =>
    obtain ⟨hfresh, hnodup⟩ := List.nodup_cons.mp hnodup
    have hcovers : r.covers pair.1 pair.2 = true :=
      (SortedSet.contains_iff hascending).mpr (hmem pair List.mem_cons_self)
    have happly : r.apply (.remove pair.1 pair.2) =
        .ok { r with coverage := r.coverage.erase pair } := by
      rw [apply, if_pos hcovers]
    change r.applyAll (.remove pair.1 pair.2 :: Event.removals pairs) = _
    rw [applyAll_cons, happly]
    refine ih (hascending.erase pair) hnodup fun other hother => ?_
    refine (SortedSet.mem_erase hascending).mpr ⟨hmem other (List.mem_cons_of_mem _ hother), ?_⟩
    exact ne_of_mem_of_not_mem hother hfresh

theorem applyAll_restorals {r : Replay C R} (hascending : r.coverage.Ascending)
    {pairs : List (C × R)} (hnodup : pairs.Nodup)
    (hmem : ∀ pair ∈ pairs, pair ∉ r.coverage.elements) :
    r.applyAll (Event.restorals pairs) =
      .ok { r with coverage := pairs.foldl SortedSet.insert r.coverage } := by
  induction pairs generalizing r with
  | nil => rfl
  | cons pair pairs ih =>
    obtain ⟨hfresh, hnodup⟩ := List.nodup_cons.mp hnodup
    have hcovers : ¬ r.covers pair.1 pair.2 = true := fun h =>
      hmem pair List.mem_cons_self ((SortedSet.contains_iff hascending).mp h)
    have happly : r.apply (.restore pair.1 pair.2) =
        .ok { r with coverage := r.coverage.insert pair } := by
      rw [apply, if_neg hcovers]
    change r.applyAll (.restore pair.1 pair.2 :: Event.restorals pairs) = _
    rw [applyAll_cons, happly]
    refine ih (hascending.insert pair) hnodup fun other hother => ?_
    rw [SortedSet.mem_insert, not_or]
    exact ⟨ne_of_mem_of_not_mem hother hfresh, hmem other (List.mem_cons_of_mem _ hother)⟩

end Replay

namespace Problem

variable {C R σ : Type} [Ord C] [Ord R] [Std.TransOrd C] [Std.LawfulEqOrd C] [Std.TransOrd R]
  [Std.LawfulEqOrd R] {p : Problem C R}

/-- The replay of a search at some levels, with the solution met last. -/
def replayAt (p : Problem C R) (frames : List (Frame p.grid)) (last : Option (List R)) :
    Replay C R where
  coverage := p.pairsLinked (stageAt frames)
  remaining := p.byColumn (stageAt frames).due
  amounts := p.rows
  selected := (selectedAt frames).map p.rowAt
  lastSolution := last

/-- A replay starts where the search starts. -/
theorem WellFormed.replay_start (hp : p.WellFormed) :
    Replay.ofProblem p = p.replayAt [] none := by
  rw [Replay.ofProblem, hp.incidences_eq, demand_eq]
  rfl

/-- Adding the amounts of a row changes what its columns have to receive. -/
theorem WellFormed.shift_byColumn (hp : p.WellFormed) {r : Replay C R}
    {f : Fin p.grid.columns → Int} (hremaining : r.remaining = p.byColumn f)
    (hamounts : r.amounts = p.rows) (row : Fin p.grid.rows) (factor : Int) :
    r.shift (p.rowAt row) factor = { r with
      remaining := p.byColumn fun column => f column + factor * p.grid.amount row column } := by
  have hcover : ((r.amounts.get? (p.rowAt row)).getD ∅).entries =
      (p.grid.cover row).map fun entry => (p.columnAt entry.1, entry.2) := by
    rw [hamounts, ← hp.amountsOf_rowAt]
    rfl
  rw [Replay.shift, hcover, hremaining, List.foldl_map]
  exact congrArg (fun m => { r with remaining := m })
    (hp.modifyAll_byColumn f (hp.grid.columns_nodup row) factor)

variable [DecidableEq R]

/-- Removals of the cells lost take their pairs out of the coverage. -/
theorem WellFormed.applyAll_lost (hp : p.WellFormed) {s t : Stage p.grid}
    {cells : List p.grid.Cell} (h : s.Loses cells t) {r : Replay C R}
    (hr : r.coverage = p.pairsLinked s) :
    r.applyAll (p.labelledEvents (Event.removals cells)) =
      .ok { r with coverage := p.pairsLinked t } := by
  have hascending := ascending_pairsLinked p s
  rw [← hr] at hascending
  rw [labelledEvents_removals, Replay.applyAll_removals hascending
    (h.nodup.map hp.pairAt_injective), hr, hp.eraseAll_pairsLinked h]
  rw [List.forall_mem_map, hr]
  exact fun cell hcell => hp.pairAt_mem_pairsLinked.mpr (h.linked cell hcell)

/-- Restoring the cells that were lost, in the opposite order. -/
theorem WellFormed.applyAll_regained (hp : p.WellFormed) {s t : Stage p.grid}
    {cells : List p.grid.Cell} (h : s.Loses cells t) {r : Replay C R}
    (hr : r.coverage = p.pairsLinked t) :
    r.applyAll (p.labelledEvents (Event.restorals cells.reverse)) =
      .ok { r with coverage := p.pairsLinked s } := by
  have hascending := ascending_pairsLinked p t
  rw [← hr] at hascending
  rw [labelledEvents_restorals, Replay.applyAll_restorals hascending
    ((List.nodup_reverse.mpr h.nodup).map hp.pairAt_injective), hr, insertAll_pairsLinked h]
  rw [List.forall_mem_map, hr]
  intro cell hcell hmem
  exact ((h.linked_iff cell).mp (hp.pairAt_mem_pairsLinked.mp hmem)).2 (List.mem_reverse.mp hcell)

variable {outer : List (Frame p.grid)} {column : Fin p.grid.columns}
  {tried rest : List (Fin p.grid.rows)} {row : Fin p.grid.rows} (last : Option (List R))

theorem WellFormed.replay_select (hp : p.WellFormed) (h : Path (⟨column, none, tried⟩ :: outer))
    (hrows : (stageAt (⟨column, none, tried⟩ :: outer)).rows column = row :: rest) :
    (p.replayAt (⟨column, none, tried⟩ :: outer) last).applyAll (p.labelledEvents
        (Note.events (selectionNotes (stageAt (⟨column, none, tried⟩ :: outer)) row))) =
      .ok (p.replayAt (⟨column, some row, tried⟩ :: outer) last) := by
  have hloses := (Stage.select_spec hp.grid (h.settled hp.grid)
    (h.available_next hp.grid hrows)).1
  have hpush : (p.replayAt (⟨column, none, tried⟩ :: outer) last).apply (.select (p.rowAt row)) =
      .ok { p.replayAt (⟨column, some row, tried⟩ :: outer) last with
        coverage := p.pairsLinked (stageAt (⟨column, none, tried⟩ :: outer)) } := by
    have hdue : (fun c => (stageAt (⟨column, none, tried⟩ :: outer)).due c +
        -1 * (p.grid.amount row c : Int)) = (stageAt (⟨column, some row, tried⟩ :: outer)).due := by
      funext c
      rw [stageAt_pick, Stage.due_select hp.grid]
      omega
    rw [Replay.apply, Replay.push, hp.shift_byColumn rfl rfl, hdue]
    rfl
  rw [selectionNotes, Note.events_map_event]
  change Replay.applyAll _ (.select (p.rowAt row) :: p.labelledEvents (Event.removals _)) = _
  rw [Replay.applyAll_cons, hpush]
  exact hp.applyAll_lost hloses rfl

theorem WellFormed.replay_deselect (hp : p.WellFormed)
    (h : Path (⟨column, some row, tried⟩ :: outer)) :
    (p.replayAt (⟨column, some row, tried⟩ :: outer) last).applyAll (p.labelledEvents
        (Event.restorals ((stageAt (⟨column, none, tried⟩ :: outer)).hidden row).reverse ++
          [.deselect row])) =
      .ok (p.replayAt (⟨column, none, row :: tried⟩ :: outer) last) := by
  obtain ⟨hpath, _, hrows⟩ := h.of_pick
  have hnext := hpath.available_next hp.grid hrows
  have hloses := (Stage.loses_hidden hp.grid (hpath.settled hp.grid) hnext).1
  have hdue : (fun c => (stageAt (⟨column, some row, tried⟩ :: outer)).due c +
      1 * (p.grid.amount row c : Int)) = (stageAt (⟨column, none, row :: tried⟩ :: outer)).due := by
    funext c
    rw [stageAt_pick, Stage.due_select hp.grid, one_mul, sub_add_cancel]
    rfl
  have hpop : { p.replayAt (⟨column, some row, tried⟩ :: outer) last with
      coverage := p.pairsLinked (stageAt (⟨column, none, row :: tried⟩ :: outer)) }.apply
        (.deselect (p.rowAt row)) =
          .ok (p.replayAt (⟨column, none, row :: tried⟩ :: outer) last) := by
    simp only [Replay.apply, Replay.pop?, replayAt, selectedAt_pick, List.map_cons, if_true]
    rw [hp.shift_byColumn rfl rfl, hdue]
    rfl
  rw [labelledEvents_append, Replay.applyAll_append, hp.applyAll_regained hloses rfl]
  change Replay.applyAll _ [.deselect (p.rowAt row)] = _
  rw [Replay.applyAll_cons]
  exact congrArg (· >>= fun r => r.applyAll []) hpop

theorem WellFormed.replay_leave (hp : p.WellFormed) (h : Path (⟨column, none, tried⟩ :: outer)) :
    (p.replayAt (⟨column, none, tried⟩ :: outer) last).applyAll (p.labelledEvents
        (tried.flatMap fun row => Event.restorals (p.grid.rowCells row).reverse)) =
      .ok (p.replayAt outer last) := by
  induction tried with
  | nil => rfl
  | cons row tried ih =>
    obtain ⟨hpath, _, hrows⟩ := h.of_pass
    have hloses := Stage.loses_withdraw hp.grid (hpath.available_next hp.grid hrows)
    rw [List.flatMap_cons, labelledEvents_append, Replay.applyAll_append,
      hp.applyAll_regained hloses rfl]
    exact ih hpath

/-- The events of a move fit the replay and lead to the replay of the place that is reached. -/
theorem WellFormed.replay_move (hp : p.WellFormed) {o o' : Outline p.grid}
    {notes : List (Note (Fin p.grid.columns) (Fin p.grid.rows))} (h : Move o notes o')
    (ho : o.Valid) :
    (p.replayAt o.frames last).applyAll (Note.events (p.labelled notes)) =
      .ok (p.replayAt o'.frames ((p.labelledSolutions notes).getLast?.or last)) := by
  rw [events_labelled]
  cases h with
  | enter hbest => rfl
  | @find frames st hbest =>
    have hselection : (selectedAt frames).reverse.map p.rowAt =
        (p.replayAt frames last).selection := by
      rw [Replay.selection, replayAt, List.map_reverse]
    change Replay.applyAll _ [.solution ((selectedAt frames).reverse.map p.rowAt)] = _
    rw [Replay.applyAll_cons, Replay.apply, if_pos hselection]
    rfl
  | pick hrows hfits =>
    rw [hp.replay_select last ho.path hrows, labelledSolutions, solutions_selectionNotes]
    rfl
  | overshoot hrows hfits =>
    rw [Note.events_append, Note.events_remark, Note.events_nil, List.append_nil,
      hp.replay_select last ho.path hrows, labelledSolutions, Note.solutions_append,
      solutions_selectionNotes]
    rfl
  | drop =>
    rw [Note.events_map_event, hp.replay_deselect last ho.path, labelledSolutions,
      Note.solutions_map_event, Event.solutions_append, Event.solutions_restorals]
    rfl
  | leave hrows =>
    rw [Note.events_map_event, hp.replay_leave last ho.path, labelledSolutions,
      Note.solutions_map_event, Event.solutions_flatMap_restorals]
    rfl
  | finish => rfl

/-- After any moves the events so far fit the replay and tell where the search stands. -/
theorem WellFormed.replay_moves (hp : p.WellFormed) {o o' : Outline p.grid}
    {notes : List (Note (Fin p.grid.columns) (Fin p.grid.rows))} (h : Moves o notes o')
    (ho : o.Valid) :
    (p.replayAt o.frames last).applyAll (Note.events (p.labelled notes)) =
      .ok (p.replayAt o'.frames ((p.labelledSolutions notes).getLast?.or last)) := by
  induction h with
  | refl => rfl
  | @tail o₁ o₂ notes notes' hmoves hlast ih =>
    rw [labelled_append, Note.events_append, Replay.applyAll_append, ih]
    have hmove := hp.replay_move ((p.labelledSolutions notes).getLast?.or last) hlast
      (hmoves.valid ho)
    rw [labelledSolutions_append, List.getLast?_append, Option.or_assoc]
    exact hmove

variable [DecidableEq C]

omit [DecidableEq R] in
/-- The coverage of the search lists its active columns, each with the rows that a replay has for
    it. -/
theorem WellFormed.coverage_replayAt (hp : p.WellFormed) {o : Outline p.grid} (ho : o.Valid)
    (L : Listener C R σ) (observed : σ) :
    (p.solverAt L o observed).coverage =
      (p.solverAt L o observed).search.links.active.forward.map fun column =>
        (p.columnAt column, (p.replayAt o.frames last).rowsCovering (p.columnAt column)) := by
  have hrows (c : Fin p.grid.columns) :
      ((p.solverAt L o observed).search.links.rows c).forward.map p.rowAt =
        (p.replayAt o.frames last).rowsCovering (p.columnAt c) := by
    have hforward := ((ho.path.shows hp.grid).rows c).forward_eq
    exact (congrArg (List.map p.rowAt) hforward).trans (hp.rows_pairsLinked _ c).symm
  rw [Solver.coverage, Links.coverage, List.map_map]
  exact List.map_congr_left fun c _ => congrArg (Prod.mk (p.columnAt c)) (hrows c)

/-- A replay of all events so far, at any time of any run: every event fits, and the replay has just
    the pairs that are linked in the lists of the search, its active columns and what every column
    still has to receive, its partial solution, its whole coverage, and the solution that was
    returned last. -/
theorem Reachable.replay_tracks (hp : p.Reachable) {found : List (List R)}
    {t : Solver C R (Array (Event C R))} (h : (p.solve .logging #[]).Reaches found t) :
    ∃ r, (Replay.ofProblem p).applyAll t.observed.toList = .ok r ∧ r.coverage.Ascending ∧
      (∀ pair, pair ∈ r.coverage.elements ↔ ∃ column row,
        row ∈ (t.search.links.rows column).forward ∧
          pair = (t.problem.columnAt column, t.problem.rowAt row)) ∧
      r.activeColumns = t.search.links.active.forward.map t.problem.columnAt ∧
      (∀ column, r.remaining? (t.problem.columnAt column) = some (t.search.links.due column)) ∧
      r.selection = t.search.selection.map t.problem.rowAt ∧
      t.coverage = (t.search.links.active.forward.map fun column =>
        (t.problem.columnAt column, r.rowsCovering (t.problem.columnAt column))) ∧
      r.lastSolution = found.getLast? := by
  have hwell := hp.wellFormed
  have hg := hwell.grid
  have hstart := Outline.valid_start p.grid
  obtain ⟨notes, o, hmoves, rfl, rfl⟩ := outline_of_reaches hg h
  have ho := hmoves.valid hstart
  have hshows := ho.path.shows hg
  refine ⟨p.replayAt o.frames (p.labelledSolutions notes).getLast?, ?_, ascending_pairsLinked p _,
    fun pair => ?_, ?_, fun column => ?_, ?_, hwell.coverage_replayAt _ ho _ _, rfl⟩
  · have hreplay := hwell.replay_moves none hmoves hstart
    rw [Option.or_none] at hreplay
    rw [log_solverAt, hwell.replay_start]
    exact hreplay
  · rw [replayAt, mem_pairsLinked]
    constructor
    · rintro ⟨⟨column, row⟩, hlinked, rfl⟩
      refine ⟨column, row, ?_, rfl⟩
      exact (hshows.rows column).forward_eq ▸ Stage.mem_rows.mpr hlinked
    · rintro ⟨column, row, hrow, rfl⟩
      refine ⟨(column, row), ?_, rfl⟩
      exact Stage.mem_rows.mp ((hshows.rows column).forward_eq ▸ hrow)
  · have hactive := hshows.active.forward_eq
    exact (activeColumns_byColumn _).trans (congrArg (List.map p.columnAt) hactive.symm)
  · have hdue := hshows.due column
    exact (hwell.get?_byColumn _ column).trans (congrArg some hdue.symm)
  · rw [Replay.selection, replayAt, ← List.map_reverse]
    rfl

/-- The replay of a search with two columns and three rows, between its two solutions: one column is
    active and a single row covers it, in the lists and for the replay. -/
theorem Reachable.replay_between_solutions : ∃ p : Problem Nat Nat, ∃ t,
    (p.solve .logging #[]).Reaches [[7]] t ∧ t.observed.size = 7 ∧ t.coverage = [(2, [9])] ∧
    ∃ r, (Replay.ofProblem p).applyAll t.observed.toList = .ok r ∧ r.activeColumns = [2] ∧
      r.rowsCovering 2 = [9] ∧ r.lastSolution = some [7] := by
  obtain ⟨p, hp, hfirst, hnone, hsize, hlists⟩ : ∃ p : Problem Nat Nat, p.Reachable ∧
      (p.solve Listener.logging #[]).next.1 = some [7] ∧
      (p.solve Listener.logging #[]).next.2.step.1 = none ∧
      (p.solve Listener.logging #[]).next.2.step.2.observed.size = 7 ∧
      (p.solve Listener.logging #[]).next.2.step.2.coverage = [(2, [9])] :=
    ⟨_, .attempt (.addUnitRow 9 [2]) (.attempt (.addUnitRow 8 [1])
      (.attempt (.addUnitRow 7 [1, 2]) (.ofColumns (rfl : Problem.ofColumns [1, 2] = .ok _)))),
      by decide +kernel, by decide +kernel, by decide +kernel, by decide +kernel⟩
  have hreaches := (Solver.Reaches.refl (s := p.solve Listener.logging #[])).next.step
  rw [hfirst, hnone] at hreaches
  obtain ⟨r, happly, -, -, hactive, -, -, hcoverage, hlast⟩ := hp.replay_tracks hreaches
  -- The coverage of the solver is known, so its equation with that of the replay tells both
  obtain ⟨column, hcolumn, hentry⟩ := List.map_eq_singleton_iff.mp (hcoverage.symm.trans hlists)
  obtain ⟨hlabel, hrows⟩ := Prod.mk.inj hentry
  refine ⟨p, _, hreaches, hsize, hlists, r, happly, ?_, hlabel ▸ hrows, hlast⟩
  rw [hactive, hcolumn, List.map_singleton, hlabel]

end Problem

end ExactCover
