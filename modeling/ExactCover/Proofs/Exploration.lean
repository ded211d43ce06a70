import ExactCover.Proofs.Problem.Remainder
import ExactCover.Proofs.Solver

namespace ExactCover.Problem

variable {C R σ : Type} [Ord C] {p : Problem C R}

variable [Ord R] [Std.TransOrd C] [Std.LawfulEqOrd C] [Std.TransOrd R] [Std.LawfulEqOrd R]

/-- Withdrawing a row takes its pairs out of the plain sets. -/
theorem WellFormed.eraseAll_remainder (hp : p.WellFormed) {s : Stage p.grid}
    {row : Fin p.grid.rows} (hrow : s.Available row) :
    (p.remainder s).eraseAll (p.pairsOf (p.rowAt row)) = p.remainder (s.withdraw row) := by
  rw [Remainder.eraseAll, hp.pairsOf_rowAt]
  have herase := hp.eraseAll_pairsLinked (Stage.loses_withdraw hp.grid hrow)
  exact congrArg (Remainder.mk · (p.byColumn s.due)) herase

theorem WellFormed.fits_remainder (hp : p.WellFormed) (s : Stage p.grid) (row : Fin p.grid.rows) :
    (∀ pair ∈ p.pairsOf (p.rowAt row), 0 ≤ ((p.remainder s).due.get? pair.1).getD 0) ↔
      ∀ c ∈ p.grid.columnsOf row, 0 ≤ s.due c := by
  rw [hp.pairsOf_rowAt, List.forall_mem_map]
  constructor
  · intro h c hc
    have hdue := h (c, row) (Grid.mem_rowCells.mpr ⟨hc, rfl⟩)
    rwa [pairAt, remainder, hp.get?_byColumn] at hdue
  · intro h cell hcell
    rw [pairAt, remainder, hp.get?_byColumn]
    exact h cell.1 (Grid.mem_rowCells.mp hcell).1

variable [DecidableEq C]

theorem WellFormed.pairsOutside (hp : p.WellFormed) (column : Fin p.grid.columns)
    (rows : List (Fin p.grid.rows)) :
    (rows.map p.rowAt).flatMap
        (fun row => (p.pairsOf row).filter fun pair => pair.1 ≠ p.columnAt column) =
      (rows.flatMap (Links.cellsOutside column)).map p.pairAt := by
  rw [List.flatMap_map, List.map_flatMap]
  refine List.flatMap_congr fun row _ => ?_
  rw [hp.pairsOf_rowAt, List.filter_map, Links.cellsOutside]
  refine congrArg (List.map p.pairAt) (List.filter_congr fun cell _ => ?_)
  simp [pairAt, hp.columnAt_injective.eq_iff]

/-- Charging an open column takes the same from what is left, and the same pairs are lost. -/
theorem WellFormed.charge_remainder (hp : p.WellFormed) {s : Stage p.grid}
    {entry : Fin p.grid.columns × Amount} (hopen : entry.1 ∉ s.exhausted) (lost : List (C × R)) :
    p.charge (p.remainder s, lost) (p.columnAt entry.1, entry.2) =
      (p.remainder (s.charge entry), lost ++ (s.lost entry).map p.pairAt) := by
  have hdue : (p.byColumn s.due).modify (p.columnAt entry.1) (· - (entry.2.toNat : Int)) =
      p.byColumn (s.charge entry).due := hp.modify_byColumn _ _ _
  have hget : ((p.byColumn (s.charge entry).due).get? (p.columnAt entry.1)).getD 0 =
      s.due entry.1 - entry.2.toNat := by
    rw [hp.get?_byColumn]
    simp [Stage.charge]
  have herase := hp.eraseAll_pairsLinked (Stage.loses_charge hp.grid hopen)
  simp only [charge, remainder, hdue, hget]
  by_cases hzero : s.due entry.1 - entry.2.toNat ≤ 0
  · have hpairs := hp.pairsOutside entry.1 (s.rows entry.1)
    rw [← hp.rows_pairsLinked] at hpairs
    rw [Stage.lost, if_pos hzero] at herase ⊢
    simp only [if_pos hzero, Remainder.rows, Remainder.eraseAll, hpairs, herase]
  · rw [Stage.lost, if_neg hzero] at herase ⊢
    simp only [if_neg hzero, List.map_nil, List.append_nil]
    rw [← herase]
    rfl

/-- Charging columns one after the other does the same to the plain sets as to the stage. -/
theorem WellFormed.chargeAll_remainder (hp : p.WellFormed) {s : Stage p.grid} (hs : s.Settled)
    {entries : List (Fin p.grid.columns × Amount)} (hnodup : (entries.map (·.1)).Nodup)
    (hopen : ∀ e ∈ entries, e.1 ∉ s.exhausted) (lost : List (C × R)) :
    (entries.map fun entry => (p.columnAt entry.1, entry.2)).foldl p.charge
        (p.remainder s, lost) =
      (p.remainder (entries.foldl Stage.charge s), lost ++ (s.lostAll entries).map p.pairAt) := by
  induction entries generalizing s lost with
  | nil => simp [Stage.lostAll]
  | cons entry rest ih =>
    have hentry := hopen entry List.mem_cons_self
    obtain ⟨hrestNodup, hrestOpen⟩ := Stage.open_after_charge hnodup hopen
    rw [List.map_cons, List.foldl_cons, hp.charge_remainder hentry,
      ih (hs.charge hentry) hrestNodup hrestOpen, Stage.lostAll, List.map_append,
      List.append_assoc]
    rfl

/-- A selection takes from the remainder what it takes from the stage. -/
theorem WellFormed.select_remainder (hp : p.WellFormed) {s : Stage p.grid} (hs : s.Settled)
    {row : Fin p.grid.rows} (hrow : s.Available row) :
    (p.amountsOf (p.rowAt row)).foldl p.charge
        ((p.remainder s).eraseAll (p.pairsOf (p.rowAt row)), []) =
      (p.remainder (s.select row), (s.hidden row).map p.pairAt) := by
  rw [hp.eraseAll_remainder hrow, hp.amountsOf_rowAt]
  exact hp.chargeAll_remainder (s := s.withdraw row) hs (hp.grid.columns_nodup row)
    hrow.open_withdraw []

omit [Std.TransOrd C] [Std.LawfulEqOrd C] [Std.TransOrd R] [Std.LawfulEqOrd R] in
/-- The events of a row whose charges are known. -/
theorem branch_eq {s inner : Remainder C R} {row : R} {lost : List (C × R)}
    (hcharge : (p.amountsOf row).foldl p.charge (s.eraseAll (p.pairsOf row), []) = (inner, lost))
    (deeper : Remainder C R → List R → List (Event C R)) (selection : List R) :
    p.branch deeper s selection row =
      .select row :: Event.removals (p.pairsOf row ++ lost) ++
        (if ∀ pair ∈ p.pairsOf row, 0 ≤ (inner.due.get? pair.1).getD 0 then
          deeper inner (selection ++ [row]) else []) ++
        Event.restorals lost.reverse ++ [.deselect row] := by
  have hfits : (p.pairsOf row).all (fun pair => 0 ≤ (inner.due.get? pair.1).getD 0) = true ↔
      ∀ pair ∈ p.pairsOf row, 0 ≤ (inner.due.get? pair.1).getD 0 := by
    rw [List.all_eq_true]
    exact forall₂_congr fun pair _ => decide_eq_true_iff
  rw [branch, hcharge, ← ite_congr (propext hfits) (fun _ => rfl) (fun _ => rfl)]
  rfl

/-- The events of a row of the search tree: its selection, the events below it if it takes no
    column past its target, and its deselection. -/
theorem WellFormed.branch_remainder (hp : p.WellFormed) {s : Stage p.grid} (hs : s.Settled)
    {row : Fin p.grid.rows} (hrow : s.Available row)
    (deeper : Remainder C R → List R → List (Event C R)) (selection : List R) :
    p.branch deeper (p.remainder s) selection (p.rowAt row) =
      p.labelledEvents (.select row :: Event.removals (p.grid.rowCells row ++ s.hidden row)) ++
        ((if ∀ c ∈ p.grid.columnsOf row, 0 ≤ (s.select row).due c then
            deeper (p.remainder (s.select row)) (selection ++ [p.rowAt row])
          else []) ++
          p.labelledEvents (Event.restorals (s.hidden row).reverse ++ [.deselect row])) := by
  have hremovals : p.labelledEvents
      (.select row :: Event.removals (p.grid.rowCells row ++ s.hidden row)) =
        .select (p.rowAt row) :: Event.removals
          (p.pairsOf (p.rowAt row) ++ (s.hidden row).map p.pairAt) := by
    rw [hp.pairsOf_rowAt, ← List.map_append, ← labelledEvents_removals]
    rfl
  have hrestorals : p.labelledEvents
      (Event.restorals (s.hidden row).reverse ++ [.deselect row]) =
        Event.restorals ((s.hidden row).map p.pairAt).reverse ++ [.deselect (p.rowAt row)] := by
    rw [labelledEvents_append, labelledEvents_restorals, List.map_reverse]
    rfl
  rw [branch_eq (hp.select_remainder hs hrow), hremovals, hrestorals, List.append_assoc,
    List.append_assoc]
  simp only [hp.fits_remainder]

/-- The rows selected at some levels, oldest first, by labels. -/
def selectionAt (p : Problem C R) (frames : List (Frame p.grid)) : List R :=
  (selectedAt frames).reverse.map p.rowAt

/-- The events to come at a level at which some rows have been tried: those of the rows left for it,
    and the restorals at its end. -/
def levelPending (p : Problem C R) (levels : Nat) (outer : List (Frame p.grid))
    (column : Fin p.grid.columns) (tried : List (Fin p.grid.rows)) : List (Event C R) :=
  p.tries (p.explore (levels - (outer.length + 1))) (p.selectionAt outer)
      (p.remainder (stageAt (⟨column, none, tried⟩ :: outer)))
      (((stageAt (⟨column, none, tried⟩ :: outer)).rows column).map p.rowAt) ++
    (((stageAt outer).rows column).map p.rowAt).reverse.flatMap fun row =>
      Event.restorals (p.pairsOf row).reverse

/-- The events to come at the open levels, after those below the deepest one. -/
def pendingBelow (p : Problem C R) (levels : Nat) : List (Frame p.grid) → List (Event C R)
  | [] => []
  | ⟨column, none, tried⟩ :: outer =>
    p.levelPending levels outer column tried ++ pendingBelow p levels outer
  | ⟨column, some row, tried⟩ :: outer =>
    p.labelledEvents (Event.restorals
        ((stageAt (⟨column, none, tried⟩ :: outer)).hidden row).reverse ++ [.deselect row]) ++
      (p.levelPending levels outer column (row :: tried) ++ pendingBelow p levels outer)

/-- The events that the recursion still has to perform where a search stands. The open levels tell
    what is left to be done after the innermost call of the recursion. -/
def pending (p : Problem C R) (levels : Nat) (o : Outline p.grid) : List (Event C R) :=
  (if o.phase = .choose then
    p.explore (levels - o.frames.length) (p.remainder (stageAt o.frames)) (p.selectionAt o.frames)
  else []) ++ p.pendingBelow levels o.frames

/-- The events left for a level whose next row is known: those of the row, and those to come after
    it. -/
theorem WellFormed.levelPending_cons (hp : p.WellFormed) {outer : List (Frame p.grid)}
    {column : Fin p.grid.columns} {tried rest : List (Fin p.grid.rows)} {row : Fin p.grid.rows}
    (h : Path (⟨column, none, tried⟩ :: outer))
    (hrows : (stageAt (⟨column, none, tried⟩ :: outer)).rows column = row :: rest) (levels : Nat) :
    p.levelPending levels outer column tried =
      p.labelledEvents (Note.events
          (selectionNotes (stageAt (⟨column, none, tried⟩ :: outer)) row)) ++
        ((if ∀ c ∈ p.grid.columnsOf row,
              0 ≤ (stageAt (⟨column, some row, tried⟩ :: outer)).due c then
            p.explore (levels - (outer.length + 1))
              (p.remainder (stageAt (⟨column, some row, tried⟩ :: outer)))
              (p.selectionAt (⟨column, some row, tried⟩ :: outer))
          else []) ++
        (p.labelledEvents (Event.restorals
            ((stageAt (⟨column, none, tried⟩ :: outer)).hidden row).reverse ++ [.deselect row]) ++
          p.levelPending levels outer column (row :: tried))) := by
  have hnext := h.available_next hp.grid hrows
  have hselection : p.selectionAt (⟨column, some row, tried⟩ :: outer) =
      p.selectionAt outer ++ [p.rowAt row] := by
    simp [selectionAt]
  rw [levelPending, hrows, List.map_cons, tries, hp.branch_remainder (h.settled hp.grid) hnext,
    hp.eraseAll_remainder hnext, levelPending, stageAt_pass, Stage.rows_withdraw hrows, hselection,
    selectionNotes, Note.events_map_event, stageAt_pick]
  simp only [List.append_assoc]

/-- A level without more rows has only its restorations to perform. -/
theorem WellFormed.levelPending_nil (hp : p.WellFormed) {outer : List (Frame p.grid)}
    {column : Fin p.grid.columns} {tried : List (Fin p.grid.rows)}
    (h : Path (⟨column, none, tried⟩ :: outer))
    (hrows : (stageAt (⟨column, none, tried⟩ :: outer)).rows column = []) (levels : Nat) :
    p.levelPending levels outer column tried = p.labelledEvents
      (tried.flatMap fun row => Event.restorals (p.grid.rowCells row).reverse) := by
  have hall := h.rows_eq
  rw [hrows, List.append_nil] at hall
  rw [levelPending, hrows, hall, List.map_reverse, List.reverse_reverse, List.flatMap_map,
    labelledEvents, List.map_flatMap]
  refine List.flatMap_congr fun row _ => ?_
  rw [hp.pairsOf_rowAt, ← List.map_reverse, ← labelledEvents_restorals]
  rfl

/-- A move performs the next of the events that are still to come. -/
theorem WellFormed.pending_move (hp : p.WellFormed) {o o' : Outline p.grid}
    {notes : List (Note (Fin p.grid.columns) (Fin p.grid.rows))} (h : Move o notes o')
    (ho : o.Valid) {levels : Nat} (hlevels : p.rowCount < levels) :
    Note.events (p.labelled notes) ++ p.pending levels o' = p.pending levels o := by
  rw [events_labelled]
  cases h with
  | @enter frames column st hbest =>
    obtain ⟨deeper, hlevel, hdeeper⟩ := ho.length_lt hp.grid rfl hlevels
    have hcolumn := hp.bestColumn_remainder (stageAt frames)
    rw [hbest, Option.map_some] at hcolumn
    have hexplore : p.explore (levels - frames.length) (p.remainder (stageAt frames))
        (p.selectionAt frames) = p.levelPending levels frames column [] := by
      rw [levelPending, hdeeper, hlevel, explore, hcolumn]
      simp only [hp.rows_remainder, stageAt_enter]
      rfl
    rw [pending, pending, if_pos rfl, hexplore]
    rfl
  | @find frames st hbest =>
    obtain ⟨deeper, hlevel, -⟩ := ho.length_lt hp.grid rfl hlevels
    have hcolumn := hp.bestColumn_remainder (stageAt frames)
    rw [hbest, Option.map_none] at hcolumn
    have hexplore : p.explore (levels - frames.length) (p.remainder (stageAt frames))
        (p.selectionAt frames) = [.solution (p.selectionAt frames)] := by
      rw [hlevel, explore, hcolumn]
    rw [pending, pending, if_pos rfl, hexplore]
    rfl
  | @pick outer column tried rest row st hrows hfits =>
    have hall := (ho.path.fitting_pick_iff hp.grid).mp hfits
    have hlevel := hp.levelPending_cons ho.path hrows levels
    rw [if_pos hall] at hlevel
    rw [pending, pending, if_pos rfl, if_neg nofun, pendingBelow, pendingBelow, hlevel]
    simp only [List.append_assoc, List.nil_append]
    rfl
  | @overshoot outer column tried rest row st hrows hfits =>
    have hall := mt (ho.path.fitting_pick_iff hp.grid).mpr hfits
    have hlevel := hp.levelPending_cons ho.path hrows levels
    rw [if_neg hall] at hlevel
    rw [pending, pending, if_neg nofun, if_neg nofun, pendingBelow, pendingBelow, hlevel,
      Note.events_append]
    simp only [List.append_assoc, List.nil_append, labelledEvents_append]
    rfl
  | drop =>
    rw [Note.events_map_event]
    rfl
  | @leave outer column tried st hnil =>
    rw [Note.events_map_event, ← hp.levelPending_nil ho.path hnil levels]
    rfl
  | finish => rfl

/-- The moves made so far performed all events but those that are still to come. -/
theorem WellFormed.pending_moves (hp : p.WellFormed) {o o' : Outline p.grid}
    {notes : List (Note (Fin p.grid.columns) (Fin p.grid.rows))} (h : Moves o notes o')
    (ho : o.Valid) {levels : Nat} (hlevels : p.rowCount < levels) :
    Note.events (p.labelled notes) ++ p.pending levels o' = p.pending levels o := by
  induction h with
  | refl => rfl
  | @tail o₁ o₂ notes notes' hmoves hlast ih =>
    have hmove := hp.pending_move hlast (hmoves.valid ho) hlevels
    rw [labelled, List.map_append, Note.events_append, List.append_assoc]
    exact (congrArg _ hmove).trans ih

/-- Before the first step the whole recursion is to be performed. -/
theorem WellFormed.pending_start (hp : p.WellFormed) (levels : Nat) :
    p.pending levels (.start p.grid) = p.explore levels ⟨p.incidences, p.demand⟩ [] := by
  rw [← hp.remainder_initial]
  exact List.append_nil _

omit [Std.TransOrd C] [Std.LawfulEqOrd C] [Std.TransOrd R] [Std.LawfulEqOrd R] in
theorem pending_exhausted {o : Outline p.grid} (ho : o.Valid) (hphase : o.phase = .exhausted)
    (levels : Nat) : p.pending levels o = [] := by
  rw [pending, hphase, ho.frames_eq_nil hphase]
  rfl

/-- The events so far and those to come are the events of the recursion. -/
theorem WellFormed.events_append_pending (hp : p.WellFormed) {o : Outline p.grid}
    {notes : List (Note (Fin p.grid.columns) (Fin p.grid.rows))} (h : Moves (.start p.grid) notes o)
    {levels : Nat} (hlevels : p.rowCount < levels) :
    Note.events (p.labelled notes) ++ p.pending levels o =
      p.explore levels ⟨p.incidences, p.demand⟩ [] := by
  rw [← hp.pending_start, hp.pending_moves h (Outline.valid_start _) hlevels]

/-- A search that is over has performed the whole recursion. -/
theorem WellFormed.events_of_exhausted (hp : p.WellFormed) {o : Outline p.grid}
    {notes : List (Note (Fin p.grid.columns) (Fin p.grid.rows))} (h : Moves (.start p.grid) notes o)
    (hend : o.phase = .exhausted) {levels : Nat} (hlevels : p.rowCount < levels) :
    Note.events (p.labelled notes) = p.explore levels ⟨p.incidences, p.demand⟩ [] := by
  rw [← hp.events_append_pending h hlevels,
    pending_exhausted (h.valid (Outline.valid_start _)) hend, List.append_nil]

/-- At any time a log holds a beginning of the events of the recursive exploration. A call for the
    next solution adds the events up to the next solution event, or all that are left. How many
    levels the recursion is allowed makes no difference. -/
theorem Reachable.log_follows_exploration (hp : p.Reachable) :
    (∀ levels, p.rowCount < levels →
      p.explore levels ⟨p.incidences, p.demand⟩ [] = p.exploration) ∧
    (p.solve .logging #[]).rest.2.observed.toList = p.exploration ∧
    ∀ found t, (p.solve .logging #[]).Reaches found t → t.observed.toList <+: p.exploration ∧
      (∀ rows u, t.next = (some rows, u) → ∃ between, Event.solutions between = [] ∧
        u.observed.toList = t.observed.toList ++ between ++ [.solution rows]) ∧
      ∀ u, t.next = (none, u) → u.observed.toList = p.exploration := by
  have hwell := hp.wellFormed
  have hg := hwell.grid
  have hlevels := Nat.lt_succ_self p.rowCount
  obtain ⟨notes, o, hmoves, hend, hrest⟩ := rest_solve hg
  refine ⟨fun levels hmore => ?_, ?_, fun found t ht => ?_⟩
  · rw [← hwell.events_of_exhausted hmoves hend hmore, exploration,
      ← hwell.events_of_exhausted hmoves hend hlevels]
  · rw [(hrest .logging #[]).1, log_solverAt]
    exact hwell.events_of_exhausted hmoves hend hlevels
  · obtain ⟨notes, o, hmoves, -, rfl⟩ := outline_of_reaches hg ht
    have hsteps := (hmoves.left_le hg (Outline.valid_start _)).1
    rw [Outline.stepsLeft_start] at hsteps
    obtain ⟨found, notes', o', hmoves', hsolutions, hlast, hend, hnext⟩ :=
      next_solverAt hg (hmoves.valid (Outline.valid_start _)) hsteps
    refine ⟨⟨p.pending (p.rowCount + 1) o, ?_⟩, fun rows u hcall => ?_, fun u hcall => ?_⟩
    · rw [log_solverAt]
      exact hwell.events_append_pending hmoves hlevels
    · rw [hnext, Prod.mk.injEq, Option.map_eq_some_iff] at hcall
      obtain ⟨⟨positions, rfl, rfl⟩, rfl⟩ := hcall
      obtain ⟨between, hnone, hbetween⟩ := Note.events_of_getLast? hsolutions (hlast _ rfl)
      refine ⟨p.labelledEvents between, ?_, ?_⟩
      · rw [labelledEvents, Event.solutions_map, hnone, List.map_nil]
      · rw [log_solverAt, events_labelled, hbetween, labelledEvents_append, ← List.append_assoc]
        rfl
    · rw [hnext, Prod.mk.injEq, Option.map_eq_none_iff] at hcall
      obtain ⟨rfl, rfl⟩ := hcall
      have hwhole := hwell.events_of_exhausted (hmoves.trans hmoves') (hend rfl) hlevels
      rw [labelled, List.map_append, Note.events_append] at hwhole
      rw [log_solverAt, Listener.hearAll_logging]
      exact hwhole

/-- The log of a problem with a row that overshoots, until the solver returns no more solutions. -/
theorem Reachable.log_of_overshoot : ∃ p : Problem Nat Nat,
    p.amount? 7 1 = some 2 ∧ (p.solve .logging #[]).rest.1 = [[8]] ∧
    (p.solve .logging #[]).rest.2.observed.toList = p.exploration := by
  obtain ⟨p, hp, hamount, hrest⟩ : ∃ p : Problem Nat Nat, p.Reachable ∧
      p.amount? 7 1 = some 2 ∧ (p.solve Listener.logging #[]).rest.1 = [[8]] :=
    ⟨_, .attempt (.addUnitRow 8 [1]) (.attempt (.addRow 7 [(1, 2)])
      (.ofColumns (rfl : Problem.ofColumns [1] = .ok _))), rfl, by decide +kernel⟩
  exact ⟨p, hamount, hrest, hp.log_follows_exploration.2.1⟩

end ExactCover.Problem
