import ExactCover.Proofs.Problem.Grid
import ExactCover.Proofs.Search.Steps
import ExactCover.Solver

namespace ExactCover

variable {C R σ : Type} [Ord C]

namespace Solver

/-- One iteration of the loop that looks for the next solution, with the solution it returns. -/
def step (s : Solver C R σ) : Option (List R) × Solver C R σ :=
  let (found, search) := s.search.step s.gridListener
  (found.map fun rows => rows.map s.problem.rowAt, { s with search := search })

/-- A solver as it may stand in the middle of a run, with the solutions returned before: after any
    number of calls for the next solution and any number of iterations of the loop in one that is
    under way. -/
inductive Reaches (s : Solver C R σ) : List (List R) → Solver C R σ → Prop where
  | refl : Reaches s [] s
  | step {t : Solver C R σ} {found : List (List R)} (h : Reaches s found t) :
      Reaches s (found ++ t.step.1.toList) t.step.2
  | next {t : Solver C R σ} {found : List (List R)} (h : Reaches s found t) :
      Reaches s (found ++ t.next.1.toList) t.next.2

/-- The solutions that successive calls return, up to the first call that returns none. -/
inductive Yields : Solver C R σ → List (List R) → Solver C R σ → Prop where
  | nil {s t : Solver C R σ} (hnext : s.next = (none, t)) : Yields s [] t
  | cons {s t u : Solver C R σ} {rows : List R} {found : List (List R)}
      (hnext : s.next = (some rows, t)) (htail : Yields t found u) : Yields s (rows :: found) u

end Solver

namespace Problem

/-- The solver that stands at a place of the search tree, with what its listener knows. -/
def solverAt (p : Problem C R) (L : Listener C R σ) (o : Outline p.grid) (observed : σ) :
    Solver C R σ := ⟨p, L, o.search observed⟩

/-- The notes of a search, by labels. -/
def labelled (p : Problem C R) (notes : List (Note (Fin p.grid.columns) (Fin p.grid.rows))) :
    List (Note C R) := notes.map (Note.map p.columnAt p.rowAt)

/-- The solutions among some notes, by labels. -/
def labelledSolutions (p : Problem C R)
    (notes : List (Note (Fin p.grid.columns) (Fin p.grid.rows))) : List (List R) :=
  (Note.solutions notes).map fun rows => rows.map p.rowAt

/-- The remark with which a search for solutions begins. -/
def starting (p : Problem C R) : Note C R :=
  .remark (.starting p.targets.size p.rowCount p.incidenceCount)

variable {p : Problem C R}

theorem hearAll_labelled (L : Listener C R σ)
    (notes : List (Note (Fin p.grid.columns) (Fin p.grid.rows))) (observed : σ) :
    (L.rename p.columnAt p.rowAt).hearAll notes observed =
      L.hearAll (p.labelled notes) observed := L.hearAll_rename _ _ _ _

theorem labelled_append (p : Problem C R)
    (notes notes' : List (Note (Fin p.grid.columns) (Fin p.grid.rows))) :
    p.labelled (notes ++ notes') = p.labelled notes ++ p.labelled notes' := List.map_append

theorem labelledSolutions_append (p : Problem C R)
    (notes notes' : List (Note (Fin p.grid.columns) (Fin p.grid.rows))) :
    p.labelledSolutions (notes ++ notes') =
      p.labelledSolutions notes ++ p.labelledSolutions notes' := by
  rw [labelledSolutions, Note.solutions_append, List.map_append]
  rfl

theorem labelledSolutions_of_toList {found : Option (List (Fin p.grid.rows))}
    {notes : List (Note (Fin p.grid.columns) (Fin p.grid.rows))}
    (h : Note.solutions notes = found.toList) :
    p.labelledSolutions notes = (found.map fun rows => rows.map p.rowAt).toList := by
  rw [labelledSolutions, h]
  cases found <;> rfl

theorem hearAll_starting (L : Listener C R σ)
    (notes notes' : List (Note (Fin p.grid.columns) (Fin p.grid.rows))) (state : σ) :
    L.hearAll (p.labelled notes') (L.hearAll (p.starting :: p.labelled notes) state) =
      L.hearAll (p.starting :: p.labelled (notes ++ notes')) state := by
  rw [labelled_append, ← Listener.hearAll_append]
  rfl

/-- Events of the grid, by labels. -/
def labelledEvents (p : Problem C R)
    (events : List (Event (Fin p.grid.columns) (Fin p.grid.rows))) : List (Event C R) :=
  events.map (Event.map p.columnAt p.rowAt)

theorem labelledEvents_append (p : Problem C R)
    (events events' : List (Event (Fin p.grid.columns) (Fin p.grid.rows))) :
    p.labelledEvents (events ++ events') = p.labelledEvents events ++ p.labelledEvents events' :=
  List.map_append

theorem events_labelled (notes : List (Note (Fin p.grid.columns) (Fin p.grid.rows))) :
    Note.events (p.labelled notes) = p.labelledEvents (Note.events notes) :=
  Note.events_map _ _ _

theorem labelledEvents_removals (cells : List p.grid.Cell) :
    p.labelledEvents (Event.removals cells) = Event.removals (cells.map p.pairAt) := by
  rw [labelledEvents, Event.removals, Event.removals, List.map_map, List.map_map]
  rfl

theorem labelledEvents_restorals (cells : List p.grid.Cell) :
    p.labelledEvents (Event.restorals cells) = Event.restorals (cells.map p.pairAt) := by
  rw [labelledEvents, Event.restorals, Event.restorals, List.map_map, List.map_map]
  rfl

theorem log_solverAt (o : Outline p.grid) (notes : List (Note C R)) (log : Array (Event C R)) :
    (p.solverAt .logging o (Listener.logging.hearAll notes log)).observed.toList =
      log.toList ++ Note.events notes := Listener.hearAll_logging notes log

/-- A step of a solver is a step of the search of its grid, whoever listens. -/
theorem step_solverAt (hg : p.grid.WellFormed) {o : Outline p.grid} (ho : o.Valid) :
    ∃ (found : Option (List (Fin p.grid.rows))) (notes : _) (o' : _), Moves o notes o' ∧
      Note.solutions notes = found.toList ∧
      ∀ {σ : Type} (L : Listener C R σ) (observed : σ), (p.solverAt L o observed).step =
        (found.map fun rows => rows.map p.rowAt,
          p.solverAt L o' (L.hearAll (p.labelled notes) observed)) := by
  by_cases hphase : o.phase = .exhausted
  · refine ⟨none, [], o, .refl o, rfl, fun L observed => ?_⟩
    have hstep := Search.step_of_exhausted hphase (L.rename p.columnAt p.rowAt) observed
    simp only [Solver.step, solverAt, Solver.gridListener, hstep]
    rfl
  · obtain ⟨found, notes, o', hmoves, -, hsolutions, -, hstep⟩ := Search.step_spec hg ho hphase
    refine ⟨found, notes, o', hmoves, hsolutions, fun L observed => ?_⟩
    have hstep := hstep (L.rename p.columnAt p.rowAt) observed
    simp only [Solver.step, solverAt, Solver.gridListener, hstep, hearAll_labelled]

/-- A call for the next solution, at any place that the search reaches: it finds a solution, or the
    search is over. -/
theorem next_solverAt (hg : p.grid.WellFormed) {o : Outline p.grid} (ho : o.Valid)
    (hsteps : o.stepsLeft ≤ 3 * p.grid.rowSets) :
    ∃ found notes o', Moves o notes o' ∧ Note.solutions notes = found.toList ∧
      (∀ rows ∈ found, (Note.events notes).getLast? = some (.solution rows)) ∧
      (found = none → o'.phase = .exhausted) ∧
      ∀ {σ : Type} (L : Listener C R σ) (observed : σ), (p.solverAt L o observed).next =
        (found.map fun rows => rows.map p.rowAt,
          p.solverAt L o' (L.hearAll (p.labelled notes) observed)) := by
  obtain ⟨found, notes, o', hmoves, hsolutions, hlast, hend, hnext⟩ :=
    Search.nextWithin_spec hg ho (by omega : o.stepsLeft < 3 * p.grid.rowSets + 1)
  refine ⟨found, notes, o', hmoves, hsolutions, hlast, hend, fun L observed => ?_⟩
  have hnext := hnext (L.rename p.columnAt p.rowAt) observed
  simp only [Solver.next, solverAt, Solver.gridListener, Search.next, hnext, hearAll_labelled]

/-- Whatever a solver passes through, it stands at a place of the search tree, its listener has
    heard the notes of the moves that led there, and the solutions among them were returned. -/
theorem outline_of_reaches (hg : p.grid.WellFormed) {L : Listener C R σ} {state : σ}
    {found : List (List R)} {t : Solver C R σ} (h : (p.solve L state).Reaches found t) :
    ∃ notes o, Moves (.start p.grid) notes o ∧ found = p.labelledSolutions notes ∧
      t = p.solverAt L o (L.hearAll (p.starting :: p.labelled notes) state) := by
  induction h with
  | refl => exact ⟨[], _, .refl _, rfl, rfl⟩
  | step _ ih =>
    obtain ⟨notes, o, hmoves, rfl, rfl⟩ := ih
    have ho := hmoves.valid (Outline.valid_start _)
    obtain ⟨found, notes', o', hmoves', hsolutions, hstep⟩ := step_solverAt hg ho
    refine ⟨notes ++ notes', o', hmoves.trans hmoves', ?_, ?_⟩
    · rw [hstep, labelledSolutions_append, labelledSolutions_of_toList hsolutions]
    · rw [hstep, hearAll_starting]
  | next _ ih =>
    obtain ⟨notes, o, hmoves, rfl, rfl⟩ := ih
    have ho := hmoves.valid (Outline.valid_start _)
    have hsteps := (hmoves.left_le hg (Outline.valid_start _)).1
    rw [Outline.stepsLeft_start] at hsteps
    obtain ⟨found, notes', o', hmoves', hsolutions, -, -, hnext⟩ := next_solverAt hg ho hsteps
    refine ⟨notes ++ notes', o', hmoves.trans hmoves', ?_, ?_⟩
    · rw [hnext, labelledSolutions_append, labelledSolutions_of_toList hsolutions]
    · rw [hnext, hearAll_starting]

/-- Asking for more solutions than there are nodes left yields all of them and ends the search. -/
theorem take_solverAt (hg : p.grid.WellFormed) {o : Outline p.grid} (ho : o.Valid)
    (hsteps : o.stepsLeft ≤ 3 * p.grid.rowSets) {limit : Nat} (hlimit : o.nodesLeft < limit) :
    ∃ notes o', Moves o notes o' ∧ o'.phase = .exhausted ∧
      ∀ {σ : Type} (L : Listener C R σ) (observed : σ),
        (p.solverAt L o observed).take limit =
          (p.labelledSolutions notes,
            p.solverAt L o' (L.hearAll (p.labelled notes) observed)) ∧
        (p.solverAt L o observed).Yields (p.labelledSolutions notes)
          (p.solverAt L o' (L.hearAll (p.labelled notes) observed)) := by
  induction limit generalizing o with
  | zero => omega
  | succ limit ih =>
    obtain ⟨found, notes, o', hmoves, hsolutions, -, hend, hnext⟩ := next_solverAt hg ho hsteps
    obtain ⟨hstepsLeft, hnodesLeft⟩ := hmoves.left_le hg ho
    cases found with
    | none =>
      refine ⟨notes, o', hmoves, hend rfl, fun L observed => ?_⟩
      rw [labelledSolutions_of_toList hsolutions]
      exact ⟨by rw [Solver.take, hnext]; rfl, .nil (hnext L observed)⟩
    | some rows =>
      rw [hsolutions, Option.toList_some, List.length_singleton] at hnodesLeft
      obtain ⟨notes', o'', hmoves', hend', htake⟩ := ih (hmoves.valid ho) (by omega) (by omega)
      refine ⟨notes ++ notes', o'', hmoves.trans hmoves', hend', fun L observed => ?_⟩
      obtain ⟨htake, hyields⟩ := htake L (L.hearAll (p.labelled notes) observed)
      have hheard : L.hearAll (p.labelled (notes ++ notes')) observed =
          L.hearAll (p.labelled notes') (L.hearAll (p.labelled notes) observed) := by
        rw [← Listener.hearAll_append, labelled_append]
      rw [labelledSolutions_append, labelledSolutions_of_toList hsolutions, hheard,
        Option.map_some, Option.toList_some, List.singleton_append]
      exact ⟨by rw [Solver.take, hnext]; simp only [Option.map_some, htake],
        .cons (hnext L observed) hyields⟩

/-- All solutions of a problem: the moves through the whole search tree. -/
theorem rest_solve (hg : p.grid.WellFormed) :
    ∃ notes o, Moves (.start p.grid) notes o ∧ o.phase = .exhausted ∧
      ∀ {σ : Type} (L : Listener C R σ) (state : σ),
        (p.solve L state).rest =
          (p.labelledSolutions notes,
            p.solverAt L o (L.hearAll (p.starting :: p.labelled notes) state)) ∧
        (p.solve L state).Yields (p.labelledSolutions notes)
          (p.solverAt L o (L.hearAll (p.starting :: p.labelled notes) state)) := by
  obtain ⟨notes, o, hmoves, hend, htake⟩ := take_solverAt hg (Outline.valid_start p.grid)
    (Outline.stepsLeft_start _).le (Nat.lt_succ_of_le (Outline.nodesLeft_start _).le)
  exact ⟨notes, o, hmoves, hend, fun L state => htake L (L.hear p.starting state)⟩

end Problem

end ExactCover
