import ExactCover.Proofs.Arena.Build
import ExactCover.Proofs.Arena.Steps

namespace ExactCover

/-- A call to a solver. -/
inductive Call where
  | next
  | coverage
  | statistics
deriving DecidableEq, Repr

/-- What a call returns. -/
inductive Answer (C R : Type) where
  | next (found : Option (List R))
  | coverage (columns : List (C × List R))
  | statistics (counters : Statistics)
deriving DecidableEq, Repr

namespace Arena

variable {C R σ : Type} (L : Listener C R σ) (limit : Nat)

def call (a : Arena C R σ) : Call → Except Fault (Answer C R × Arena C R σ)
  | .next => do
    let (found, a) ← a.next L limit
    return (.next found, a)
  | .coverage => do
    let columns ← a.coverage limit
    return (.coverage columns, a)
  | .statistics => return (.statistics a.statistics, a)

/-- Calls one after the other, with what they return. -/
def calls (a : Arena C R σ) : List Call → Except Fault (List (Answer C R) × Arena C R σ)
  | [] => return ([], a)
  | c :: cs => do
    let (answer, a) ← a.call L limit c
    let (answers, a) ← a.calls cs
    return (answer :: answers, a)

end Arena

/-- No loop of a search goes on for longer. -/
def Problem.loopBound {C R : Type} (p : Problem C R) : Nat :=
  p.targets.size + 3 * 2 ^ p.rowCount + 1

namespace Solver

variable {C R σ : Type} [Ord C]

/-- The tables of a solver. -/
def arena (s : Solver C R σ) : Arena C R σ := s.search.arena s.problem.columnAt s.problem.rowAt

def call (s : Solver C R σ) : Call → Answer C R × Solver C R σ
  | .next => (.next s.next.1, s.next.2)
  | .coverage => (.coverage s.coverage, s)
  | .statistics => (.statistics s.statistics, s)

/-- Calls one after the other, with what they return. -/
def calls (s : Solver C R σ) : List Call → List (Answer C R) × Solver C R σ
  | [] => ([], s)
  | c :: cs => ((s.call c).1 :: ((s.call c).2.calls cs).1, ((s.call c).2.calls cs).2)

end Solver

namespace Problem

variable {C R σ : Type} [Ord C] {p : Problem C R} {o : Outline p.grid} {limit : Nat}

theorem le_of_loopBound_le (h : p.loopBound ≤ limit) :
    p.grid.rows ≤ limit ∧ p.grid.columns ≤ limit ∧ 3 * p.grid.rowSets + 1 ≤ limit := by
  have hrows : p.grid.rows < 2 ^ p.rowCount := Nat.lt_two_pow_self
  have hcolumns : p.grid.columns = p.targets.size := rfl
  have hsets : p.grid.rowSets = 2 ^ p.rowCount := rfl
  rw [loopBound] at h
  omega

/-- Whatever a solver passes through, what is left of the search has a bound. -/
theorem solverAt_of_reaches (hg : p.grid.WellFormed) {L : Listener C R σ} {state : σ}
    {found : List (List R)} {t : Solver C R σ} (h : (p.solve L state).Reaches found t) :
    ∃ o observed, o.Valid ∧ o.stepsLeft ≤ 3 * p.grid.rowSets ∧ t = p.solverAt L o observed := by
  obtain ⟨notes, o, hmoves, -, ht⟩ := outline_of_reaches hg h
  have hsteps := (hmoves.left_le hg (Outline.valid_start _)).1
  rw [Outline.stepsLeft_start] at hsteps
  exact ⟨o, _, hmoves.valid (Outline.valid_start _), hsteps, ht⟩

/-- The next solution over tables, at any place that the search reaches. -/
theorem next_arena (hg : p.grid.WellFormed) (ho : o.Valid)
    (hsteps : o.stepsLeft ≤ 3 * p.grid.rowSets) (hlimit : p.loopBound ≤ limit)
    (L : Listener C R σ) (observed : σ) :
    (p.solverAt L o observed).arena.next L limit =
      .ok ((p.solverAt L o observed).next.1, (p.solverAt L o observed).next.2.arena) := by
  obtain ⟨hrows, hcolumns, hsets⟩ := le_of_loopBound_le hlimit
  exact Search.nextWithin_arena hg hrows hcolumns ho (Nat.lt_succ_of_le hsteps) hsets

theorem coverage_arena (hg : p.grid.WellFormed) (ho : o.Valid) (hlimit : p.loopBound ≤ limit)
    (L : Listener C R σ) (observed : σ) :
    (p.solverAt L o observed).arena.coverage limit =
      .ok (p.solverAt L o observed).coverage := by
  obtain ⟨hrows, hcolumns, -⟩ := le_of_loopBound_le hlimit
  exact Search.coverage_arena (ho.path.shows hg) hrows hcolumns

/-- A call over tables, at any place that the search reaches. -/
theorem call_arena (hg : p.grid.WellFormed) (ho : o.Valid)
    (hsteps : o.stepsLeft ≤ 3 * p.grid.rowSets) (hlimit : p.loopBound ≤ limit)
    (L : Listener C R σ) (observed : σ) (c : Call) :
    (p.solverAt L o observed).arena.call L limit c =
      .ok (((p.solverAt L o observed).call c).1, ((p.solverAt L o observed).call c).2.arena) := by
  cases c with
  | next =>
    rw [Arena.call, next_arena hg ho hsteps hlimit]
    rfl
  | coverage =>
    rw [Arena.call, coverage_arena hg ho hlimit]
    rfl
  | statistics => rfl

/-- A call leads to a place that the search reaches. -/
theorem call_solverAt (hg : p.grid.WellFormed) (ho : o.Valid)
    (hsteps : o.stepsLeft ≤ 3 * p.grid.rowSets) (L : Listener C R σ) (observed : σ) (c : Call) :
    ∃ o' observed', o'.Valid ∧ o'.stepsLeft ≤ 3 * p.grid.rowSets ∧
      ((p.solverAt L o observed).call c).2 = p.solverAt L o' observed' := by
  cases c with
  | next =>
    obtain ⟨found, notes, o', hmoves, -, -, -, hnext⟩ := next_solverAt hg ho hsteps
    exact ⟨o', L.hearAll (p.labelled notes) observed, hmoves.valid ho,
      (hmoves.left_le hg ho).1.trans hsteps, congrArg Prod.snd (hnext L observed)⟩
  | coverage => exact ⟨o, observed, ho, hsteps, rfl⟩
  | statistics => exact ⟨o, observed, ho, hsteps, rfl⟩

theorem calls_solverAt (hg : p.grid.WellFormed) (ho : o.Valid)
    (hsteps : o.stepsLeft ≤ 3 * p.grid.rowSets) (L : Listener C R σ) (observed : σ)
    (cs : List Call) : ∃ o' observed', o'.Valid ∧
      ((p.solverAt L o observed).calls cs).2 = p.solverAt L o' observed' := by
  induction cs generalizing o observed with
  | nil => exact ⟨o, observed, ho, rfl⟩
  | cons c cs ih =>
    obtain ⟨o', observed', ho', hsteps', hcall⟩ := call_solverAt hg ho hsteps L observed c
    rw [Solver.calls, hcall]
    exact ih ho' hsteps' observed'

theorem calls_arena (hg : p.grid.WellFormed) (ho : o.Valid)
    (hsteps : o.stepsLeft ≤ 3 * p.grid.rowSets) (hlimit : p.loopBound ≤ limit)
    (L : Listener C R σ) (observed : σ) (cs : List Call) :
    (p.solverAt L o observed).arena.calls L limit cs =
      .ok (((p.solverAt L o observed).calls cs).1,
        ((p.solverAt L o observed).calls cs).2.arena) := by
  induction cs generalizing o observed with
  | nil => rfl
  | cons c cs ih =>
    obtain ⟨o', observed', ho', hsteps', hcall⟩ := call_solverAt hg ho hsteps L observed c
    rw [Arena.calls, call_arena hg ho hsteps hlimit, ok_bind, Solver.calls, hcall]
    dsimp only
    rw [ih ho' hsteps', ok_bind]
    rfl

end Problem

end ExactCover
