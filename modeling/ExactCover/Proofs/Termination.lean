import ExactCover.Proofs.Arena.Solver

namespace ExactCover

namespace Search

theorem next_of_exhausted {g : Grid} {σ : Type} {s : Search g σ} (h : s.phase = .exhausted)
    (L : Listener (Fin g.columns) (Fin g.rows) σ) : s.next L = (none, s) := by
  have hexhausted : s.isExhausted = true := beq_iff_eq.mpr h
  rw [next, nextWithin, if_pos hexhausted]

end Search

namespace Problem

variable {C R σ : Type} [Ord C] {p : Problem C R} {L : Listener C R σ} {state : σ}
  {found : List (List R)} {t u : Solver C R σ}

/-- After the call that finds nothing the search is over, and another call leaves it alone. -/
theorem next_of_next_none (hg : p.grid.WellFormed) (h : (p.solve L state).Reaches found t)
    (hnext : t.next = (none, u)) : u.next = (none, u) := by
  obtain ⟨o, observed, ho, hsteps, rfl⟩ := solverAt_of_reaches hg h
  obtain ⟨rows, notes, o', -, -, -, hend, hcall⟩ := next_solverAt hg ho hsteps
  rw [hcall, Prod.mk.injEq, Option.map_eq_none_iff] at hnext
  obtain ⟨rfl, rfl⟩ := hnext
  have hover := Search.next_of_exhausted (s := o'.search (L.hearAll (p.labelled notes) observed))
    (hend rfl) (L.rename p.columnAt p.rowAt)
  simp only [Solver.next, solverAt, Solver.gridListener, hover]
  rfl

variable [Ord R] [Std.TransOrd C] [Std.LawfulEqOrd C] [Std.TransOrd R] [Std.LawfulEqOrd R]

/-- Wherever a solver stands, the next call returns: none of its loops, and none of those that list
    the coverage, goes on beyond a bound that depends on the problem only, and over tables they have
    the result that the solver has. After finitely many calls there are no more solutions, and from
    then on a call changes nothing, and nothing is heard of it. -/
theorem Reachable.next_returns (hp : p.Reachable) (L : Listener C R σ) (state : σ)
    (h : (p.solve L state).Reaches found t) :
    (∀ limit, p.loopBound ≤ limit →
      t.arena.next L limit = .ok (t.next.1, t.next.2.arena) ∧
      t.arena.coverage limit = .ok t.coverage) ∧
    (∃ rest u, t.Yields rest u) ∧
    ∀ u, t.next = (none, u) → u.next = (none, u) := by
  have hg := hp.wellFormed.grid
  refine ⟨fun limit hlimit => ?_, ?_, fun u => next_of_next_none hg h⟩
  · obtain ⟨o, observed, ho, hsteps, rfl⟩ := solverAt_of_reaches hg h
    exact ⟨next_arena hg ho hsteps hlimit L observed, coverage_arena hg ho hlimit L observed⟩
  · obtain ⟨o, observed, ho, hsteps, rfl⟩ := solverAt_of_reaches hg h
    obtain ⟨notes, o', -, -, htake⟩ := take_solverAt hg ho hsteps (Nat.lt_succ_self o.nodesLeft)
    exact ⟨_, _, (htake L observed).2⟩

/-- A solver of two columns, a row that covers both and two rows that cover one each, after its two
    solutions. -/
theorem Reachable.next_returns_none : ∃ p : Problem Nat Nat, ∃ t u,
    t = (p.solve Listener.logging #[]).next.2.next.2 ∧ p.loopBound = 27 ∧
    t.arena.next Listener.logging 27 = .ok (none, u.arena) ∧ t.next = (none, u) ∧
    u.next = (none, u) := by
  obtain ⟨p, hp, hbound, hnone⟩ : ∃ p : Problem Nat Nat, p.Reachable ∧ p.loopBound = 27 ∧
      (p.solve Listener.logging #[]).next.2.next.2.next.1 = none :=
    ⟨_, .attempt (.addUnitRow 9 [2]) (.attempt (.addUnitRow 8 [1])
      (.attempt (.addUnitRow 7 [1, 2]) (.ofColumns (rfl : Problem.ofColumns [1, 2] = .ok _)))),
      by decide +kernel, by decide +kernel⟩
  obtain ⟨hloops, -, hfused⟩ := hp.next_returns Listener.logging #[] (.next (.next .refl))
  have hnext := (hloops 27 hbound.le).1
  have hcall : (p.solve Listener.logging #[]).next.2.next.2.next = (none, _) := Prod.ext hnone rfl
  rw [hnone] at hnext
  exact ⟨p, _, _, rfl, hbound, hnext, hcall, hfused _ hcall⟩

end Problem

end ExactCover
