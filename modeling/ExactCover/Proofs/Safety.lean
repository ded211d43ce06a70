import ExactCover.Proofs.Arena.Solver

namespace ExactCover

/-- A column receives at most one amount that it has no room for. -/
theorem Path.due_bounds {g : Grid} (hg : g.WellFormed) {frames : List (Frame g)} (h : Path frames)
    (column : Fin g.columns) : -(2 ^ 32 - 2) ≤ (stageAt frames).due column ∧
      (stageAt frames).due column ≤ 2 ^ 32 - 1 := by
  have htarget := g.target_lt column
  have hle := Search.due_le_target hg frames column
  refine ⟨?_, by omega⟩
  match frames with
  | [] =>
    rw [due_stageAt hg]
    simp [selectedAt]
  | ⟨c, none, tried⟩ :: outer =>
    have hfits := h.of_cons.2.2.1 column
    rw [(stageAt_none outer c tried).1]
    omega
  | ⟨c, some row, tried⟩ :: outer =>
    have hfits := h.of_cons.2.2.1 column
    obtain ⟨hpath, rest, hrows⟩ := h.of_pick
    rw [stageAt_pick, Stage.due_select hg]
    by_cases hcolumn : column ∈ g.columnsOf row
    · have hopen := (hpath.available_next hg hrows).2 column hcolumn
      obtain ⟨entry, hentry, rfl⟩ := List.mem_map.mp hcolumn
      rw [hg.amount_of_mem hentry]
      exact (hpath.settled hg).le_due_sub hopen entry.2
    · rw [Grid.amount_eq_zero hcolumn, (stageAt_none outer c tried).1]
      omega

/-- Open amounts stay within the bounds that are checked. -/
theorem Outline.Valid.remaining_bounds {g : Grid} (hg : g.WellFormed) {o : Outline g} (ho : o.Valid)
    {header : Header} (h : header ∈ (linksAt o.frames).headers) :
    -(2 ^ 32 - 2) ≤ header.remaining ∧ header.remaining ≤ 2 ^ 32 - 1 := by
  obtain rfl | hcolumn := List.mem_cons.mp h
  · have hzero : (linksAt o.frames).head.remaining = 0 := rfl
    omega
  · obtain ⟨column, -, rfl⟩ := List.mem_map.mp hcolumn
    rw [Links.header, (ho.path.shows hg).due]
    exact ho.path.due_bounds hg column

namespace Problem

variable {C R σ : Type} [Ord C] [Ord R] [Std.TransOrd C] [Std.LawfulEqOrd C] [Std.TransOrd R]
  [Std.LawfulEqOrd R] {p : Problem C R}

/-- The tables of a problem can be built, and any calls to its solver can be answered over them,
    without a fault and with the answers of the solver. What a column still has to receive stays
    within its bounds. -/
theorem Reachable.calls_without_fault (hp : p.Reachable) (L : Listener C R σ) (state : σ)
    {limit : Nat} (hlimit : p.loopBound ≤ limit) (cs : List Call) :
    p.arena L state = .ok (p.solve L state).arena ∧
    (p.solve L state).arena.calls L limit cs =
      .ok (((p.solve L state).calls cs).1, ((p.solve L state).calls cs).2.arena) ∧
    ∀ header ∈ ((p.solve L state).calls cs).2.arena.headers,
      -(2 ^ 32 - 2) ≤ header.remaining ∧ header.remaining ≤ 2 ^ 32 - 1 := by
  have hg := hp.wellFormed.grid
  have hstart := Outline.valid_start p.grid
  have hsteps := (Outline.stepsLeft_start p.grid).le
  refine ⟨hp.wellFormed.arena_eq L state,
    calls_arena hg hstart hsteps hlimit L (L.hear p.starting state) cs, fun header hheader => ?_⟩
  obtain ⟨o, observed, ho, hcalls⟩ :=
    calls_solverAt hg hstart hsteps L (L.hear p.starting state) cs
  have hend : ((p.solve L state).calls cs).2 = p.solverAt L o observed := hcalls
  rw [hend] at hheader
  exact ho.remaining_bounds hg hheader

/-- A column with a row that fills it and a row that gives it more than its target. -/
theorem Reachable.calls_with_overshoot : ∃ p : Problem Nat Nat, ∃ a,
    p.amount? 8 1 = some 3 ∧ p.arena Listener.logging #[] = .ok a ∧ p.loopBound ≤ 14 ∧
    (a.calls Listener.logging 14 [.next, .coverage, .next, .statistics]).map (·.1) =
      .ok [.next (some [7]), .coverage [], .next none, .statistics ⟨2, 2, 1, 1, 1⟩] := by
  obtain ⟨p, hp, hamount, hbound, hanswers⟩ : ∃ p : Problem Nat Nat, p.Reachable ∧
      p.amount? 8 1 = some 3 ∧ p.loopBound ≤ 14 ∧
      ((p.solve Listener.logging #[]).calls [.next, .coverage, .next, .statistics]).1 =
        [.next (some [7]), .coverage [], .next none, .statistics ⟨2, 2, 1, 1, 1⟩] :=
    ⟨_, .attempt (.addRow 8 [(1, 3)]) (.attempt (.addUnitRow 7 [1])
      (.ofColumns (rfl : Problem.ofColumns [1] = .ok _))),
      rfl, by decide +kernel, by decide +kernel⟩
  obtain ⟨hbuild, hcalls, -⟩ := hp.calls_without_fault Listener.logging #[] hbound
    [.next, .coverage, .next, .statistics]
  refine ⟨p, _, hamount, hbuild, hbound, ?_⟩
  rw [hcalls, ← hanswers]
  rfl

end Problem

end ExactCover
