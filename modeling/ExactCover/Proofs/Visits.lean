import ExactCover.Proofs.Search.Counters
import ExactCover.Proofs.Search.Visits
import ExactCover.Proofs.Solver

namespace ExactCover

/-- Keeps the partial solution and, for every selection so far, the partial solution right after it,
    the latest first in both. -/
def Listener.visiting {C R : Type} : Listener C R (List R × List (List R)) where
  toObserver := .visiting

section Listening

variable {C R : Type}

theorem Listener.hearAll_visiting (notes : List (Note C R)) (state : List R × List (List R)) :
    visiting.hearAll notes state = Observer.visiting.handleAll (Note.events notes) state :=
  Observer.visiting.hearAll_listener notes state

end Listening

namespace Problem

variable {C R : Type} [Ord C] [Ord R] [Std.TransOrd C] [Std.LawfulEqOrd C] [Std.TransOrd R]
  [Std.LawfulEqOrd R] {p : Problem C R}

omit [Std.TransOrd C] [Std.LawfulEqOrd C] [Std.TransOrd R] in
/-- Lists of positions that differ as sets differ as sets of labels. -/
theorem WellFormed.pairwise_labels (hp : p.WellFormed) {visits : List (List (Fin p.grid.rows))}
    (h : (visits.map List.toFinset).Nodup) :
    (visits.map (List.map p.rowAt)).Pairwise fun rows other =>
      ¬ ∀ row, row ∈ rows ↔ row ∈ other := by
  rw [List.pairwise_map]
  refine (List.pairwise_map.mp h).imp fun {rows other} hne hsame => hne ?_
  ext row
  have hrow := hsame (p.rowAt row)
  rwa [List.mem_map_of_injective hp.rowAt_injective, List.mem_map_of_injective hp.rowAt_injective,
    ← List.mem_toFinset, ← List.mem_toFinset] at hrow

/-- The partial solutions right after the selections of a run, those included that overshoot, differ
    from each other as sets, and none of them is empty. So the number of rows bounds the selections,
    the nodes and the depth, whatever the targets are. -/
theorem Reachable.visits_once (hp : p.Reachable) :
    (∀ found t, (p.solve .visiting ([], [])).Reaches found t →
      t.observed.1 = t.search.selected.map t.problem.rowAt ∧
      t.observed.2.length = t.statistics.selections ∧
      (t.observed.2.Pairwise fun rows other => ¬ ∀ row, row ∈ rows ↔ row ∈ other) ∧
      [] ∉ t.observed.2) ∧
    ∀ {σ : Type} (L : Listener C R σ) (state : σ) (found : List (List R)) (t : Solver C R σ),
      (p.solve L state).Reaches found t →
        t.statistics.selections ≤ 2 ^ p.rowCount - 1 ∧ t.statistics.nodes ≤ 2 ^ p.rowCount ∧
        t.depth ≤ t.statistics.maxDepth ∧ t.statistics.maxDepth ≤ p.rowCount := by
  have hg := hp.wellFormed.grid
  refine ⟨fun found t h => ?_, fun {σ} L state found t h => ?_⟩
  · obtain ⟨notes, o, hmoves, -, rfl⟩ := outline_of_reaches hg h
    obtain ⟨visits, hvisits, hselections, -, hnodup, hempty⟩ := hmoves.visits_nodup hg
    have hobserved : Listener.visiting.hearAll (p.starting :: p.labelled notes) ([], []) =
        ((selectedAt o.frames).map p.rowAt, visits.map (List.map p.rowAt)) := by
      have hlabels := Observer.visiting_map ([], []) p.columnAt p.rowAt (Note.events notes)
      rw [hvisits] at hlabels
      rw [Listener.hearAll_visiting, starting, Note.events_remark, events_labelled]
      exact hlabels
    simp only [solverAt, Solver.observed, Outline.search, hobserved]
    refine ⟨trivial, (List.length_map _).trans hselections.symm,
      hp.wellFormed.pairwise_labels hnodup, fun hmem => ?_⟩
    obtain ⟨rows, hrows, hnil⟩ := List.mem_map.mp hmem
    rw [List.map_eq_nil_iff.mp hnil] at hrows
    exact hempty (List.mem_map.mpr ⟨[], hrows, List.toFinset_nil⟩)
  · obtain ⟨notes, o, hmoves, -, rfl⟩ := outline_of_reaches hg h
    obtain ⟨visits, -, hselections, -, hnodup, hempty⟩ := hmoves.visits_nodup hg
    have hbound := length_le_of_visits hnodup hempty
    have hpos := Nat.two_pow_pos p.grid.rows
    obtain ⟨hnodes, hdepth, hmax⟩ :=
      hmoves.counted hg (Outline.valid_start _) (Outline.counted_start _)
    have hle : o.statistics.nodes ≤ o.statistics.selections + 1 := by omega
    refine ⟨hselections.le.trans hbound, ?_, hdepth, hmax⟩
    change o.statistics.nodes ≤ 2 ^ p.grid.rows
    omega

/-- Two of three rows fill a column. In all orders there would be nine selections of one or two
    rows; six of them are made. -/
theorem Reachable.visits_three_rows : ∃ p : Problem Nat Nat, ∃ found t,
    (p.solve .visiting ([], [])).Reaches found t ∧
    t.observed.2 = [[9], [9, 8], [8], [9, 7], [8, 7], [7]] ∧
    (t.observed.2.Pairwise fun rows other => ¬ ∀ row, row ∈ rows ↔ row ∈ other) ∧
    t.statistics.selections = 6 ∧ t.statistics.selections ≤ 2 ^ p.rowCount - 1 := by
  obtain ⟨p, hp, hvisits, hselections⟩ : ∃ p : Problem Nat Nat, p.Reachable ∧
      (p.solve .visiting ([], [])).next.2.next.2.next.2.next.2.observed.2 =
        [[9], [9, 8], [8], [9, 7], [8, 7], [7]] ∧
      (p.solve .visiting ([], [])).next.2.next.2.next.2.next.2.statistics.selections = 6 :=
    ⟨_, .attempt (.addUnitRow 9 [1]) (.attempt (.addUnitRow 8 [1])
      (.attempt (.addUnitRow 7 [1]) (.attempt (.setTarget 1 2)
        (.ofColumns (rfl : Problem.ofColumns [1] = .ok _))))),
      by decide +kernel, by decide +kernel⟩
  obtain ⟨hsets, hbounds⟩ := hp.visits_once
  exact ⟨p, _, _, .next (.next (.next (.next .refl))), hvisits,
    (hsets _ _ (.next (.next (.next (.next .refl))))).2.2.1, hselections,
    (hbounds _ _ _ _ (.next (.next (.next (.next .refl))))).1⟩

end Problem

end ExactCover
