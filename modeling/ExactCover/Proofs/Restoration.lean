import ExactCover.Proofs.Search.Levels
import ExactCover.Proofs.Solver

namespace ExactCover.Problem

variable {C R σ : Type} [Ord C]

/-- The search for the solutions of a problem after some iterations of the loop that looks for the
    next one. -/
def searchAfter (p : Problem C R) (L : Listener C R σ) (state : σ) (n : Nat) : Search p.grid σ :=
  (p.solve L state).search.after (p.solve L state).gridListener n

variable {p : Problem C R} {L : Listener C R σ} {state : σ}

/-- Calls for the next solution are iterations, one after the other. -/
theorem eq_searchAfter_of_reaches {found : List (List R)} {t : Solver C R σ}
    (h : (p.solve L state).Reaches found t) : ∃ n, t = ⟨p, L, p.searchAfter L state n⟩ := by
  induction h with
  | refl => exact ⟨0, rfl⟩
  | step _ ih =>
    obtain ⟨n, rfl⟩ := ih
    exact ⟨n + 1, rfl⟩
  | next _ ih =>
    obtain ⟨m, rfl⟩ := ih
    obtain ⟨n, hn⟩ := (p.searchAfter L state m).nextWithin_eq_after
      (p.solve L state).gridListener (3 * p.grid.rowSets + 1)
    exact ⟨m + n, congrArg (Solver.mk p L) (hn.trans (Search.after_after _ _ m n))⟩

theorem reaches_searchAfter (p : Problem C R) (L : Listener C R σ) (state : σ) (n : Nat) :
    ∃ found, (p.solve L state).Reaches found ⟨p, L, p.searchAfter L state n⟩ := by
  induction n with
  | zero => exact ⟨[], .refl⟩
  | succ n ih =>
    obtain ⟨found, hreaches⟩ := ih
    exact ⟨_, hreaches.step⟩

/-- The lists and the partial solution follow from the levels that are open. -/
theorem searchAfter_eq (hg : p.grid.WellFormed) (L : Listener C R σ) (state : σ) (n : Nat) :
    ∃ o observed, o.Valid ∧ p.searchAfter L state n = Outline.search o observed := by
  obtain ⟨found, hreaches⟩ := reaches_searchAfter p L state n
  obtain ⟨notes, o, hmoves, -, heq⟩ := outline_of_reaches hg hreaches
  obtain ⟨-, -, hsearch⟩ := Solver.mk.inj heq
  exact ⟨o, _, hmoves.valid (Outline.valid_start _), eq_of_heq hsearch⟩

/-- The open levels determine every link and the partial solution. -/
theorem links_searchAfter (hg : p.grid.WellFormed) (L : Listener C R σ) (state : σ) (n : Nat) :
    (p.searchAfter L state n).links = linksAt (p.searchAfter L state n).frames ∧
      (p.searchAfter L state n).selected = selectedAt (p.searchAfter L state n).frames := by
  obtain ⟨o, observed, -, heq⟩ := searchAfter_eq hg L state n
  rw [heq]
  exact ⟨rfl, rfl⟩

/-- Two searches of one run that have the same levels open agree in their lists and in their partial
    solutions. -/
theorem searchAfter_congr (hg : p.grid.WellFormed) {m n : Nat}
    (h : (p.searchAfter L state n).frames = (p.searchAfter L state m).frames) :
    (p.searchAfter L state n).links = (p.searchAfter L state m).links ∧
      (p.searchAfter L state n).selected = (p.searchAfter L state m).selected := by
  obtain ⟨hlinks, hselected⟩ := links_searchAfter hg L state n
  obtain ⟨hlinks', hselected'⟩ := links_searchAfter hg L state m
  rw [hlinks, hlinks', hselected, hselected', h]
  exact ⟨rfl, rfl⟩

/-- When there are no more solutions, the search is as it was before its first step, but for its
    phase, its counters and what the listener knows. -/
theorem solver_of_next_none (hg : p.grid.WellFormed) {found : List (List R)} {t u : Solver C R σ}
    (h : (p.solve L state).Reaches found t) (hnext : t.next = (none, u)) :
    ∃ statistics observed, u = ⟨p, L, { (p.solve L state).search with
      phase := .exhausted, statistics := statistics, observed := observed }⟩ := by
  obtain ⟨notes, o, hmoves, -, rfl⟩ := outline_of_reaches hg h
  have ho := hmoves.valid (Outline.valid_start _)
  have hsteps := (hmoves.left_le hg (Outline.valid_start _)).1
  rw [Outline.stepsLeft_start] at hsteps
  obtain ⟨rows, notes', o', hmoves', -, -, hend, hcall⟩ := next_solverAt hg ho hsteps
  rw [hcall, Prod.mk.injEq, Option.map_eq_none_iff] at hnext
  obtain ⟨rfl, rfl⟩ := hnext
  have hphase := hend rfl
  have hframes := (hmoves'.valid ho).frames_eq_nil hphase
  obtain ⟨frames, phase, statistics⟩ := o'
  cases hphase
  cases hframes
  exact ⟨statistics, _, rfl⟩

variable [Ord R] [Std.TransOrd C] [Std.LawfulEqOrd C] [Std.TransOrd R] [Std.LawfulEqOrd R]

/-- Before the first step the coverage has every column with all rows that cover it. -/
theorem WellFormed.coverage_solve (hp : p.WellFormed) (L : Listener C R σ) (state : σ) :
    (p.solve L state).coverage = p.columns.map fun column =>
      (column, p.rows.keys.filter fun row => (p.amount? row column).isSome) := by
  have hactive : (Links.initial p.grid).active.forward = List.finRange p.grid.columns :=
    (Chain.lists_ofList (List.nodup_finRange _)).forward_eq
  have hrows (column : Fin p.grid.columns) :
      ((Links.initial p.grid).rows column).forward = p.grid.rowsOf column := by
    have hnodup : (p.grid.rowsOf column).Nodup := (List.nodup_finRange _).filter _
    have hlists := Chain.lists_ofList hnodup
    simpa [Links.initial, Links.rows] using hlists.forward_eq
  have hlabels (column : Fin p.grid.columns) : (p.grid.rowsOf column).map p.rowAt =
      p.rows.keys.filter fun row => (p.amount? row (p.columnAt column)).isSome := by
    rw [rowKeys_eq, List.filter_map, Grid.rowsOf]
    refine congrArg (List.map p.rowAt) (List.filter_congr fun row _ => ?_)
    have hsome := hp.isSome_amount?_labels row column
    rw [Grid.columnsOf, List.mem_map] at hsome
    rw [Bool.eq_iff_iff, Function.comp_apply, hsome]
    simp
  rw [Solver.coverage, Links.coverage, columns_eq, List.map_map, List.map_map]
  change (Links.initial p.grid).active.forward.map _ = _
  rw [hactive]
  refine List.map_congr_left fun column _ => ?_
  change (p.columnAt column, (((Links.initial p.grid).rows column).forward).map p.rowAt) = _
  rw [hrows, hlabels]
  rfl

/-- Every iteration that leaves a level restores what was there when the level was entered: all
    links and lengths of the lists, those of absent elements included, all open amounts, the partial
    solution, and the levels outside with the rows tried at them. The level was entered in an
    earlier iteration and has been open since. When there are no more solutions, the lists are those
    of a search that has not begun, no row is selected or tried, and the coverage is complete
    again. -/
theorem Reachable.restores_on_leaving (hp : p.Reachable) (L : Listener C R σ) (state : σ) :
    (∀ found t, (p.solve L state).Reaches found t → ∃ n, t = ⟨p, L, p.searchAfter L state n⟩) ∧
    (∀ n, (p.searchAfter L state (n + 1)).frames.length < (p.searchAfter L state n).frames.length →
      ∃ m < n, (p.searchAfter L state m).phase = .choose ∧
        (∃ column, (p.searchAfter L state (m + 1)).frames =
          ⟨column, none, []⟩ :: (p.searchAfter L state m).frames) ∧
        (∀ k, m < k → k ≤ n →
          (p.searchAfter L state m).frames.length < (p.searchAfter L state k).frames.length) ∧
        (p.searchAfter L state (n + 1)).links = (p.searchAfter L state m).links ∧
        (p.searchAfter L state (n + 1)).selected = (p.searchAfter L state m).selected ∧
        (p.searchAfter L state (n + 1)).frames = (p.searchAfter L state m).frames) ∧
    ∀ found t u, (p.solve L state).Reaches found t → t.next = (none, u) →
      (∃ statistics observed, u = ⟨p, L, { (p.solve L state).search with
        phase := .exhausted, statistics := statistics, observed := observed }⟩) ∧
      u.depth = 0 ∧ u.search.frames = [] ∧
      u.coverage = p.columns.map fun column =>
        (column, p.rows.keys.filter fun row => (p.amount? row column).isSome) := by
  have hg := hp.wellFormed.grid
  refine ⟨fun found t h => eq_searchAfter_of_reaches h, fun n hleaves => ?_,
    fun found t u h hnext => ?_⟩
  · obtain ⟨frame, hframes⟩ := Search.frames_eq_of_leaves _ hleaves
    obtain ⟨m, hm, hphase, houter, ⟨column, hentered⟩, hsince⟩ :=
      Search.entered_of_suffix _ (s := (p.solve L state).search) rfl n ⟨[], hframes.symm⟩
    obtain ⟨hlinks, hselected⟩ := searchAfter_congr hg (m := m) (n := n + 1) houter.symm
    refine ⟨m, hm, hphase, ⟨column, ?_⟩, fun k hlo hhi => ?_, hlinks, hselected, houter.symm⟩
    · exact hentered.trans (congrArg (⟨column, none, []⟩ :: ·) houter.symm)
    · exact houter.symm ▸ hsince k hlo hhi
  · obtain ⟨statistics, observed, rfl⟩ := solver_of_next_none hg h hnext
    exact ⟨⟨statistics, observed, rfl⟩, rfl, rfl, hp.wellFormed.coverage_solve L state⟩

/-- A search in which two of three rows fill a column: its inner level is left in the eighth
    iteration, and there is no third solution. -/
theorem Reachable.restores_inner_level : ∃ p : Problem Nat Nat,
    (p.searchAfter Listener.logging #[] 8).frames.length <
      (p.searchAfter Listener.logging #[] 7).frames.length ∧
    (∃ m < 7, (p.searchAfter Listener.logging #[] 8).links =
      (p.searchAfter Listener.logging #[] m).links) ∧
    ∃ u, (p.solve Listener.logging #[]).next.2.next.2.next = (none, u) ∧ u.depth = 0 := by
  obtain ⟨p, hp, hleaves, hnone⟩ : ∃ p : Problem Nat Nat, p.Reachable ∧
      (p.searchAfter Listener.logging #[] 8).frames.length <
        (p.searchAfter Listener.logging #[] 7).frames.length ∧
      (p.solve Listener.logging #[]).next.2.next.2.next.1 = none :=
    ⟨_, .attempt (.addUnitRow 9 [1, 2]) (.attempt (.addUnitRow 8 [1])
      (.attempt (.addUnitRow 7 [1]) (.attempt (.setTarget 1 2)
        (.ofColumns (rfl : Problem.ofColumns [1, 2] = .ok _))))),
      by decide +kernel, by decide +kernel⟩
  obtain ⟨-, hrestored, hlast⟩ := hp.restores_on_leaving Listener.logging #[]
  obtain ⟨m, hm, -, -, -, hlinks, -, -⟩ := hrestored 7 hleaves
  have hnext : (p.solve Listener.logging #[]).next.2.next.2.next = (none, _) := Prod.ext hnone rfl
  exact ⟨p, hleaves, ⟨m, hm, hlinks⟩, _, hnext, (hlast _ _ _ (.next (.next .refl)) hnext).2.1⟩

end ExactCover.Problem
