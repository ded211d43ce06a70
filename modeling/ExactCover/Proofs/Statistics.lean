import ExactCover.Proofs.Observation
import ExactCover.Proofs.Problem.Remainder
import ExactCover.Proofs.Search.Counters
import ExactCover.Proofs.Solutions

namespace ExactCover

section Events

variable {C R C' R' : Type}

theorem Event.IsPeak.map (f : C → C') (g : R → R') {events : List (Event C R)} {peak : Nat}
    (h : IsPeak events peak) : IsPeak (events.map (Event.map f g)) peak := by
  have hdepth (earlier : List (Event C R)) :
      depth (earlier.map (Event.map f g)) = depth earlier := by
    simp only [depth, tally_map]
  obtain ⟨⟨earlier, hearlier, hpeak⟩, hle⟩ := h
  refine ⟨⟨_, hearlier.map _, (hdepth earlier).trans hpeak⟩, ?_⟩
  rintro n ⟨mapped, hmapped, rfl⟩
  obtain ⟨earlier, hearlier, rfl⟩ := List.prefix_map_iff.mp hmapped
  exact hle ⟨earlier, hearlier, (hdepth earlier).symm⟩

end Events

variable {C R σ : Type} [Ord C] [Ord R]

/-- Whether the row selected last, the first in the list, takes a column past its target. -/
def Problem.Overshoots (p : Problem C R) (rows : List R) : Prop :=
  ∃ entry ∈ p.targets.entries, p.received rows.tail entry.1 ≤ entry.2.toNat ∧
    entry.2.toNat < p.received rows entry.1

instance (p : Problem C R) : DecidablePred p.Overshoots := fun rows =>
  inferInstanceAs (Decidable (∃ entry ∈ p.targets.entries,
    p.received rows.tail entry.1 ≤ entry.2.toNat ∧ entry.2.toNat < p.received rows entry.1))

namespace Solver

/-- The pairs of a column and a row that the lists of the search hold. -/
def linked (s : Solver C R σ) : SortedSet (C × R) :=
  .ofList ((List.finRange s.problem.grid.columns).flatMap fun column =>
    (s.search.links.rows column).forward.map fun row => s.problem.pairAt (column, row))

/-- The incidences of the problem that are not linked. -/
def unlinked (s : Solver C R σ) : List (C × R) :=
  s.problem.incidences.elements.filter fun pair => !s.linked.contains pair

/-- The statistics of a solver agree with the answers it has given and with the events it has sent,
    oldest first. -/
structure Accounts (s : Solver C R σ) (answers : List (Option (List R)))
    (log : List (Event C R)) : Prop where
  nodes : (s.statistics.nodes : Int) = 1 + s.statistics.selections - s.statistics.overshoots
  selections : s.statistics.selections = Event.tally .select log
  deselections : (s.statistics.selections : Int) - s.depth = Event.tally .deselect log
  /-- The selections that took a column past its target. -/
  overshoots : s.statistics.overshoots =
    (Observer.visiting.handleAll log ([], [])).2.countP s.problem.Overshoots
  answers : s.statistics.solutions = answers.reduceOption.length
  solutions : s.statistics.solutions = Event.tally .solution log
  peak : Event.IsPeak log s.statistics.maxDepth
  unlinked : (Event.tally .remove log : Int) - Event.tally .restore log = s.unlinked.length

end Solver

namespace Problem

variable [Std.TransOrd C] [Std.LawfulEqOrd C] [Std.TransOrd R] [Std.LawfulEqOrd R]
  {p : Problem C R}

/-- Rows overshoot just if their positions do. -/
theorem WellFormed.overshoots_labels (hp : p.WellFormed) {rows : List (Fin p.grid.rows)} :
    p.Overshoots (rows.map p.rowAt) ↔ p.grid.Overshoots rows := by
  have hcolumn (column : Fin p.grid.columns) :
      (p.received (rows.map p.rowAt).tail (p.columnAt column) ≤ (p.targets.entry column).2.toNat ∧
          (p.targets.entry column).2.toNat < p.received (rows.map p.rowAt) (p.columnAt column)) ↔
        p.grid.received rows.tail column ≤ p.grid.target column ∧
          p.grid.target column < p.grid.received rows column := by
    rw [← List.map_tail, hp.received_labels, hp.received_labels, grid_target]
  constructor
  · rintro ⟨entry, hentry, hover⟩
    obtain ⟨column, rfl⟩ := SortedMap.mem_entries_iff.mp hentry
    exact ⟨column, (hcolumn column).mp hover⟩
  · rintro ⟨column, hover⟩
    exact ⟨_, List.get_mem _ column, (hcolumn column).mpr hover⟩

/-- The selections that overshoot, told by labels and by positions. -/
theorem WellFormed.countP_overshoots (hp : p.WellFormed)
    {events : List (Event (Fin p.grid.columns) (Fin p.grid.rows))}
    {selected : List (Fin p.grid.rows)} {visits : List (List (Fin p.grid.rows))}
    (h : Observer.visiting.handleAll events ([], []) = (selected, visits)) :
    (Observer.visiting.handleAll (p.labelledEvents events) ([], [])).2.countP p.Overshoots =
      visits.countP p.grid.Overshoots := by
  have hlabels := Observer.visiting_map ([], []) p.columnAt p.rowAt events
  rw [h, List.map_nil, List.map_nil] at hlabels
  rw [labelledEvents, hlabels, List.countP_map]
  exact List.countP_congr fun rows _ => by simp [hp.overshoots_labels]

theorem WellFormed.length_pairsLinked (hp : p.WellFormed) (s : Stage p.grid) :
    (p.pairsLinked s).elements.length = s.linkedCells.length := by
  have hperm : (p.pairsLinked s).elements.Perm (s.linkedCells.map p.pairAt) := by
    refine (List.perm_ext_iff_of_nodup ((ascending_pairsLinked p s).imp SortedMap.ne_of_compare_lt)
      (s.linkedCells_nodup.map hp.pairAt_injective)).mpr fun pair => ?_
    simp only [mem_pairsLinked, List.mem_map, Stage.mem_linkedCells]
  rw [hperm.length_eq, List.length_map]

omit [Std.TransOrd R] [Std.LawfulEqOrd R] in
theorem WellFormed.linked_solverAt (hp : p.WellFormed) (L : Listener C R σ) {o : Outline p.grid}
    (ho : o.Valid) (observed : σ) :
    (p.solverAt L o observed).linked = p.pairsLinked (stageAt o.frames) := by
  refine congrArg SortedSet.ofList (List.flatMap_congr fun column _ => ?_)
  exact congrArg (List.map _) ((ho.path.shows hp.grid).rows column).forward_eq

/-- What is linked at some stage is a part of the incidences. -/
theorem WellFormed.filter_incidences_perm (hp : p.WellFormed) (s : Stage p.grid) :
    (p.incidences.elements.filter (p.pairsLinked s).contains).Perm (p.pairsLinked s).elements := by
  have hascending := ascending_pairsLinked p s
  have hincidences : p.incidences.elements.Nodup :=
    (SortedSet.ascending_ofList _).imp SortedMap.ne_of_compare_lt
  refine (List.perm_ext_iff_of_nodup (hincidences.filter _)
    (hascending.imp SortedMap.ne_of_compare_lt)).mpr fun pair => ?_
  rw [List.mem_filter, SortedSet.contains_iff hascending, and_iff_right_iff_imp, mem_pairsLinked,
    hp.mem_incidences]
  rintro ⟨cell, hlinked, rfl⟩
  exact ⟨cell, hlinked.1, rfl⟩

/-- What is linked and what is not are together all incidences. -/
theorem WellFormed.length_unlinked (hp : p.WellFormed) (L : Listener C R σ) {o : Outline p.grid}
    (ho : o.Valid) (observed : σ) :
    (p.solverAt L o observed).unlinked.length + (stageAt o.frames).linkedCells.length =
      (Stage.initial p.grid).linkedCells.length := by
  have hsplit := p.incidences.elements.length_eq_length_filter_add
    (p.pairsLinked (stageAt o.frames)).contains
  have hall : p.incidences.elements.length = (Stage.initial p.grid).linkedCells.length := by
    rw [hp.incidences_eq, hp.length_pairsLinked]
  rw [(hp.filter_incidences_perm _).length_eq, hp.length_pairsLinked, hall] at hsplit
  rw [Solver.unlinked, hp.linked_solverAt L ho, hsplit, Nat.add_comm]
  rfl

/-- Whenever a call for the next solution returns, whoever listens and however many calls there were
    before, the statistics account for the run so far. -/
theorem Reachable.statistics_account (hp : p.Reachable) (L : Listener C R σ) (state : σ)
    (calls : Nat) : (Solver.pull (calls + 1) (p.solve L state)).2.Accounts
      (Solver.pull (calls + 1) (p.solve L state)).1 (p.eventLog (calls + 1)) := by
  have hwell := hp.wellFormed
  have hg := hwell.grid
  have hstart := Outline.valid_start p.grid
  obtain ⟨answers, notes, o, hmoves, hanswers, hphase, hlog, hpull⟩ := pull_solve hg (calls + 1)
  obtain ⟨hselections, hdeselections, hsolutions, hpeak, hlinked⟩ := hmoves.accounted hg
  obtain ⟨visits, hvisits, -, hovershoots, -, -⟩ := hmoves.visits_nodup hg
  have hnodes := (hmoves.counted hg hstart (Outline.counted_start _)).nodes
  have hunlinked := hwell.length_unlinked L (hmoves.valid hstart)
    (L.hearAll (p.starting :: p.labelled notes) state)
  rw [if_neg (hphase (Nat.succ_pos calls))] at hnodes
  rw [hpull, hlog]
  dsimp only
  have htally (k : Event.Kind) : Event.tally k (p.labelledEvents (Note.events notes)) =
      Event.tally k (Note.events notes) := Event.tally_map k _ _ _
  refine ⟨?_, ?_, ?_, ?_, ?_, ?_, hpeak.map _ _, ?_⟩
  · change (o.statistics.nodes : Int) = 1 + o.statistics.selections - o.statistics.overshoots
    omega
  · exact hselections.trans (htally .select).symm
  · rw [htally]
    change (o.statistics.selections : Int) - (selectedAt o.frames).length = _
    omega
  · exact hovershoots.trans (hwell.countP_overshoots hvisits).symm
  · have hlength := congrArg List.length hanswers
    rw [labelledSolutions, List.length_map] at hlength
    exact (hsolutions.trans (Event.length_solutions _).symm).trans hlength
  · exact hsolutions.trans (htally .solution).symm
  · rw [htally, htally]
    omega

/-- A row that fills its column and a row that overshoots: of two selections one leads to the second
    node, and never are both rows selected. -/
theorem Reachable.statistics_of_overshoot : ∃ p : Problem Nat Nat,
    (Solver.pull 2 (p.solve Listener.logging #[])).2.statistics = ⟨2, 2, 1, 1, 1⟩ ∧
    Event.tally .select (p.eventLog 2) = 2 ∧ Event.tally .deselect (p.eventLog 2) = 2 ∧
    Event.IsPeak (p.eventLog 2) 1 ∧
    (Solver.pull 2 (p.solve Listener.logging #[])).2.unlinked = [] := by
  obtain ⟨p, hp, hstatistics, hdepth, hbalance⟩ : ∃ p : Problem Nat Nat, p.Reachable ∧
      (Solver.pull 2 (p.solve Listener.logging #[])).2.statistics = ⟨2, 2, 1, 1, 1⟩ ∧
      (Solver.pull 2 (p.solve Listener.logging #[])).2.depth = 0 ∧
      Event.tally .remove (p.eventLog 2) = Event.tally .restore (p.eventLog 2) :=
    ⟨_, .attempt (.addRow 8 [(1, 3)]) (.attempt (.addUnitRow 7 [1])
      (.ofColumns (rfl : Problem.ofColumns [1] = .ok _))),
      by decide +kernel, by decide +kernel, by decide +kernel⟩
  obtain ⟨-, hselections, hdeselections, -, -, -, hpeak, hunlinked⟩ :=
    hp.statistics_account Listener.logging #[] 1
  rw [hstatistics] at hselections hdeselections hpeak
  rw [hdepth] at hdeselections
  rw [hbalance, Int.sub_self] at hunlinked
  refine ⟨p, hstatistics, hselections.symm, ?_, hpeak, ?_⟩
  · exact Int.ofNat_inj.mp hdeselections.symm
  · exact List.eq_nil_of_length_eq_zero (Int.ofNat_inj.mp hunlinked.symm)

end Problem

end ExactCover
