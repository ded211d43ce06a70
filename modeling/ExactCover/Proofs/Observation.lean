import ExactCover.Proofs.Label
import ExactCover.Proofs.Search.Accounts
import ExactCover.Proofs.Solver
import Mathlib.Data.List.ReduceOption

namespace ExactCover

section Listening

variable {C R σ : Type}

/-- The row that an event selects (`true`) or deselects. -/
def Event.selection? : Event C R → Option (R × Bool)
  | .select row => some (row, true)
  | .deselect row => some (row, false)
  | _ => none

/-- An observer of selections sees no other events. -/
theorem Observer.handleAll_rowSelect (f : R → Bool → σ → σ) (events : List (Event C R)) (s : σ) :
    ({ rowSelect := f } : Observer C R σ).handleAll events s =
      (events.filterMap Event.selection?).foldl (fun s e => f e.1 e.2 s) s := by
  induction events generalizing s with
  | nil => rfl
  | cons e events ih => cases e <;> exact ih _

/-- Of the reports that a journal gains, those about events are one for each event, in order. -/
theorem Listener.hearAll_reporting [Label C] [Label R] (notes : List (Note C R))
    (journal : Journal) :
    (reporting.hearAll notes journal).toList.filter (fun r => r.topic = .events) =
      journal.toList.filter (fun r => r.topic = .events) ++
        (Note.events notes).map Event.report := by
  induction notes generalizing journal with
  | nil => simp [hearAll]
  | cons note notes ih =>
    change (reporting.hearAll notes (reporting.hear note journal)).toList.filter _ = _
    rw [ih]
    cases note with
    | event e =>
      have hpush : reporting.hear (.event e) journal = journal.push e.report := by cases e <;> rfl
      have htopic : e.report.topic = .events := by cases e <;> rfl
      simp [hpush, htopic, Note.events, Note.event?]
    | remark r =>
      have hpush : (reporting : Listener C R Journal).hear (.remark r) journal =
          journal.push r.report := rfl
      have htopic : r.report.topic = .solver := by cases r <;> rfl
      simp [hpush, htopic]

end Listening

/-- The answers to some calls for the next solution, and the solver after them. -/
def Solver.pull {C R σ : Type} [Ord C] : (calls : Nat) → Solver C R σ →
    List (Option (List R)) × Solver C R σ
  | 0, s => ([], s)
  | calls + 1, s =>
    let (found, s) := s.next
    let (others, s) := pull calls s
    (found :: others, s)

namespace Problem

variable {C R σ : Type} [Ord C]

/-- The events that a log records during some calls for the next solution. -/
def eventLog (p : Problem C R) (calls : Nat) : List (Event C R) :=
  (Solver.pull calls (p.solve .logging #[])).2.observed.toList

/-- What a listener knows after searches one after the other, each of them with some calls for the
    next solution. -/
def searchInTurn (L : Listener C R σ) (searches : List (Problem C R × Nat)) (state : σ) : σ :=
  searches.foldl (fun state (p, calls) => (Solver.pull calls (p.solve L state)).2.observed) state

variable {p : Problem C R}

/-- Calls for the next solution lead through the same moves and have the same answers, whoever
    listens. The answers are the solutions among the notes, and after a call no node waits to be
    entered. -/
theorem pull_solverAt (hg : p.grid.WellFormed) {o : Outline p.grid} (ho : o.Valid)
    (hsteps : o.stepsLeft ≤ 3 * p.grid.rowSets) (calls : Nat) :
    ∃ answers notes o', Moves o notes o' ∧ p.labelledSolutions notes = answers.reduceOption ∧
      (o.phase ≠ .choose ∨ 0 < calls → o'.phase ≠ .choose) ∧
      ∀ {σ : Type} (L : Listener C R σ) (observed : σ),
        Solver.pull calls (p.solverAt L o observed) =
          (answers, p.solverAt L o' (L.hearAll (p.labelled notes) observed)) := by
  induction calls generalizing o with
  | zero =>
    refine ⟨[], [], o, .refl o, rfl, fun h => ?_, fun L observed => rfl⟩
    exact h.resolve_right (Nat.lt_irrefl 0)
  | succ calls ih =>
    obtain ⟨found, notes, o', hmoves, hsolutions, hlast, hend, hnext⟩ := next_solverAt hg ho hsteps
    obtain ⟨answers, notes', o'', hmoves', hsolutions', hphase, hpull⟩ :=
      ih (hmoves.valid ho) ((hmoves.left_le hg ho).1.trans hsteps)
    have hreturned : o'.phase ≠ .choose := by
      cases found with
      | none => exact hend rfl ▸ nofun
      | some rows => exact hmoves.phase_ne_choose (hlast rows rfl)
    refine ⟨(found.map fun rows => rows.map p.rowAt) :: answers, notes ++ notes', o'',
      hmoves.trans hmoves', ?_, fun _ => hphase (.inl hreturned), fun L observed => ?_⟩
    · rw [labelledSolutions_append, hsolutions', labelledSolutions_of_toList hsolutions]
      cases found <;> rfl
    · rw [Solver.pull, hnext, labelled_append, Listener.hearAll_append]
      simp only [hpull]

/-- Calls from the beginning of a search have one course for all listeners. The log has its
    events. -/
theorem pull_solve (hg : p.grid.WellFormed) (calls : Nat) :
    ∃ answers notes o, Moves (.start p.grid) notes o ∧
      p.labelledSolutions notes = answers.reduceOption ∧ (0 < calls → o.phase ≠ .choose) ∧
      p.eventLog calls = p.labelledEvents (Note.events notes) ∧
      ∀ {σ : Type} (L : Listener C R σ) (state : σ), Solver.pull calls (p.solve L state) =
        (answers, p.solverAt L o (L.hearAll (p.starting :: p.labelled notes) state)) := by
  obtain ⟨answers, notes, o, hmoves, hsolutions, hphase, hpull⟩ :=
    pull_solverAt hg (Outline.valid_start p.grid) (Outline.stepsLeft_start _).le calls
  have hsolve {σ : Type} (L : Listener C R σ) (state : σ) : Solver.pull calls (p.solve L state) =
      (answers, p.solverAt L o (L.hearAll (p.starting :: p.labelled notes) state)) :=
    hpull L (L.hear p.starting state)
  refine ⟨answers, notes, o, hmoves, hsolutions, fun h => hphase (.inr h), ?_, hsolve⟩
  rw [eventLog, hsolve, ← events_labelled]
  exact log_solverAt o _ #[]

/-- What an observer knows after some calls are the events of the log, handled in order. -/
theorem observed_pull (hg : p.grid.WellFormed) (o : Observer C R σ) (state : σ) (calls : Nat) :
    (Solver.pull calls (p.solve o.listener state)).2.observed =
      o.handleAll (p.eventLog calls) state := by
  obtain ⟨answers, notes, place, -, -, -, hlog, hpull⟩ := pull_solve hg calls
  rw [hpull, hlog, ← events_labelled]
  exact o.hearAll_listener (p.starting :: p.labelled notes) state

/-- The reports about events that a journal gains are those of the log. -/
theorem eventReports_pull [Label C] [Label R] (hg : p.grid.WellFormed) (journal : Journal)
    (calls : Nat) :
    (Solver.pull calls (p.solve .reporting journal)).2.observed.toList.filter
        (fun r => r.topic = .events) =
      journal.toList.filter (fun r => r.topic = .events) ++
        (p.eventLog calls).map Event.report := by
  obtain ⟨answers, notes, o, -, -, -, hlog, hpull⟩ := pull_solve hg calls
  rw [hpull, hlog, ← events_labelled]
  exact Listener.hearAll_reporting (p.starting :: p.labelled notes) journal

/-- A journal tells the log: searches with the same reports about events had the same events. -/
theorem eventLog_eq_of_reports [Label C] [Label R] [Label.Distinct C] [Label.Distinct R]
    {q : Problem C R} (hp : p.grid.WellFormed) (hq : q.grid.WellFormed) {calls calls' : Nat}
    (h : (Solver.pull calls (p.solve .reporting #[])).2.observed.toList.filter
        (fun r => r.topic = .events) =
      (Solver.pull calls' (q.solve .reporting #[])).2.observed.toList.filter
        (fun r => r.topic = .events)) : p.eventLog calls = q.eventLog calls' := by
  rw [eventReports_pull hp, eventReports_pull hq] at h
  exact List.map_injective_iff.mpr Event.report_injective h

/-- An observer that is handed from one search to the next sees one log after the other. -/
theorem searchInTurn_eq (o : Observer C R σ) {searches : List (Problem C R × Nat)}
    (hg : ∀ s ∈ searches, s.1.grid.WellFormed) (state : σ) :
    searchInTurn o.listener searches state =
      o.handleAll (searches.flatMap fun s => s.1.eventLog s.2) state := by
  induction searches generalizing state with
  | nil => rfl
  | cons s searches ih =>
    have hfirst := observed_pull (hg s List.mem_cons_self) o state s.2
    change searchInTurn o.listener searches
      (Solver.pull s.2 (s.1.solve o.listener state)).2.observed = _
    rw [hfirst, ih fun s hs => hg s (List.mem_cons_of_mem _ hs), List.flatMap_cons,
      Observer.handleAll_append]

/-- Through a reference an observer sees of the searches what it sees when it is handed to them
    itself, and the rest of the state is as it was. -/
theorem searchInTurn_behind {τ : Type} (ref : Ref τ σ) (o : Observer C R σ)
    {searches : List (Problem C R × Nat)} (hg : ∀ s ∈ searches, s.1.grid.WellFormed) (state : τ) :
    searchInTurn (o.behind ref).listener searches state =
      ref.set (searchInTurn o.listener searches (ref.get state)) state := by
  rw [searchInTurn_eq _ hg, searchInTurn_eq _ hg, Observer.handleAll_behind]

variable [Ord R] [Std.TransOrd C] [Std.LawfulEqOrd C] [Std.TransOrd R] [Std.LawfulEqOrd R]

/-- Observers are passive and the log tells all that they see. Whoever listens, any number of calls
    has the answers, the counters, the depth, the end and the coverage that it has when nobody
    does. What an observer knows afterwards is its first state with the events of the log handled in
    their order; if it is handed on from search to search, those of their logs one after the other.
    A journal gains one report about each event of the log in its order, and an observer of
    selections sees the selections and deselections of the log. -/
theorem Reachable.observers_passive [Label C] [Label R] (hp : p.Reachable) (calls : Nat) :
    (∀ {σ : Type} (L : Listener C R σ) (state : σ),
      (Solver.pull calls (p.solve L state)).1 =
        (Solver.pull calls (p.solve Observer.silent.listener ())).1 ∧
      (Solver.pull calls (p.solve L state)).2.statistics =
        (Solver.pull calls (p.solve Observer.silent.listener ())).2.statistics ∧
      (Solver.pull calls (p.solve L state)).2.depth =
        (Solver.pull calls (p.solve Observer.silent.listener ())).2.depth ∧
      (Solver.pull calls (p.solve L state)).2.isExhausted =
        (Solver.pull calls (p.solve Observer.silent.listener ())).2.isExhausted ∧
      (Solver.pull calls (p.solve L state)).2.coverage =
        (Solver.pull calls (p.solve Observer.silent.listener ())).2.coverage) ∧
    (∀ {σ : Type} (o : Observer C R σ) (state : σ),
      (Solver.pull calls (p.solve o.listener state)).2.observed =
        o.handleAll (p.eventLog calls) state) ∧
    (∀ {σ : Type} (o : Observer C R σ) (state : σ) (searches : List (Problem C R × Nat)),
      (∀ s ∈ searches, s.1.Reachable) →
      searchInTurn o.listener searches state =
        o.handleAll (searches.flatMap fun s => s.1.eventLog s.2) state) ∧
    (∀ journal : Journal,
      (Solver.pull calls (p.solve .reporting journal)).2.observed.toList.filter
          (fun r => r.topic = .events) =
        journal.toList.filter (fun r => r.topic = .events) ++
          (p.eventLog calls).map Event.report) ∧
    ∀ {σ : Type} (f : R → Bool → σ → σ) (state : σ),
      (Solver.pull calls
          (p.solve ({ rowSelect := f } : Observer C R σ).listener state)).2.observed =
        ((p.eventLog calls).filterMap Event.selection?).foldl (fun s e => f e.1 e.2 s) state := by
  have hg := hp.wellFormed.grid
  refine ⟨fun L state => ?_, fun o state => observed_pull hg o state calls,
    fun o state searches hsearches => ?_, fun journal => ?_, fun f state => ?_⟩
  · obtain ⟨answers, notes, o, -, -, -, -, hpull⟩ := pull_solve hg calls
    rw [hpull, hpull]
    exact ⟨rfl, rfl, rfl, rfl, rfl⟩
  · exact searchInTurn_eq o (fun s hs => (hsearches s hs).wellFormed.grid) state
  · exact eventReports_pull hg journal calls
  · rw [observed_pull hg, Observer.handleAll_rowSelect]

/-- Two searches of a problem with a row that fills its column and a row that overshoots, the first
    one cut short: a count of selections that is handed from one to the other. -/
theorem Reachable.observers_of_two_searches : ∃ p : Problem Nat Nat,
    p.eventLog 1 = [.select 7, .remove 1 7, .solution [7]] ∧
    p.eventLog 2 = [.select 7, .remove 1 7, .solution [7], .deselect 7, .select 8, .remove 1 8,
      .deselect 8, .restore 1 8, .restore 1 7] ∧
    (Solver.pull 2 (p.solve Observer.selectionCounts.listener (0, 0))).1 =
      (Solver.pull 2 (p.solve Observer.silent.listener ())).1 ∧
    searchInTurn Observer.selectionCounts.listener [(p, 1), (p, 2)] (0, 0) = (3, 2) := by
  obtain ⟨p, hp, hfirst, hsecond⟩ : ∃ p : Problem Nat Nat, p.Reachable ∧
      p.eventLog 1 = [.select 7, .remove 1 7, .solution [7]] ∧
      p.eventLog 2 = [.select 7, .remove 1 7, .solution [7], .deselect 7, .select 8, .remove 1 8,
        .deselect 8, .restore 1 8, .restore 1 7] :=
    ⟨_, .attempt (.addRow 8 [(1, 3)]) (.attempt (.addUnitRow 7 [1])
      (.ofColumns (rfl : Problem.ofColumns [1] = .ok _))),
      by decide +kernel, by decide +kernel⟩
  let _ : Label Nat := ⟨Decimal.ofNat⟩
  obtain ⟨hcourse, -, hturns, -, -⟩ := hp.observers_passive 2
  have hsearches : ∀ s ∈ [(p, 1), (p, 2)], s.1.Reachable := by
    rintro s hs
    obtain rfl | rfl : s = (p, 1) ∨ s = (p, 2) := by simpa using hs
    · exact hp
    · exact hp
  refine ⟨p, hfirst, hsecond, (hcourse _ _).1, ?_⟩
  rw [hturns Observer.selectionCounts (0, 0) _ hsearches]
  simp only [List.flatMap_cons, List.flatMap_nil, hfirst, hsecond]
  rfl

end Problem

end ExactCover
