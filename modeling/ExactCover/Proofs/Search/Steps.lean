import ExactCover.Proofs.Search.Progress

namespace ExactCover

variable {g : Grid} {σ : Type}

namespace Search

variable {outer frames : List (Frame g)} {column : Fin g.columns} {tried rest : List (Fin g.rows)}
  {row : Fin g.rows}

/-- Leaving a level leads to the place outside it. -/
theorem leave_eq (hg : g.WellFormed) (h : Path (⟨column, none, tried⟩ :: outer))
    (L : Listener (Fin g.columns) (Fin g.rows) σ) (st : Statistics) (observed : σ) :
    (⟨linksAt (⟨column, none, tried⟩ :: outer), frames, selectedAt outer, .advance, st,
        observed⟩ : Search g σ).leave L ⟨column, none, tried⟩ outer =
      (⟨outer, .advance, st⟩ : Outline g).search (L.hearAll
        ((tried.flatMap fun row => Event.restorals (g.rowCells row).reverse).map .event)
        observed) := by
  dsimp only [leave]
  rw [reinstateAll_eq hg h rfl]
  rfl

/-- Selecting the next row leads to the level with that row. -/
theorem select_next_eq (hg : g.WellFormed) (h : Path (⟨column, none, tried⟩ :: outer))
    (hrows : (stageAt (⟨column, none, tried⟩ :: outer)).rows column = row :: rest)
    (L : Listener (Fin g.columns) (Fin g.rows) σ) (st : Statistics) (observed : σ) :
    (⟨linksAt (⟨column, none, tried⟩ :: outer), ⟨column, some row, tried⟩ :: outer,
        selectedAt outer, .advance, st, observed⟩ : Search g σ).select L row =
      (⟨⟨column, some row, tried⟩ :: outer, .advance,
        st.addSelection ((selectedAt outer).length + 1)⟩ : Outline g).search (L.hearAll
          (selectionNotes (stageAt (⟨column, none, tried⟩ :: outer)) row) observed) := by
  rw [select_eq hg (h.shows hg) (h.settled hg) (h.available_next hg hrows)]
  rfl

/-- Deselecting a row leads to the level that has tried it. -/
theorem deselect_current_eq (hg : g.WellFormed) (h : Path (⟨column, some row, tried⟩ :: outer))
    (L : Listener (Fin g.columns) (Fin g.rows) σ) (st : Statistics) (observed : σ) :
    ((⟨⟨column, some row, tried⟩ :: outer, .advance, st⟩ : Outline g).search observed).deselect L
        row =
      ⟨linksAt (⟨column, none, row :: tried⟩ :: outer), ⟨column, some row, tried⟩ :: outer,
        selectedAt outer, .advance, st, L.hearAll
          ((Event.restorals ((stageAt (⟨column, none, tried⟩ :: outer)).hidden row).reverse ++
            [Event.deselect row]).map .event) observed⟩ := by
  obtain ⟨hpath, _, hrows⟩ := h.of_pick
  rw [deselect_eq hg (hpath.shows hg) (hpath.settled hg) (hpath.available_next hg hrows) rfl]
  rfl

/-- The links of the row deselected last lead to the next row of its level, though the row is not
    in the list any more. -/
theorem after_deselected (hg : g.WellFormed) (h : Path (⟨column, some row, tried⟩ :: outer)) :
    ((linksAt (⟨column, none, row :: tried⟩ :: outer)).rows column).after row =
      ((stageAt (⟨column, none, row :: tried⟩ :: outer)).rows column).head? := by
  obtain ⟨hpath, rest, hrows⟩ := h.of_pick
  have hlists := (hpath.shows hg).rows column
  rw [hrows] at hlists
  have hcolumn : column ∈ g.columnsOf row :=
    (Stage.mem_rows.mp (hrows ▸ List.mem_cons_self : row ∈ _)).1
  rw [linksAt_pass, Links.rows_withdraw hg, if_pos hcolumn,
    (hlists.links_remove List.mem_cons_self).2, hlists.after_eq [] row rest rfl,
    stageAt_pass, Stage.rows_withdraw hrows]

/-- Going on to the next row of a level, or leaving the level, is one move. -/
theorem proceed_spec (hg : g.WellFormed) (h : Path (⟨column, none, tried⟩ :: outer))
    (st : Statistics) :
    ∃ notes o', Move ⟨⟨column, none, tried⟩ :: outer, .advance, st⟩ notes o' ∧
      Note.solutions notes = [] ∧
      ∀ {σ : Type} (L : Listener (Fin g.columns) (Fin g.rows) σ) (frames : List (Frame g))
        (observed : σ),
        (⟨linksAt (⟨column, none, tried⟩ :: outer), frames, selectedAt outer, .advance, st,
            observed⟩ : Search g σ).proceed L ⟨column, none, tried⟩ outer
              ((stageAt (⟨column, none, tried⟩ :: outer)).rows column).head? =
          o'.search (L.hearAll notes observed) := by
  cases hrows : (stageAt (⟨column, none, tried⟩ :: outer)).rows column with
  | nil =>
    refine ⟨_, _, .leave hrows, by simp, ?_⟩
    intro σ L frames observed
    exact leave_eq hg h L st observed
  | cons row rest =>
    by_cases hfits : Fitting (⟨column, some row, tried⟩ :: outer)
    · refine ⟨_, _, .pick hrows hfits, solutions_selectionNotes _ _, ?_⟩
      intro σ L frames observed
      dsimp only [List.head?_cons, proceed, tryRow]
      rw [select_next_eq hg h hrows, if_pos ((fits_iff hg h hrows _ _ _).mpr hfits)]
      rfl
    · refine ⟨_, _, .overshoot hrows hfits, by simp, ?_⟩
      intro σ L frames observed
      dsimp only [List.head?_cons, proceed, tryRow]
      rw [select_next_eq hg h hrows, if_neg (mt (fits_iff hg h hrows _ _ _).mp hfits),
        Listener.hearAll_append]
      rfl

/-- A step of a search that is not over is one move, or two where a row is deselected first, and
    brings the search closer to its end. -/
theorem step_spec (hg : g.WellFormed) {o : Outline g} (ho : o.Valid)
    (hphase : o.phase ≠ .exhausted) :
    ∃ found notes o', Moves o notes o' ∧ o'.stepsLeft < o.stepsLeft ∧
      Note.solutions notes = found.toList ∧
      (∀ rows ∈ found, (Note.events notes).getLast? = some (.solution rows)) ∧
      ∀ {σ : Type} (L : Listener (Fin g.columns) (Fin g.rows) σ) (observed : σ),
        (o.search observed).step L = (found, o'.search (L.hearAll notes observed)) := by
  obtain ⟨frames, phase, st⟩ := o
  cases phase with
  | exhausted => exact absurd rfl hphase
  | choose =>
    have hbest := (ho.path.shows hg).bestColumn_eq
    cases hcolumn : (stageAt frames).bestColumn with
    | some column =>
      have hmove : Move ⟨frames, .choose, st⟩ _ _ := .enter hcolumn
      refine ⟨none, _, _, .single hmove, hmove.stepsLeft_lt hg ho nofun, rfl, nofun,
        fun L observed => ?_⟩
      dsimp only [Outline.search, step, choose]
      rw [hbest, hcolumn]
      rfl
    | none =>
      have hmove : Move ⟨frames, .choose, st⟩ _ _ := .find hcolumn
      refine ⟨some _, _, _, .single hmove, hmove.stepsLeft_lt hg ho nofun, rfl,
        fun rows hrows => ?_, fun L observed => ?_⟩
      · cases hrows
        rfl
      · dsimp only [Outline.search, step, choose]
        rw [hbest, hcolumn]
        rfl
  | advance =>
    match frames with
    | [] =>
      have hmove : Move (⟨[], .advance, st⟩ : Outline g) _ _ := .finish
      exact ⟨none, _, _, .single hmove, hmove.stepsLeft_lt hg ho nofun, rfl, nofun,
        fun L observed => rfl⟩
    | ⟨column, none, tried⟩ :: outer =>
      obtain ⟨notes, o', hmove, hsolutions, hproceed⟩ := proceed_spec hg ho.path st
      refine ⟨none, notes, o', .single hmove, ?_, hsolutions, nofun, fun L observed => ?_⟩
      · refine hmove.stepsLeft_lt hg ho fun _ frame hframe => ?_
        cases hframe
        rfl
      · dsimp only [Outline.search, step, advance]
        rw [((ho.path.shows hg).rows column).first_eq]
        exact congrArg (Prod.mk none) (hproceed L _ observed)
    | ⟨column, some row, tried⟩ :: outer =>
      -- The deselected row is withdrawn by now, but its links still lead to the next row.
      have hdrop : Move ⟨⟨column, some row, tried⟩ :: outer, .advance, st⟩ _ _ := .drop
      have hdropped := hdrop.valid ho
      obtain ⟨notes, o', hmove, hsolutions, hproceed⟩ := proceed_spec hg hdropped.path st
      refine ⟨none, _, o', (Moves.single hdrop).trans (.single hmove), ?_, ?_, nofun,
        fun L observed => ?_⟩
      · rw [← stepsLeft_drop]
        refine hmove.stepsLeft_lt hg hdropped fun _ frame hframe => ?_
        cases hframe
        rfl
      · rw [Note.solutions_append, hsolutions, Note.solutions_map_event]
        simp
      · dsimp only [step, advance]
        change (none, ((Outline.search _ observed).deselect L row).proceed L
          ⟨column, none, row :: tried⟩ outer
          ((((Outline.search _ observed).deselect L row).links.rows column).after row)) = _
        rw [deselect_current_eq hg ho.path, after_deselected hg ho.path, hproceed,
          Listener.hearAll_append]

theorem step_of_exhausted {o : Outline g} (ho : o.phase = .exhausted)
    (L : Listener (Fin g.columns) (Fin g.rows) σ) (observed : σ) :
    (o.search observed).step L = (none, o.search observed) := by
  have hphase : (o.search observed).phase = .exhausted := ho
  rw [step, hphase]

/-- Steps until a solution is found or the search is over, if the limit is large enough. -/
theorem nextWithin_spec (hg : g.WellFormed) {o : Outline g} (ho : o.Valid) {limit : Nat}
    (hlimit : o.stepsLeft < limit) :
    ∃ found notes o', Moves o notes o' ∧ Note.solutions notes = found.toList ∧
      (∀ rows ∈ found, (Note.events notes).getLast? = some (.solution rows)) ∧
      (found = none → o'.phase = .exhausted) ∧
      ∀ {σ : Type} (L : Listener (Fin g.columns) (Fin g.rows) σ) (observed : σ),
        (o.search observed).nextWithin L limit = (found, o'.search (L.hearAll notes observed)) := by
  induction limit generalizing o with
  | zero => omega
  | succ limit ih =>
    by_cases hphase : o.phase = .exhausted
    · refine ⟨none, [], o, .refl o, rfl, nofun, fun _ => hphase, fun L observed => ?_⟩
      have hexhausted : (o.search observed).isExhausted = true := by
        simp [isExhausted, Outline.search, hphase]
      rw [nextWithin, if_pos hexhausted]
      rfl
    · obtain ⟨found, notes, o', hmoves, hless, hsolutions, hlast, hstep⟩ := step_spec hg ho hphase
      have hrunning {σ : Type} (observed : σ) : (o.search observed).isExhausted = false := by
        simpa [isExhausted, Outline.search] using hphase
      cases found with
      | some rows =>
        refine ⟨some rows, notes, o', hmoves, hsolutions, hlast, nofun, fun L observed => ?_⟩
        simp only [nextWithin, hrunning, hstep, Bool.false_eq_true, if_false]
      | none =>
        obtain ⟨found, notes', o'', hmoves', hsolutions', hlast', hend, hnext⟩ :=
          ih (hmoves.valid ho) (by omega)
        refine ⟨found, notes ++ notes', o'', hmoves.trans hmoves', ?_, fun rows hrows => ?_, hend,
          fun L observed => ?_⟩
        · rw [Note.solutions_append, hsolutions, hsolutions']
          rfl
        · rw [Note.events_append, List.getLast?_append, hlast' rows hrows]
          rfl
        · simp only [nextWithin, hrunning, hstep, Bool.false_eq_true, if_false, hnext,
            Listener.hearAll_append]

end Search

end ExactCover
