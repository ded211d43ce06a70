import ExactCover.Proofs.Solver

namespace ExactCover

variable {g : Grid} {σ : Type}

namespace Grid

/-- Every row gives one to each of its columns. -/
def UnitAmounts (g : Grid) : Prop := ∀ row, ∀ entry ∈ g.cover row, entry.2.toNat = 1

theorem given_le_one {n : Nat} {entries : List (Fin n × Amount)}
    (h : ∀ entry ∈ entries, entry.2.toNat = 1) (column : Fin n) : given entries column ≤ 1 := by
  induction entries with
  | nil => exact Nat.zero_le 1
  | cons entry entries ih =>
    rw [given_cons]
    split
    · exact (h entry List.mem_cons_self).le
    · exact ih fun e he => h e (List.mem_cons_of_mem _ he)

end Grid

namespace Search

variable (L : Listener (Fin g.columns) (Fin g.rows) σ)

/-- The selection of the given row of a level, if there is one, with the search as it is then. -/
def trying (frame : Frame g) (outer : List (Frame g)) (row : Option (Fin g.rows))
    (s : Search g σ) : Option (Fin g.rows × Search g σ) :=
  row.map fun row => (row, { s with frames := { frame with current := some row } :: outer })

/-- The row that the next step selects, with the search right before the selection. A step that
    enters or leaves a level selects none. -/
def selecting (s : Search g σ) : Option (Fin g.rows × Search g σ) :=
  match s.phase, s.frames with
  | .advance, frame :: outer =>
    match frame.current with
    | none => s.trying frame outer (s.links.rows frame.column).first
    | some row =>
      let s := s.deselect L row
      s.trying { frame with tried := row :: frame.tried } outer
        ((s.links.rows frame.column).after row)
  | _, _ => none

/-- Goes on after the selection of a row by whether the row fits. -/
def judge (row : Fin g.rows) (s : Search g σ) : Search g σ :=
  if s.fits row then { s with phase := .choose }
  else
    { s with statistics.overshoots := s.statistics.overshoots + 1 }.remark L (.overshoot s.depth)

/-- The selection of a row in which only some of its columns have been charged so far. -/
def charged (row : Fin g.rows) (entries : List (Fin g.columns × Amount)) (s : Search g σ) :
    Search g σ :=
  let s := { s with
    selected := row :: s.selected
    statistics := s.statistics.addSelection (s.depth + 1) }
  entries.foldl (fun s entry => s.charge L entry) ((s.notify L (.select row)).withdraw L row)

/-- The searches that the next step passes through between the changes it makes to what the columns
    have to receive. -/
inductive Passes (s : Search g σ) : Search g σ → Prop where
  /-- The search before the step. -/
  | start : Passes s s
  /-- The row selected at the deepest level is taken off; some of its columns are refunded. -/
  | refund {frame : Frame g} {outer : List (Frame g)} {row : Fin g.rows}
      {entries : List (Fin g.columns × Amount)} (hphase : s.phase = .advance)
      (hframes : s.frames = frame :: outer) (hcurrent : frame.current = some row)
      (hentries : entries <+: (g.cover row).reverse) :
      Passes s (entries.foldl (fun s entry => s.refund L entry) s)
  /-- The next row is selected; some of its columns are charged. -/
  | charge {row : Fin g.rows} {u : Search g σ} {entries : List (Fin g.columns × Amount)}
      (hselecting : s.selecting L = some (row, u)) (hentries : entries <+: g.cover row) :
      Passes s (u.charged L row entries)

variable {L} {s u : Search g σ} {frame : Frame g} {outer : List (Frame g)} {row : Fin g.rows}

theorem proceed_of_trying {next : Option (Fin g.rows)}
    (h : s.trying frame outer next = some (row, u)) :
    s.proceed L frame outer next = (u.select L row).judge L row := by
  cases next with
  | none => cases h
  | some next =>
    cases h
    rfl

/-- A step that selects a row does nothing else but deselect the one before it. -/
theorem step_of_selecting (h : s.selecting L = some (row, u)) :
    s.step L = (none, (u.select L row).judge L row) := by
  unfold selecting at h
  split at h
  · rename_i frame outer hphase hframes
    rw [step, hphase]
    dsimp only [advance]
    rw [hframes]
    dsimp only
    cases hcurrent : frame.current with
    | none =>
      rw [hcurrent] at h
      exact congrArg (Prod.mk none) (proceed_of_trying h)
    | some last =>
      rw [hcurrent] at h
      exact congrArg (Prod.mk none) (proceed_of_trying h)
  · cases h

theorem selections_of_trying {next : Option (Fin g.rows)} (h : s.trying frame outer next = none) :
    (s.proceed L frame outer next).statistics.selections = s.statistics.selections := by
  cases next with
  | some next => cases h
  | none =>
    obtain ⟨events, hleft⟩ := s.exists_moved_leave (L := L) frame outer
    rw [proceed, hleft]
    rfl

/-- There are no other selections. -/
theorem selections_of_selecting (h : s.selecting L = none) :
    (s.step L).2.statistics.selections = s.statistics.selections := by
  rw [step]
  cases hphase : s.phase with
  | exhausted => rfl
  | choose =>
    dsimp only [choose]
    split <;> rfl
  | advance =>
    dsimp only [advance]
    split
    · rfl
    · rename_i frame outer hframes
      rw [selecting, hphase, hframes] at h
      dsimp only at h
      split
      · rename_i hcurrent
        rw [hcurrent] at h
        exact selections_of_trying h
      · rename_i last hcurrent
        rw [hcurrent] at h
        obtain ⟨events, hdeselected⟩ := s.exists_moved_deselect (L := L) last
        refine (selections_of_trying h).trans ?_
        rw [hdeselected]
        rfl

/-- What the selection of a row meets: it is the one selection of the step, every column of the row
    still has something to receive, and the row overshoots just if one of its amounts is larger than
    that. -/
structure Selects (L : Listener (Fin g.columns) (Fin g.rows) σ) (s : Search g σ)
    (row : Fin g.rows) (u : Search g σ) : Prop where
  step_eq : s.step L = (none, (u.select L row).judge L row)
  due_pos : ∀ column ∈ g.columnsOf row, 0 < u.links.due column
  fits_eq_false_iff : (u.select L row).fits row = false ↔
    ∃ entry ∈ g.cover row, u.links.due entry.1 < entry.2.toNat

/-- Under unit amounts a row that is selected fits: the one it takes from each column is there. -/
theorem Selects.fits_of_unitAmounts {L : Listener (Fin g.columns) (Fin g.rows) σ}
    (h : s.Selects L row u) (hunit : g.UnitAmounts) : (u.select L row).fits row = true := by
  rw [← Bool.not_eq_false, h.fits_eq_false_iff]
  rintro ⟨entry, hentry, hover⟩
  have hdue := h.due_pos entry.1 (List.mem_map_of_mem hentry)
  rw [hunit row entry hentry] at hover
  omega

end Search

section Path

variable {outer : List (Frame g)} {column : Fin g.columns} {tried : List (Fin g.rows)}
  {row : Fin g.rows} {entries : List (Fin g.columns × Amount)}

/-- A search at a place of the search tree selects the first of the rows that are left for the
    deepest level. -/
theorem Search.selecting_spec (hg : g.WellFormed) {L : Listener (Fin g.columns) (Fin g.rows) σ}
    {o : Outline g} (ho : o.Valid) {observed : σ} {u : Search g σ}
    (h : (o.search observed).selecting L = some (row, u)) :
    ∃ outer column tried, Path (⟨column, some row, tried⟩ :: outer) ∧
      u.links = linksAt (⟨column, none, tried⟩ :: outer) := by
  obtain ⟨frames, phase, st⟩ := o
  have hpath : Path frames := ho.path
  have htrying {outer : List (Frame g)} {column : Fin g.columns} {tried : List (Fin g.rows)}
      {s : Search g σ} (hpath : Path (⟨column, none, tried⟩ :: outer))
      (hlinks : s.links = linksAt (⟨column, none, tried⟩ :: outer))
      (h : s.trying ⟨column, none, tried⟩ outer
        ((stageAt (⟨column, none, tried⟩ :: outer)).rows column).head? = some (row, u)) :
      Path (⟨column, some row, tried⟩ :: outer) ∧
        u.links = linksAt (⟨column, none, tried⟩ :: outer) := by
    cases hrows : (stageAt (⟨column, none, tried⟩ :: outer)).rows column with
    | nil =>
      rw [hrows] at h
      cases h
    | cons next rest =>
      rw [hrows] at h
      cases h
      exact ⟨hpath.pick hrows, hlinks⟩
  cases phase with
  | choose => cases h
  | exhausted => cases h
  | advance =>
    match frames with
    | [] => cases h
    | ⟨column, none, tried⟩ :: outer =>
      dsimp only [Outline.search, selecting] at h
      rw [((hpath.shows hg).rows column).first_eq] at h
      exact ⟨outer, column, tried, htrying hpath rfl h⟩
    | ⟨column, some last, tried⟩ :: outer =>
      obtain ⟨hinner, rest, hrows⟩ := hpath.of_pick
      change ((Outline.search _ observed).deselect L last).trying
        ⟨column, none, last :: tried⟩ outer
        ((((Outline.search _ observed).deselect L last).links.rows column).after last) = _ at h
      rw [deselect_current_eq hg hpath, after_deselected hg hpath] at h
      exact ⟨outer, column, last :: tried, htrying (hinner.pass hrows) rfl h⟩

/-- The columns of a row that is selected next still have something to receive. -/
theorem Path.due_pos_of_pick (hg : g.WellFormed) (h : Path (⟨column, some row, tried⟩ :: outer))
    {c : Fin g.columns} (hc : c ∈ g.columnsOf row) :
    0 < (stageAt (⟨column, none, tried⟩ :: outer)).due c := by
  obtain ⟨hpath, rest, hrows⟩ := h.of_pick
  have hopen := (hpath.available_next hg hrows).2 c hc
  have hdue := (hpath.settled hg c).not.mp hopen
  omega

/-- What the columns have to receive after some of the charges of a selection. -/
theorem Path.due_charged (hg : g.WellFormed) (h : Path (⟨column, some row, tried⟩ :: outer))
    (hentries : entries <+: g.cover row) (c : Fin g.columns) :
    (entries.foldl Links.charge ((linksAt (⟨column, none, tried⟩ :: outer)).withdraw row)).due c =
      (stageAt (⟨column, none, tried⟩ :: outer)).due c - Grid.given entries c := by
  obtain ⟨hpath, -⟩ := h.of_pick
  have hnodup : (entries.map (·.1)).Nodup :=
    (hg.columns_nodup row).sublist (hentries.sublist.map _)
  rw [Links.due_chargeAll _ hnodup, Links.due_withdraw, (hpath.shows hg).due]

/-- A row that a step selects is one that a selection is about. -/
theorem Search.selects_of_selecting (hg : g.WellFormed)
    {L : Listener (Fin g.columns) (Fin g.rows) σ} {o : Outline g} (ho : o.Valid) {observed : σ}
    {u : Search g σ} (h : (o.search observed).selecting L = some (row, u)) :
    (o.search observed).Selects L row u := by
  obtain ⟨outer, column, tried, hpath, hlinks⟩ := selecting_spec hg ho h
  obtain ⟨hinner, rest, hrows⟩ := hpath.of_pick
  have hshows := hinner.shows hg
  rw [← hlinks] at hshows
  refine ⟨step_of_selecting h, fun c hc => ?_, ?_⟩
  · rw [hshows.due]
    exact hpath.due_pos_of_pick hg hc
  · rw [fits_select hg, List.all_eq_false]
    refine exists_congr fun e => and_congr_right fun _ => ?_
    rw [decide_eq_true_iff]
    omega

/-- An amount of one never takes a column past its target, since the column is still open. -/
theorem Path.due_charged_nonneg (hg : g.WellFormed) (hunit : g.UnitAmounts)
    (h : Path (⟨column, some row, tried⟩ :: outer)) (hentries : entries <+: g.cover row)
    (c : Fin g.columns) :
    0 ≤ (entries.foldl Links.charge
      ((linksAt (⟨column, none, tried⟩ :: outer)).withdraw row)).due c := by
  rw [h.due_charged hg hentries]
  by_cases hc : c ∈ g.columnsOf row
  · have hpos := h.due_pos_of_pick hg hc
    have hle := Grid.given_le_one (fun e he => hunit row e (hentries.subset he)) c
    omega
  · have hfits := h.of_cons.2.2.1 c
    have hnone : c ∉ entries.map (·.1) := fun hmem => hc ((hentries.sublist.map _).subset hmem)
    rw [Grid.given_eq_zero hnone, (stageAt_none outer column tried).1]
    omega

/-- Refunding some of the columns of a row leads back to the lists after the charges of the
    others. -/
theorem Path.links_refundAll (hg : g.WellFormed)
    (h : Path (⟨column, some row, tried⟩ :: outer))
    {L : Listener (Fin g.columns) (Fin g.rows) σ} {s : Search g σ}
    (hs : s.links = linksAt (⟨column, some row, tried⟩ :: outer))
    (hentries : entries <+: (g.cover row).reverse) :
    ∃ kept, kept <+: g.cover row ∧ (entries.foldl (fun s entry => s.refund L entry) s).links =
      kept.foldl Links.charge ((linksAt (⟨column, none, tried⟩ :: outer)).withdraw row) := by
  obtain ⟨others, hsplit⟩ := hentries
  obtain ⟨hpath, rest, hrows⟩ := h.of_pick
  have hnext := hpath.available_next hg hrows
  have hcover : g.cover row = others.reverse ++ entries.reverse := by
    rw [← List.reverse_append, hsplit, List.reverse_reverse]
  have hnodup := hg.columns_nodup row
  have hopen := hnext.open_withdraw
  rw [Grid.columnsOf, hcover, List.map_append] at hnodup
  rw [hcover] at hopen
  obtain ⟨hkept, hrefunded, hdisjoint⟩ := List.nodup_append.mp hnodup
  have hkeptOpen e (he : e ∈ others.reverse) := hopen e (List.mem_append_left _ he)
  have hshows := ((hpath.shows hg).withdraw hg hnext).1
  have hsettled :
      ((stageAt (⟨column, none, tried⟩ :: outer)).withdraw row).Settled := hpath.settled hg
  have hback := Search.refundAll_eq (L := L) (s := s) hg
    (hshows.chargeAll hg hsettled hkept hkeptOpen)
    (Stage.chargeAll_spec hg hsettled hkept hkeptOpen).2 hrefunded ?_ ?_
  · refine ⟨others.reverse, ⟨entries.reverse, hcover.symm⟩, ?_⟩
    rw [List.reverse_reverse] at hback
    rw [hback, Search.links_moved]
  · intro e he hexhausted
    rw [Stage.exhausted_chargeAll _ hkept, List.mem_append] at hexhausted
    obtain hold | hnew := hexhausted
    · exact hopen e (List.mem_append_right _ he) hold
    · have hmem := (List.filter_sublist.map _).subset hnew
      exact hdisjoint e.1 hmem e.1 (List.mem_map_of_mem he) rfl
  · rw [hs, linksAt_pick, Links.select, hcover, List.foldl_append]

/-- Under unit amounts no row overshoots. -/
theorem Path.fitting_of_unitAmounts (hg : g.WellFormed) (hunit : g.UnitAmounts)
    {frames : List (Frame g)} (h : Path frames) : Fitting frames := by
  induction h with
  | root => exact fun c => by simp [stageAt, Stage.initial]
  | enter _ _ hfits _ _ => exact hfits
  | pass _ _ ih => exact ih
  | pick hpath hrows _ =>
    intro c
    have hpick := hpath.pick hrows
    have hdue := hpick.due_charged_nonneg hg hunit List.prefix_rfl c
    exact hdue.trans_eq ((hpick.shows hg).due c)

/-- What the columns have to receive never becomes negative under unit amounts, not even in the
    middle of a step. -/
theorem Search.due_nonneg_of_passes (hg : g.WellFormed) (hunit : g.UnitAmounts)
    {L : Listener (Fin g.columns) (Fin g.rows) σ} {o : Outline g} (ho : o.Valid) {observed : σ}
    {u : Search g σ} (h : (o.search observed).Passes L u) (c : Fin g.columns) :
    0 ≤ u.links.due c := by
  cases h with
  | start =>
    have hfits := ho.path.fitting_of_unitAmounts hg hunit c
    exact hfits.trans_eq ((ho.path.shows hg).due c).symm
  | @refund frame outer row entries hphase hframes hcurrent hentries =>
    obtain ⟨column, current, tried⟩ := frame
    obtain rfl : current = some row := hcurrent
    have hframes : o.frames = ⟨column, some row, tried⟩ :: outer := hframes
    have hpath := ho.path
    rw [hframes] at hpath
    obtain ⟨kept, hkept, hlinks⟩ := hpath.links_refundAll (L := L)
      (s := o.search observed) hg (congrArg linksAt hframes) hentries
    rw [hlinks]
    exact hpath.due_charged_nonneg hg hunit hkept c
  | @charge row u entries hselecting hentries =>
    obtain ⟨outer, column, tried, hpath, hlinks⟩ := selecting_spec hg ho hselecting
    have hdue := hpath.due_charged_nonneg hg hunit hentries c
    obtain ⟨events, hcharged⟩ := exists_moved_chargeAll (L := L) _ entries
    rw [charged, withdraw_eq, hcharged, links_moved, links_moved]
    rw [← hlinks] at hdue
    exact hdue

end Path

/-- Under unit amounts no selection is given up. -/
theorem Moves.overshoots_eq_zero (hg : g.WellFormed) (hunit : g.UnitAmounts) {o : Outline g}
    {notes : List (Note (Fin g.columns) (Fin g.rows))} (h : Moves (.start g) notes o) :
    o.statistics.overshoots = 0 := by
  generalize hstart : Outline.start g = o₀ at h
  induction h with
  | refl =>
    subst hstart
    rfl
  | tail hmoves hlast ih =>
    subst hstart
    cases hlast with
    | overshoot hrows hfits =>
      have hpath := (hmoves.valid (Outline.valid_start g)).path.pick hrows
      exact absurd (hpath.fitting_of_unitAmounts hg hunit) hfits
    | _ => exact ih

namespace Problem

variable {C R : Type} [Ord C]

/-- Every amount that a row gives to a column is one. -/
def UnitAmounts (p : Problem C R) : Prop :=
  ∀ row ∈ p.rows.entries, ∀ entry ∈ row.2.entries, entry.2 = 1

instance : DecidablePred (UnitAmounts : Problem C R → Prop) := fun p =>
  inferInstanceAs (Decidable (∀ row ∈ p.rows.entries, ∀ entry ∈ row.2.entries, entry.2 = 1))

variable [Ord R] [Std.TransOrd C] [Std.LawfulEqOrd C] {p : Problem C R}

theorem WellFormed.unitAmounts_grid (hp : p.WellFormed) (h : p.UnitAmounts) :
    p.grid.UnitAmounts := by
  intro row entry hentry
  have hlabels : (p.columnAt entry.1, entry.2) ∈ (p.rows.entry row).2.entries := by
    rw [← hp.cover_labels row]
    exact List.mem_map_of_mem hentry
  rw [h _ (List.get_mem _ row) _ hlabels]
  rfl

variable [Std.TransOrd R] [Std.LawfulEqOrd R]

/-- Wherever a run of a solver stands, a row that is selected next has only columns that still have
    something to receive, and it overshoots just if one of its amounts is larger than that. Under
    unit amounts every selected row fits, no selection is counted as an overshoot, and what a column
    has to receive is never negative, in the middle of a step neither. Nothing checks that the
    columns of a row are open when it is selected: a row linked in an open column is linked in all
    its columns. -/
theorem Reachable.selection_outcome (hp : p.Reachable) {L : Listener C R σ} {state : σ}
    {found : List (List R)} {t : Solver C R σ} (h : (p.solve L state).Reaches found t) :
    t.problem = p ∧
    (∀ row u, t.search.selecting t.gridListener = some (row, u) →
      t.search.Selects t.gridListener row u) ∧
    (t.search.selecting t.gridListener = none →
      t.step.2.statistics.selections = t.statistics.selections) ∧
    (p.UnitAmounts →
      (∀ row u, t.search.selecting t.gridListener = some (row, u) →
        (u.select t.gridListener row).fits row = true) ∧
      t.statistics.overshoots = 0 ∧
      ∀ u, t.search.Passes t.gridListener u → ∀ column, 0 ≤ u.links.due column) := by
  have hg := hp.wellFormed.grid
  obtain ⟨notes, o, hmoves, -, rfl⟩ := outline_of_reaches hg h
  have ho := hmoves.valid (Outline.valid_start _)
  refine ⟨rfl, fun row u => Search.selects_of_selecting hg ho, Search.selections_of_selecting,
    fun hlabels => ?_⟩
  have hunit := hp.wellFormed.unitAmounts_grid hlabels
  refine ⟨fun row u hselecting => ?_, hmoves.overshoots_eq_zero hg hunit, fun u hpasses =>
    Search.due_nonneg_of_passes hg hunit ho hpasses⟩
  exact (Search.selects_of_selecting hg ho hselecting).fits_of_unitAmounts hunit

/-- A row with an amount that its column has no room for is selected after one that fills the
    column; it is the amount that makes it overshoot. With a second column and a target of two
    instead, the amounts are one and nothing overshoots. -/
theorem Reachable.selection_outcome_of_amounts :
    (∃ p : Problem Nat Nat, ∃ t, (p.solve Listener.logging #[]).Reaches [[7]] t ∧
      ∃ row u, t.search.selecting t.gridListener = some (row, u) ∧
        (u.select t.gridListener row).fits row = false) ∧
    ∃ p : Problem Nat Nat, ∃ t, (p.solve Listener.logging #[]).Reaches [[7, 8]] t ∧
      p.UnitAmounts ∧ t.statistics.selections = 2 ∧ t.statistics.overshoots = 0 := by
  constructor
  · obtain ⟨p, hp, hfound, hover⟩ : ∃ p : Problem Nat Nat, p.Reachable ∧
        (p.solve Listener.logging #[]).next.1 = some [7] ∧
        ((p.solve Listener.logging #[]).next.2.search.selecting
          (p.solve Listener.logging #[]).next.2.gridListener).any (fun (row, u) =>
            (Grid.cover _ row).any fun entry => u.links.due entry.1 < entry.2.toNat) = true :=
      ⟨_, .attempt (.addRow 8 [(1, 3)]) (.attempt (.addUnitRow 7 [1])
        (.ofColumns (rfl : Problem.ofColumns [1] = .ok _))), by decide +kernel, by decide +kernel⟩
    have hreaches := (Solver.Reaches.refl (s := p.solve Listener.logging #[])).next
    rw [hfound] at hreaches
    obtain ⟨⟨row, u⟩, hselecting, hany⟩ := (Option.any_eq_true _ _).mp hover
    have hselects := (hp.selection_outcome hreaches).2.1 row u hselecting
    refine ⟨p, _, hreaches, row, u, hselecting, hselects.fits_eq_false_iff.mpr ?_⟩
    simpa using hany
  · obtain ⟨p, hp, hunit, hfound, hselections⟩ : ∃ p : Problem Nat Nat, p.Reachable ∧
        p.UnitAmounts ∧ (p.solve Listener.logging #[]).next.1 = some [7, 8] ∧
        (p.solve Listener.logging #[]).next.2.statistics.selections = 2 :=
      ⟨_, .attempt (.addUnitRow 8 [1]) (.attempt (.addUnitRow 7 [1, 2]) (.attempt (.setTarget 1 2)
        (.ofColumns (rfl : Problem.ofColumns [1, 2] = .ok _)))), by decide +kernel,
        by decide +kernel, by decide +kernel⟩
    have hreaches := (Solver.Reaches.refl (s := p.solve Listener.logging #[])).next
    rw [hfound] at hreaches
    obtain ⟨-, -, -, hfits⟩ := hp.selection_outcome hreaches
    exact ⟨p, _, hreaches, hunit, hselections, (hfits hunit).2.1⟩

end Problem

end ExactCover
