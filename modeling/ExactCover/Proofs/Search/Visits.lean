import ExactCover.Proofs.Search.Completeness
import Mathlib.Data.Fintype.Powerset

namespace ExactCover

/-- Keeps the partial solution and, for every selection so far, the partial solution right after it,
    the latest first in both. -/
def Observer.visiting {C R : Type} : Observer C R (List R × List (List R)) where
  rowSelect row selecting state :=
    if selecting then (row :: state.1, (row :: state.1) :: state.2) else (state.1.tail, state.2)

section Events

variable {C R : Type} (state : List R × List (List R))

theorem Observer.visiting_removals (cells : List (C × R)) :
    visiting.handleAll (Event.removals cells) state = state := by
  induction cells with
  | nil => rfl
  | cons cell cells ih => exact ih

theorem Observer.visiting_restorals (cells : List (C × R)) :
    visiting.handleAll (Event.restorals cells) state = state := by
  induction cells with
  | nil => rfl
  | cons cell cells ih => exact ih

theorem Observer.visiting_flatMap_restorals {α : Type} (cells : α → List (C × R)) (xs : List α) :
    visiting.handleAll (xs.flatMap fun x => Event.restorals (cells x)) state = state := by
  induction xs with
  | nil => rfl
  | cons x xs ih => rw [List.flatMap_cons, handleAll_append, visiting_restorals, ih]

/-- The same events under other labels lead through the same partial solutions. -/
theorem Observer.visiting_map {C' R' : Type} (f : C → C') (g : R → R')
    (events : List (Event C R)) :
    visiting.handleAll (events.map (Event.map f g)) (state.1.map g, state.2.map (List.map g)) =
      ((visiting.handleAll events state).1.map g,
        (visiting.handleAll events state).2.map (List.map g)) := by
  induction events generalizing state with
  | nil => rfl
  | cons e events ih =>
    have hstep : visiting.handle (e.map f g) (state.1.map g, state.2.map (List.map g)) =
        ((visiting.handle e state).1.map g, (visiting.handle e state).2.map (List.map g)) := by
      cases e with
      | deselect row => simp [Event.map, handle, visiting]
      | _ => rfl
    change visiting.handleAll (events.map (Event.map f g)) (visiting.handle (e.map f g) _) = _
    rw [hstep, ih]
    rfl

end Events

variable {g : Grid}

/-- Whether the row selected last, the first in the list, takes a column past its target. -/
def Grid.Overshoots (g : Grid) (rows : List (Fin g.rows)) : Prop :=
  ∃ column, g.received rows.tail column ≤ g.target column ∧
    g.target column < g.received rows column

instance : DecidablePred g.Overshoots := fun rows =>
  inferInstanceAs (Decidable (∃ column, g.received rows.tail column ≤ g.target column ∧
    g.target column < g.received rows column))

/-- Whether a set of rows can still be selected below some levels: it can be found there, and not
    all of its rows are selected yet. -/
def Beyond (rows : List (Fin g.rows)) (frames : List (Frame g)) : Prop :=
  Open rows frames ∧ ∃ row ∈ rows, row ∉ selectedAt frames

instance (rows : List (Fin g.rows)) : DecidablePred (Beyond rows) := fun frames =>
  inferInstanceAs (Decidable (Open rows frames ∧ ∃ row ∈ rows, row ∉ selectedAt frames))

/-- One way to select a set of rows below some levels, if it can still be selected there. -/
def ahead (rows : List (Fin g.rows)) (frames : List (Frame g)) : Nat :=
  if Beyond rows frames then 1 else 0

/-- The number of levels at which a set of rows can still be selected, below a row that is still to
    be selected there. -/
def visitsBelow (rows : List (Fin g.rows)) : List (Frame g) → Nat
  | [] => 0
  | frame :: outer => ahead rows (frame.dropped :: outer) + visitsBelow rows outer

/-- The number of ways in which a set of rows can still be selected. There is one at most: by the
    levels that select its rows while none of them was tried. Once the set was selected, one of its
    rows stays tried as long as the others are selected. -/
def Outline.visitsLeft (o : Outline g) (rows : List (Fin g.rows)) : Nat :=
  (if o.phase = .choose then ahead rows o.frames else 0) + visitsBelow rows o.frames

variable {outer frames : List (Frame g)} {column : Fin g.columns} {tried : List (Fin g.rows)}
  {row : Fin g.rows} {rows : List (Fin g.rows)}

/-- A row overshoots just if the level with it does not fit. -/
theorem Path.overshoots_iff (hg : g.WellFormed) (h : Path (⟨column, none, tried⟩ :: outer)) :
    g.Overshoots (row :: selectedAt outer) ↔ ¬ Fitting (⟨column, some row, tried⟩ :: outer) := by
  have hbefore := h.of_cons.2.2.1
  simp only [Fitting, due_stageAt hg, selectedAt_pick] at hbefore ⊢
  rw [not_forall]
  refine exists_congr fun c => ?_
  have hle := hbefore c
  rw [List.tail_cons]
  omega

theorem ahead_enter : ahead rows (⟨column, none, []⟩ :: frames) = ahead rows frames := by
  have hbeyond : Beyond rows (⟨column, none, []⟩ :: frames) ↔ Beyond rows frames := by
    simp [Beyond, open_none]
  by_cases h : Beyond rows frames <;> simp [ahead, hbeyond, h]

/-- Selecting a row visits the set of rows that is selected then. Otherwise the set is still ahead
    below the row if it contains the row, and after the row if not. -/
theorem Path.visit_le (hg : g.WellFormed) (h : Path (⟨column, some row, tried⟩ :: outer))
    (rows : List (Fin g.rows)) :
    (if (row :: selectedAt outer).toFinset = rows.toFinset then 1 else 0) +
      (ahead rows (⟨column, some row, tried⟩ :: outer) +
        ahead rows (⟨column, none, row :: tried⟩ :: outer)) ≤
      ahead rows (⟨column, none, tried⟩ :: outer) := by
  have hfresh : row ∉ selectedAt outer := (List.nodup_cons.mp (h.selected_nodup hg)).1
  have hopen : Open rows (⟨column, some row, tried⟩ :: outer) →
      row ∈ rows ∧ Beyond rows (⟨column, none, tried⟩ :: outer) := by
    intro hopen
    obtain ⟨hrow, hrest⟩ := open_some.mp hopen
    exact ⟨hrow, open_none.mpr hrest, row, hrow, hfresh⟩
  have hvisit : (row :: selectedAt outer).toFinset = rows.toFinset →
      Open rows (⟨column, some row, tried⟩ :: outer) ∧
        ¬ Beyond rows (⟨column, some row, tried⟩ :: outer) := by
    intro heq
    have hmem (r : Fin g.rows) :
        r ∈ selectedAt (⟨column, some row, tried⟩ :: outer) ↔ r ∈ rows := by
      rw [selectedAt_pick, ← List.mem_toFinset, heq, List.mem_toFinset]
    refine ⟨⟨fun r => (hmem r).mp, fun frame hframe r htried hr => ?_⟩, ?_⟩
    · exact h.not_selected_of_tried hg hframe htried ((hmem r).mpr hr)
    · rintro ⟨-, r, hr, hother⟩
      exact hother ((hmem r).mpr hr)
  have hpass : Beyond rows (⟨column, none, row :: tried⟩ :: outer) →
      row ∉ rows ∧ Beyond rows (⟨column, none, tried⟩ :: outer) := by
    rintro ⟨hopen, hmore⟩
    obtain ⟨houter, htried⟩ := open_none.mp hopen
    refine ⟨htried row List.mem_cons_self, open_none.mpr ⟨houter, fun r hr => ?_⟩, hmore⟩
    exact htried r (List.mem_cons_of_mem _ hr)
  have hpick : Beyond rows (⟨column, some row, tried⟩ :: outer) →
      Open rows (⟨column, some row, tried⟩ :: outer) := And.left
  simp only [ahead]
  split_ifs <;> grind

theorem visitsLeft_choose (frames : List (Frame g)) (st : Statistics) (rows : List (Fin g.rows)) :
    (⟨frames, .choose, st⟩ : Outline g).visitsLeft rows =
      ahead rows frames + visitsBelow rows frames := rfl

theorem visitsLeft_advance (frames : List (Frame g)) (st : Statistics) (rows : List (Fin g.rows)) :
    (⟨frames, .advance, st⟩ : Outline g).visitsLeft rows = visitsBelow rows frames :=
  Nat.zero_add _

theorem visitsBelow_none : visitsBelow rows (⟨column, none, tried⟩ :: outer) =
    ahead rows (⟨column, none, tried⟩ :: outer) + visitsBelow rows outer := rfl

theorem visitsBelow_some : visitsBelow rows (⟨column, some row, tried⟩ :: outer) =
    ahead rows (⟨column, none, row :: tried⟩ :: outer) + visitsBelow rows outer := rfl

variable {o o' : Outline g} {notes : List (Note (Fin g.columns) (Fin g.rows))}

theorem visiting_selectionNotes (s : Stage g) (row : Fin g.rows) (selected : List (Fin g.rows))
    (before : List (List (Fin g.rows))) :
    Observer.visiting.handleAll (Note.events (selectionNotes s row)) (selected, before) =
      (row :: selected, (row :: selected) :: before) := by
  rw [selectionNotes, Note.events_map_event]
  exact Observer.visiting_removals _ _

/-- What a move adds to the partial solutions that were visited: one for each selection, and none
    that was visited before. -/
theorem Move.visits (hg : g.WellFormed) (h : Move o notes o') (ho : o.Valid) :
    ∃ visits : List (List (Fin g.rows)),
      (∀ before, Observer.visiting.handleAll (Note.events notes) (selectedAt o.frames, before) =
        (selectedAt o'.frames, visits ++ before)) ∧
      o'.statistics.selections = o.statistics.selections + visits.length ∧
      o'.statistics.overshoots = o.statistics.overshoots + visits.countP g.Overshoots ∧
      ∀ rows, visits.countP (fun other => other.toFinset = rows.toFinset) + o'.visitsLeft rows ≤
        o.visitsLeft rows := by
  cases h with
  | @enter frames column st hbest =>
    refine ⟨[], fun before => rfl, rfl, rfl, fun rows => ?_⟩
    rw [visitsLeft_choose, visitsLeft_advance, visitsBelow_none, ahead_enter, List.countP_nil]
    omega
  | @find frames st hbest =>
    refine ⟨[], fun before => rfl, rfl, rfl, fun rows => ?_⟩
    rw [visitsLeft_choose, visitsLeft_advance, List.countP_nil]
    omega
  | @pick outer column tried rest row st hrows hfits =>
    have hovershoots : ¬ g.Overshoots (row :: selectedAt outer) :=
      (ho.path.overshoots_iff hg).not.mpr (not_not.mpr hfits)
    refine ⟨[row :: selectedAt outer], visiting_selectionNotes _ _ _, rfl, ?_, fun rows => ?_⟩
    · simp [Statistics.addSelection, hovershoots]
    have hvisit := (ho.path.pick hrows).visit_le hg rows
    rw [visitsLeft_choose, visitsLeft_advance, visitsBelow_none, visitsBelow_some,
      List.countP_singleton]
    simp only [decide_eq_true_eq]
    omega
  | @overshoot outer column tried rest row st hrows hfits =>
    have hovershoots := (ho.path.overshoots_iff hg).mpr hfits
    refine ⟨[row :: selectedAt outer], fun before => ?_, rfl, ?_, fun rows => ?_⟩
    · rw [Note.events_append, Note.events_remark, Note.events_nil, List.append_nil]
      exact visiting_selectionNotes _ _ _ _
    · simp [hovershoots]
    · have hvisit := (ho.path.pick hrows).visit_le hg rows
      rw [visitsLeft_advance, visitsLeft_advance, visitsBelow_none, visitsBelow_some,
        List.countP_singleton]
      simp only [decide_eq_true_eq]
      omega
  | @drop outer column tried row st =>
    refine ⟨[], fun before => ?_, rfl, rfl, fun rows => ?_⟩
    · rw [Note.events_map_event, Observer.handleAll_append, Observer.visiting_restorals]
      rfl
    · rw [visitsLeft_advance, visitsLeft_advance, visitsBelow_none, visitsBelow_some,
        List.countP_nil]
      omega
  | @leave outer column tried st hrows =>
    refine ⟨[], fun before => ?_, rfl, rfl, fun rows => ?_⟩
    · rw [Note.events_map_event, Observer.visiting_flatMap_restorals]
      rfl
    · rw [visitsLeft_advance, visitsLeft_advance, visitsBelow_none, List.countP_nil]
      omega
  | finish =>
    exact ⟨[], fun before => rfl, rfl, rfl, fun rows => Nat.le_refl _⟩

/-- What moves visit, and how the counters tell of it. -/
theorem Moves.visits (hg : g.WellFormed) (h : Moves o notes o') (ho : o.Valid) :
    ∃ visits : List (List (Fin g.rows)),
      (∀ before, Observer.visiting.handleAll (Note.events notes) (selectedAt o.frames, before) =
        (selectedAt o'.frames, visits ++ before)) ∧
      o'.statistics.selections = o.statistics.selections + visits.length ∧
      o'.statistics.overshoots = o.statistics.overshoots + visits.countP g.Overshoots ∧
      ∀ rows, visits.countP (fun other => other.toFinset = rows.toFinset) + o'.visitsLeft rows ≤
        o.visitsLeft rows := by
  induction h with
  | refl => exact ⟨[], fun _ => rfl, rfl, rfl, fun _ => by simp⟩
  | @tail o₁ o₂ notes notes' hmoves hlast ih =>
    obtain ⟨visits, hvisits, hselections, hovershoots, hcount⟩ := ih
    obtain ⟨visits', hvisits', hselections', hovershoots', hcount'⟩ :=
      hlast.visits hg (hmoves.valid ho)
    refine ⟨visits' ++ visits, fun before => ?_, ?_, ?_, fun rows => ?_⟩
    · rw [Note.events_append, Observer.handleAll_append, hvisits, hvisits', List.append_assoc]
    · rw [hselections', hselections, List.length_append]
      omega
    · rw [hovershoots', hovershoots, List.countP_append]
      omega
    · have hfirst := hcount rows
      have hnext := hcount' rows
      rw [List.countP_append]
      omega

/-- No set of rows is visited twice, and the empty one is not visited. The visits that overshoot are
    counted. -/
theorem Moves.visits_nodup (hg : g.WellFormed) (h : Moves (.start g) notes o) :
    ∃ visits : List (List (Fin g.rows)),
      Observer.visiting.handleAll (Note.events notes) ([], []) = (selectedAt o.frames, visits) ∧
      o.statistics.selections = visits.length ∧
      o.statistics.overshoots = visits.countP g.Overshoots ∧
      (visits.map List.toFinset).Nodup ∧ ∅ ∉ visits.map List.toFinset := by
  obtain ⟨visits, hvisits, hselections, hovershoots, hcount⟩ := h.visits hg (Outline.valid_start g)
  have hset (set : Finset (Fin g.rows)) :
      (visits.map List.toFinset).count set ≤ ahead set.toList ([] : List (Frame g)) := by
    have hle := hcount set.toList
    rw [Finset.toList_toFinset, Outline.start, visitsLeft_choose, visitsBelow] at hle
    rw [List.count_eq_countP, List.countP_map]
    have hcongr : visits.countP ((· == set) ∘ List.toFinset) =
        visits.countP fun other => other.toFinset = set := List.countP_congr fun _ _ => by simp
    omega
  refine ⟨visits, ?_, ?_, ?_, List.nodup_iff_count_le_one.mpr fun set => ?_, ?_⟩
  · exact (hvisits []).trans (by rw [List.append_nil])
  · exact hselections.trans (Nat.zero_add _)
  · exact hovershoots.trans (Nat.zero_add _)
  · refine (hset set).trans ?_
    rw [ahead]
    split <;> omega
  · have hempty := hset ∅
    rw [ahead, if_neg (by simp [Beyond])] at hempty
    exact List.count_eq_zero.mp (Nat.le_zero.mp hempty)

/-- There are not more selections than nonempty sets of rows. -/
theorem length_le_of_visits {visits : List (List (Fin g.rows))}
    (hnodup : (visits.map List.toFinset).Nodup) (hempty : ∅ ∉ visits.map List.toFinset) :
    visits.length ≤ 2 ^ g.rows - 1 := by
  have hsub : (visits.map List.toFinset).toFinset ⊆ Finset.univ.erase ∅ := by
    intro set hset
    rw [List.mem_toFinset] at hset
    rw [Finset.mem_erase]
    exact ⟨fun heq => hempty (heq ▸ hset), Finset.mem_univ set⟩
  have hcard := Finset.card_le_card hsub
  rw [List.toFinset_card_of_nodup hnodup, List.length_map,
    Finset.card_erase_of_mem (Finset.mem_univ ∅), Finset.card_univ, Fintype.card_finset,
    Fintype.card_fin] at hcard
  exact hcard

end ExactCover
