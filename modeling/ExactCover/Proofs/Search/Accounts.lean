import ExactCover.Proofs.Search.Visits
import Mathlib.Order.Bounds.Basic

namespace ExactCover

namespace Event

/-- What an event tells, without the column and the rows it tells it of. -/
inductive Kind where
  | select
  | deselect
  | remove
  | restore
  | solution
deriving DecidableEq, Repr

section Tallies

variable {C R : Type}

/-- The kind of an event. -/
def kind : Event C R → Kind
  | select _ => .select
  | deselect _ => .deselect
  | remove _ _ => .remove
  | restore _ _ => .restore
  | solution _ => .solution

/-- The number of events of a kind. -/
def tally (k : Kind) (events : List (Event C R)) : Nat := events.countP fun e => e.kind = k

/-- The number of rows that are selected after some events. -/
def depth (events : List (Event C R)) : Nat := tally .select events - tally .deselect events

/-- Whether a number is the largest number of rows that were selected at the same time. -/
def IsPeak (events : List (Event C R)) (peak : Nat) : Prop :=
  IsGreatest {n | ∃ earlier, earlier <+: events ∧ depth earlier = n} peak

variable {k : Kind} {e : Event C R} {events more : List (Event C R)} {peak : Nat}

@[simp]
theorem tally_nil (k : Kind) : tally k ([] : List (Event C R)) = 0 := rfl

@[simp]
theorem tally_cons (k : Kind) (e : Event C R) (events : List (Event C R)) :
    tally k (e :: events) = tally k events + if e.kind = k then 1 else 0 := by
  simp [tally, List.countP_cons]

@[simp]
theorem tally_append (k : Kind) (events more : List (Event C R)) :
    tally k (events ++ more) = tally k events + tally k more := List.countP_append

@[simp]
theorem tally_removals (k : Kind) (cells : List (C × R)) :
    tally k (removals cells) = if k = .remove then cells.length else 0 := by
  induction cells with
  | nil => simp [removals]
  | cons cell cells ih =>
    rw [removals, List.map_cons, tally_cons, ← removals, ih]
    cases k <;> rfl

@[simp]
theorem tally_restorals (k : Kind) (cells : List (C × R)) :
    tally k (restorals cells) = if k = .restore then cells.length else 0 := by
  induction cells with
  | nil => simp [restorals]
  | cons cell cells ih =>
    rw [restorals, List.map_cons, tally_cons, ← restorals, ih]
    cases k <;> rfl

@[simp]
theorem tally_flatMap_restorals {α : Type} (k : Kind) (cells : α → List (C × R)) (xs : List α) :
    tally k (xs.flatMap fun x => restorals (cells x)) =
      if k = .restore then (xs.flatMap cells).length else 0 := by
  induction xs with
  | nil => simp
  | cons x xs ih =>
    rw [List.flatMap_cons, tally_append, tally_restorals, ih]
    split <;> simp

@[simp]
theorem kind_map {C' R' : Type} (f : C → C') (g : R → R') (e : Event C R) :
    (e.map f g).kind = e.kind := by
  cases e <;> rfl

@[simp]
theorem tally_map {C' R' : Type} (k : Kind) (f : C → C') (g : R → R') (events : List (Event C R)) :
    tally k (events.map (Event.map f g)) = tally k events := by
  simp [tally, List.countP_map, Function.comp_def]

/-- There are as many solutions as events that report one. -/
theorem length_solutions (events : List (Event C R)) :
    (solutions events).length = tally .solution events := by
  induction events with
  | nil => rfl
  | cons e events ih => cases e <;> simp_all [solutions, kind]

theorem isPeak_nil : IsPeak ([] : List (Event C R)) 0 := by
  refine ⟨⟨[], List.prefix_refl _, rfl⟩, ?_⟩
  rintro n ⟨earlier, hearlier, rfl⟩
  rw [List.prefix_nil.mp hearlier]
  rfl

theorem IsPeak.depth_le (h : IsPeak events peak) : depth events ≤ peak :=
  h.2 ⟨events, List.prefix_rfl, rfl⟩

/-- One more event raises the peak if more rows are selected than ever before. -/
theorem IsPeak.concat (h : IsPeak events peak) (e : Event C R) :
    IsPeak (events ++ [e]) (max peak (depth (events ++ [e]))) := by
  constructor
  · obtain ⟨earlier, hearlier, hdepth⟩ := h.1
    obtain hmax | hmax := max_choice peak (depth (events ++ [e]))
    · exact ⟨earlier, hearlier.trans (List.prefix_append _ _), hdepth.trans hmax.symm⟩
    · exact ⟨events ++ [e], List.prefix_rfl, hmax.symm⟩
  · rintro n ⟨earlier, hearlier, rfl⟩
    obtain rfl | hearlier := List.prefix_concat_iff.mp hearlier
    · exact le_max_right _ _
    · exact le_max_of_le_left (h.2 ⟨earlier, hearlier, rfl⟩)

/-- Without further selections the number of selected rows does not grow. -/
theorem IsPeak.append (h : IsPeak events peak) (hmore : tally .select more = 0) :
    IsPeak (events ++ more) peak := by
  induction more using List.reverseRecOn with
  | nil => rwa [List.append_nil]
  | append_singleton more e ih =>
    rw [tally_append] at hmore
    have hpeak := (ih (by omega)).concat e
    have hdepth := (ih (by omega)).depth_le
    rw [List.append_assoc, max_eq_left] at hpeak
    · exact hpeak
    · simp only [depth, tally_append] at hdepth ⊢
      omega

end Tallies

end Event

namespace Stage

variable {g : Grid}

/-- The cells that are linked, column by column. -/
def linkedCells (s : Stage g) : List g.Cell :=
  (List.finRange g.columns).flatMap fun column => (s.rows column).map fun row => (column, row)

theorem mem_linkedCells {s : Stage g} {cell : g.Cell} : cell ∈ s.linkedCells ↔ s.Linked cell := by
  simp only [linkedCells, List.mem_flatMap, List.mem_finRange, true_and, List.mem_map, mem_rows]
  constructor
  · rintro ⟨column, row, hlinked, rfl⟩
    exact hlinked
  · exact fun hlinked => ⟨cell.1, cell.2, hlinked, rfl⟩

theorem linkedCells_nodup (s : Stage g) : s.linkedCells.Nodup := by
  refine List.nodup_flatMap.mpr ⟨fun column _ => ?_, ?_⟩
  · exact (s.rows_nodup column).map fun _ _ h => (Prod.mk.inj h).2
  · refine (List.nodup_finRange g.columns).imp fun hne cell hcell hcell' => hne ?_
    obtain ⟨_, -, rfl⟩ := List.mem_map.mp hcell
    obtain ⟨_, -, heq⟩ := List.mem_map.mp hcell'
    exact (Prod.mk.inj heq).1.symm

/-- As many cells are linked no more as are lost. -/
theorem Loses.length_linkedCells {s t : Stage g} {cells : List g.Cell} (h : s.Loses cells t) :
    s.linkedCells.length = cells.length + t.linkedCells.length := by
  have hnodup : (cells ++ t.linkedCells).Nodup := by
    refine List.nodup_append.mpr ⟨h.nodup, t.linkedCells_nodup, ?_⟩
    rintro cell hcell _ hlinked rfl
    exact ((h.linked_iff cell).mp (mem_linkedCells.mp hlinked)).2 hcell
  have hperm : s.linkedCells.Perm (cells ++ t.linkedCells) := by
    refine (List.perm_ext_iff_of_nodup s.linkedCells_nodup hnodup).mpr fun cell => ?_
    rw [List.mem_append, mem_linkedCells, mem_linkedCells, h.linked_iff]
    have hlinked := h.linked cell
    tauto
  rw [hperm.length_eq, List.length_append]

end Stage

variable {g : Grid} {outer : List (Frame g)} {column : Fin g.columns} {tried : List (Fin g.rows)}
  {o o' : Outline g} {notes : List (Note (Fin g.columns) (Fin g.rows))}
  {events : List (Event (Fin g.columns) (Fin g.rows))}

/-- The rows tried at a level have lost all their cells since the level was entered. -/
theorem Path.length_linkedCells (hg : g.WellFormed) (h : Path (⟨column, none, tried⟩ :: outer)) :
    (stageAt outer).linkedCells.length =
      (tried.flatMap fun row => (g.rowCells row).reverse).length +
      (stageAt (⟨column, none, tried⟩ :: outer)).linkedCells.length := by
  induction tried with
  | nil => simp
  | cons row tried ih =>
    obtain ⟨hpath, rest, hrows⟩ := h.of_pass
    have hloses := Stage.loses_withdraw hg (hpath.available_next hg hrows)
    rw [ih hpath, hloses.length_linkedCells, stageAt_pass, List.flatMap_cons, List.length_append,
      List.length_reverse]
    omega

/-- Where a search stands agrees with the events it has sent. -/
structure Outline.Accounted (o : Outline g) (events : List (Event (Fin g.columns) (Fin g.rows))) :
    Prop where
  selections : o.statistics.selections = Event.tally .select events
  deselections : Event.tally .deselect events + (selectedAt o.frames).length =
    Event.tally .select events
  solutions : o.statistics.solutions = Event.tally .solution events
  peak : Event.IsPeak events o.statistics.maxDepth
  /-- The cells that are out of their lists were taken out more often than put back. -/
  linked : Event.tally .remove events + (stageAt o.frames).linkedCells.length =
    Event.tally .restore events + (Stage.initial g).linkedCells.length

theorem Outline.accounted_start (g : Grid) : (start g).Accounted [] :=
  ⟨rfl, rfl, rfl, Event.isPeak_nil, rfl⟩

/-- A selection is one event, and takes out the cells of its row and those it hides. -/
theorem tally_selectionNotes (k : Event.Kind) (s : Stage g) (row : Fin g.rows) :
    Event.tally k (Note.events (selectionNotes s row)) =
      (if k = .select then 1 else 0) +
        if k = .remove then (g.rowCells row ++ s.hidden row).length else 0 := by
  rw [selectionNotes, Note.events_map_event, Event.tally_cons, Event.tally_removals, Nat.add_comm]
  cases k <;> rfl

/-- The selection of the next row, whether or not it fits. -/
theorem Outline.Accounted.select (hg : g.WellFormed) {rest : List (Fin g.rows)} {row : Fin g.rows}
    {st : Statistics}
    (ha : (⟨⟨column, none, tried⟩ :: outer, .advance, st⟩ : Outline g).Accounted events)
    (h : Path (⟨column, none, tried⟩ :: outer))
    (hrows : (stageAt (⟨column, none, tried⟩ :: outer)).rows column = row :: rest) (phase : Phase) :
    (⟨⟨column, some row, tried⟩ :: outer, phase,
      st.addSelection ((selectedAt outer).length + 1)⟩ : Outline g).Accounted
      (events ++ Note.events (selectionNotes (stageAt (⟨column, none, tried⟩ :: outer)) row)) := by
  obtain ⟨hselections, hdeselections, hsolutions, hpeak, hlinked⟩ := ha
  dsimp only [selectedAt_none] at hselections hdeselections hsolutions hpeak hlinked
  have hloses := (Stage.select_spec hg (h.settled hg) (h.available_next hg hrows)).1
  have hlength := hloses.length_linkedCells
  refine ⟨?_, ?_, ?_, ?_, ?_⟩
  · rw [Event.tally_append, tally_selectionNotes]
    exact congrArg (· + 1) hselections
  · rw [Event.tally_append, Event.tally_append, tally_selectionNotes, tally_selectionNotes,
      selectedAt_pick, List.length_cons]
    simp only [reduceCtorEq, if_true, if_false]
    omega
  · rw [Event.tally_append, tally_selectionNotes]
    exact hsolutions
  · have hremovals : Event.tally .select (Event.removals (g.rowCells row ++
        (stageAt (⟨column, none, tried⟩ :: outer)).hidden row)) = 0 := by simp
    have hdepth : Event.depth (events ++ [.select row]) = (selectedAt outer).length + 1 := by
      simp only [Event.depth, Event.tally_append, Event.tally_cons, Event.tally_nil, Event.kind,
        reduceCtorEq, if_true, if_false]
      omega
    have hpeak := (hpeak.concat (.select row)).append hremovals
    rw [hdepth, List.append_assoc] at hpeak
    rw [selectionNotes, Note.events_map_event]
    exact hpeak
  · rw [Event.tally_append, Event.tally_append, tally_selectionNotes, tally_selectionNotes,
      stageAt_pick]
    simp only [reduceCtorEq, if_true, if_false]
    omega

/-- Events without a selection and without removals, and what has to become of the place. -/
theorem Outline.Accounted.without_select (ha : o.Accounted events)
    {more : List (Event (Fin g.columns) (Fin g.rows))} (hselect : Event.tally .select more = 0)
    (hselections : o'.statistics.selections = o.statistics.selections)
    (hdeselect : Event.tally .deselect more + (selectedAt o'.frames).length =
      (selectedAt o.frames).length)
    (hsolution : o'.statistics.solutions = o.statistics.solutions + Event.tally .solution more)
    (hmaxDepth : o'.statistics.maxDepth = o.statistics.maxDepth)
    (hremove : Event.tally .remove more = 0)
    (hrestore : (stageAt o'.frames).linkedCells.length =
      Event.tally .restore more + (stageAt o.frames).linkedCells.length) :
    o'.Accounted (events ++ more) := by
  obtain ⟨hselections', hdeselections, hsolutions, hpeak, hlinked⟩ := ha
  refine ⟨?_, ?_, ?_, hmaxDepth ▸ hpeak.append hselect, ?_⟩
  all_goals simp only [Event.tally_append]
  all_goals omega

/-- A move keeps the account: its events are those that its counters and its place tell of. -/
theorem Move.accounted (hg : g.WellFormed) (h : Move o notes o') (ho : o.Valid)
    (ha : o.Accounted events) : o'.Accounted (events ++ Note.events notes) := by
  cases h with
  | enter hbest =>
    exact ha.without_select rfl rfl (Nat.zero_add _) rfl rfl rfl (Nat.zero_add _).symm
  | find hbest =>
    exact ha.without_select rfl rfl (Nat.zero_add _) rfl rfl rfl (Nat.zero_add _).symm
  | pick hrows hfits => exact ha.select hg ho.path hrows _
  | overshoot hrows hfits =>
    rw [Note.events_append, Note.events_remark, Note.events_nil, List.append_nil]
    obtain ⟨hselections, hdeselections, hsolutions, hpeak, hlinked⟩ :=
      ha.select hg ho.path hrows .advance
    exact ⟨hselections, hdeselections, hsolutions, hpeak, hlinked⟩
  | @drop outer column tried row st =>
    obtain ⟨hpath, rest, hrows⟩ := ho.path.of_pick
    have hloses := Stage.loses_hidden hg (hpath.settled hg) (hpath.available_next hg hrows)
    have hlength := hloses.1.length_linkedCells
    rw [Note.events_map_event]
    refine ha.without_select ?_ rfl ?_ ?_ rfl ?_ ?_
    all_goals simp only [Event.tally_append, Event.tally_restorals, Event.tally_cons,
      Event.tally_nil, Event.kind, reduceCtorEq, if_true, if_false, Nat.add_zero, Nat.zero_add,
      List.length_reverse]
    · exact Nat.add_comm _ _
    · exact hlength
  | @leave outer column tried st hrows =>
    have hlength := ho.path.length_linkedCells hg
    rw [Note.events_map_event]
    refine ha.without_select ?_ rfl ?_ ?_ rfl ?_ ?_
    all_goals simp only [Event.tally_flatMap_restorals, reduceCtorEq, if_true, if_false]
    · exact Nat.zero_add _
    · rfl
    · exact hlength
  | finish => exact ha.without_select rfl rfl (Nat.zero_add _) rfl rfl rfl (Nat.zero_add _).symm

/-- From the start on, the account is kept. -/
theorem Moves.accounted (hg : g.WellFormed) (h : Moves (.start g) notes o) :
    o.Accounted (Note.events notes) := by
  generalize hstart : Outline.start g = s at h
  induction h with
  | refl => exact hstart ▸ Outline.accounted_start g
  | tail hmoves hlast ih =>
    subst hstart
    rw [Note.events_append]
    exact hlast.accounted hg (hmoves.valid (Outline.valid_start g)) ih

/-- Where the last event is a solution, no node waits to be entered. -/
theorem Moves.phase_ne_choose {rows : List (Fin g.rows)} (h : Moves o notes o')
    (hlast : (Note.events notes).getLast? = some (.solution rows)) : o'.phase ≠ .choose := by
  cases h with
  | refl => cases hlast
  | tail hmoves hmove =>
    cases hmove with
    | @pick outer column tried rest row st hrows hfits =>
      rw [Note.events_append, selectionNotes, Note.events_map_event] at hlast
      have hmem : Event.solution rows ∈ Event.select row :: Event.removals (g.rowCells row ++
          (stageAt (⟨column, none, tried⟩ :: outer)).hidden row) := by
        rw [List.getLast?_append_of_ne_nil _ (List.cons_ne_nil _ _)] at hlast
        exact List.mem_of_getLast? hlast
      simp [Event.removals] at hmem
    | _ =>
      intro hchoose
      cases hchoose

end ExactCover
