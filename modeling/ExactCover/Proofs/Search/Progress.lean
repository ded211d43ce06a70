import ExactCover.Proofs.Search.Moves
import Mathlib.Data.Fintype.Card
import Mathlib.Tactic.Ring

namespace ExactCover

variable {g : Grid} {outer : List (Frame g)} {column : Fin g.columns} {tried : List (Fin g.rows)}
  {row : Fin g.rows} {o o' : Outline g} {notes : List (Note (Fin g.columns) (Fin g.rows))}

/-- The number of rows that are neither selected nor tried. -/
def room (frames : List (Frame g)) : Nat := g.rows - (stageAt frames).gone.length

/-- A bound on the nodes still to be entered below the rows that are left at some levels. -/
def nodesBelow : List (Frame g) → Nat
  | [] => 0
  | frame :: outer => (2 ^ room (frame :: outer) - 1) + nodesBelow outer

namespace Outline

/-- A bound on the nodes still to be entered. No row is selected or tried twice on a path, so every
    level leaves fewer rows to the next one, and the nodes can be counted in advance. -/
def nodesLeft (o : Outline g) : Nat :=
  nodesBelow o.frames + if o.phase = .choose then 2 ^ room o.frames else 0

/-- A bound on the steps still to be made: each node is entered and left once and selected at most
    once, and one step finds that the search is over. -/
def stepsLeft (o : Outline g) : Nat :=
  3 * o.nodesLeft + o.frames.length + if o.phase = .advance then 1 else 0

theorem nodesLeft_choose (frames : List (Frame g)) (st : Statistics) :
    nodesLeft ⟨frames, .choose, st⟩ = nodesBelow frames + 2 ^ room frames := rfl

theorem nodesLeft_advance (frames : List (Frame g)) (st : Statistics) :
    nodesLeft ⟨frames, .advance, st⟩ = nodesBelow frames := rfl

theorem stepsLeft_choose (frames : List (Frame g)) (st : Statistics) :
    stepsLeft ⟨frames, .choose, st⟩ =
      3 * (nodesBelow frames + 2 ^ room frames) + frames.length := rfl

theorem stepsLeft_advance (frames : List (Frame g)) (st : Statistics) :
    stepsLeft ⟨frames, .advance, st⟩ = 3 * nodesBelow frames + frames.length + 1 := rfl

theorem nodesLeft_start (g : Grid) : (start g).nodesLeft = g.rowSets := by
  simp [start, nodesLeft, nodesBelow, room, stageAt, Stage.initial, Grid.rowSets, Nat.pow_eq]

theorem stepsLeft_start (g : Grid) : (start g).stepsLeft = 3 * g.rowSets := by
  rw [stepsLeft, nodesLeft_start]
  rfl

end Outline

/-- A level that is still to be entered is one of at most as many levels as there are rows, and one
    more. -/
theorem Outline.Valid.length_lt (hg : g.WellFormed) (ho : o.Valid) (hphase : o.phase = .choose)
    {levels : Nat} (hlevels : g.rows < levels) :
    ∃ deeper, levels - o.frames.length = deeper + 1 ∧ levels - (o.frames.length + 1) = deeper := by
  have hlength := (ho.path.selected_nodup hg).length_le_card
  rw [Fintype.card_fin, ho.selected hphase] at hlength
  exact ⟨levels - (o.frames.length + 1), by omega, rfl⟩

theorem nodesBelow_cons (frame : Frame g) (outer : List (Frame g)) :
    nodesBelow (frame :: outer) = (2 ^ room (frame :: outer) - 1) + nodesBelow outer := rfl

theorem room_enter (frames : List (Frame g)) (column : Fin g.columns) :
    room (⟨column, none, []⟩ :: frames) = room frames := rfl

/-- A selection takes one of the rows that are left. -/
theorem room_pick (hg : g.WellFormed) (h : Path (⟨column, some row, tried⟩ :: outer)) :
    room (⟨column, none, tried⟩ :: outer) = room (⟨column, some row, tried⟩ :: outer) + 1 := by
  have hlength := (h.gone_nodup hg).length_le_card
  rw [Fintype.card_fin, stageAt_pick, Stage.gone_select, List.length_cons] at hlength
  simp only [room, stageAt_pick, Stage.gone_select, List.length_cons]
  omega

/-- A tried row stays out, so deselecting it leaves no more rows than there were. -/
theorem room_drop :
    room (⟨column, none, row :: tried⟩ :: outer) = room (⟨column, some row, tried⟩ :: outer) := by
  simp only [room, stageAt_pick, stageAt_pass, Stage.gone_select]
  rfl

/-- Every solution uses up a node. -/
theorem Move.nodesLeft_le (hg : g.WellFormed) (h : Move o notes o') (ho : o.Valid) :
    o'.nodesLeft + (Note.solutions notes).length ≤ o.nodesLeft := by
  cases h with
  | @enter frames column st hbest =>
    have hpos := Nat.two_pow_pos (room frames)
    rw [Outline.nodesLeft_choose, Outline.nodesLeft_advance, nodesBelow_cons, room_enter]
    simp only [Note.solutions_nil, List.length_nil]
    omega
  | @find frames st hbest =>
    have hpos := Nat.two_pow_pos (room frames)
    rw [Outline.nodesLeft_choose, Outline.nodesLeft_advance]
    simp only [Note.solutions_remark, Note.solutions_solution, Note.solutions_nil,
      List.length_singleton]
    omega
  | @pick outer column tried rest row st hrows hfits =>
    have hpos := Nat.two_pow_pos (room (⟨column, some row, tried⟩ :: outer))
    rw [Outline.nodesLeft_choose, Outline.nodesLeft_advance, nodesBelow_cons, nodesBelow_cons,
      room_pick hg (ho.path.pick hrows), Nat.pow_succ, solutions_selectionNotes, List.length_nil]
    omega
  | @overshoot outer column tried rest row st hrows hfits =>
    have hpos := Nat.two_pow_pos (room (⟨column, some row, tried⟩ :: outer))
    rw [Outline.nodesLeft_advance, Outline.nodesLeft_advance, nodesBelow_cons, nodesBelow_cons,
      room_pick hg (ho.path.pick hrows), Nat.pow_succ, Note.solutions_append,
      solutions_selectionNotes, Note.solutions_remark, Note.solutions_nil, List.append_nil,
      List.length_nil]
    omega
  | drop =>
    rw [Outline.nodesLeft_advance, Outline.nodesLeft_advance, nodesBelow_cons, nodesBelow_cons,
      room_drop, Note.solutions_map_event, Event.solutions_append, Event.solutions_restorals]
    exact Nat.le_refl _
  | leave hrows =>
    rw [Outline.nodesLeft_advance, Outline.nodesLeft_advance, nodesBelow_cons,
      Note.solutions_map_event, Event.solutions_flatMap_restorals, List.length_nil]
    omega
  | finish => exact Nat.le_refl _

/-- Deselecting a row is no progress by itself. -/
theorem stepsLeft_drop (st : Statistics) :
    (⟨⟨column, none, row :: tried⟩ :: outer, .advance, st⟩ : Outline g).stepsLeft =
      (⟨⟨column, some row, tried⟩ :: outer, .advance, st⟩ : Outline g).stepsLeft := by
  rw [Outline.stepsLeft_advance, Outline.stepsLeft_advance, nodesBelow_cons, nodesBelow_cons,
    room_drop, List.length_cons, List.length_cons]

/-- Every other move brings the search closer to its end. -/
theorem Move.stepsLeft_lt (hg : g.WellFormed) (h : Move o notes o') (ho : o.Valid)
    (hcurrent : o.phase = .advance → ∀ frame ∈ o.frames.head?, frame.current = none) :
    o'.stepsLeft < o.stepsLeft := by
  cases h with
  | @enter frames column st hbest =>
    have hpos := Nat.two_pow_pos (room frames)
    rw [Outline.stepsLeft_choose, Outline.stepsLeft_advance, nodesBelow_cons, room_enter,
      List.length_cons]
    omega
  | @find frames st hbest =>
    have hpos := Nat.two_pow_pos (room frames)
    rw [Outline.stepsLeft_choose, Outline.stepsLeft_advance]
    omega
  | @pick outer column tried rest row st hrows hfits =>
    have hpos := Nat.two_pow_pos (room (⟨column, some row, tried⟩ :: outer))
    rw [Outline.stepsLeft_choose, Outline.stepsLeft_advance, nodesBelow_cons, nodesBelow_cons,
      room_pick hg (ho.path.pick hrows), Nat.pow_succ, List.length_cons, List.length_cons]
    omega
  | @overshoot outer column tried rest row st hrows hfits =>
    have hpos := Nat.two_pow_pos (room (⟨column, some row, tried⟩ :: outer))
    rw [Outline.stepsLeft_advance, Outline.stepsLeft_advance, nodesBelow_cons, nodesBelow_cons,
      room_pick hg (ho.path.pick hrows), Nat.pow_succ, List.length_cons, List.length_cons]
    omega
  | drop =>
    have hnone := hcurrent rfl _ rfl
    cases hnone
  | leave hrows =>
    rw [Outline.stepsLeft_advance, Outline.stepsLeft_advance, nodesBelow_cons, List.length_cons]
    omega
  | finish => exact Nat.lt_succ_self _

/-- No move leads away from the end. -/
theorem Move.stepsLeft_le (hg : g.WellFormed) (h : Move o notes o') (ho : o.Valid) :
    o'.stepsLeft ≤ o.stepsLeft := by
  cases h with
  | drop => exact (stepsLeft_drop _).le
  | enter hbest => exact ((Move.enter hbest).stepsLeft_lt hg ho nofun).le
  | find hbest => exact ((Move.find hbest).stepsLeft_lt hg ho nofun).le
  | pick hrows hfits =>
    refine ((Move.pick hrows hfits).stepsLeft_lt hg ho fun _ _ hframe => ?_).le
    cases hframe
    rfl
  | overshoot hrows hfits =>
    refine ((Move.overshoot hrows hfits).stepsLeft_lt hg ho fun _ _ hframe => ?_).le
    cases hframe
    rfl
  | leave hrows =>
    refine ((Move.leave hrows).stepsLeft_lt hg ho fun _ _ hframe => ?_).le
    cases hframe
    rfl
  | finish => exact (Move.finish.stepsLeft_lt hg ho nofun).le

/-- Moves do not lead away from the end, and the solutions they find use up as many nodes. -/
theorem Moves.left_le (hg : g.WellFormed) (h : Moves o notes o') (ho : o.Valid) :
    o'.stepsLeft ≤ o.stepsLeft ∧
      o'.nodesLeft + (Note.solutions notes).length ≤ o.nodesLeft := by
  induction h with
  | refl => simp
  | tail hmoves hlast ih =>
    obtain ⟨hsteps, hnodes⟩ := ih
    have hvalid := hmoves.valid ho
    have hlastSteps := hlast.stepsLeft_le hg hvalid
    have hlastNodes := hlast.nodesLeft_le hg hvalid
    rw [Note.solutions_append, List.length_append]
    omega

end ExactCover
