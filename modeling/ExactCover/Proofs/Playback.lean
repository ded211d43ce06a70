import ExactCover.Proofs.Replay
import ExactCover.Replay.Playback

namespace ExactCover

/-- The solution that an event reports, if it reports one. -/
def Event.solution? {C R : Type} : Event C R → Option (List R)
  | .solution rows => some rows
  | _ => none

theorem Event.solution?_eq_some_iff {C R : Type} {e : Event C R} {rows : List R} :
    e.solution? = some rows ↔ e = .solution rows := by
  cases e <;> simp [solution?]

namespace Playback

/-- The two ways to move along a tape. -/
inductive Direction where
  | forward
  | back
deriving DecidableEq, Repr

variable {C R : Type}

/-- Where a move leads from a position of a tape with a number of events. -/
def stride (size position : Nat) : Direction → Nat
  | .forward => min (position + 1) size
  | .back => position - 1

/-- The event between a position and the one that a move leads to. Past an end of the tape there is
    none. -/
def between (tape : Array (Event C R)) (position : Nat) : Direction → Option (Event C R)
  | .forward => tape[position]?
  | .back =>
    match position with
    | 0 => none
    | i + 1 => tape[i]?

/-- The events that a walk crosses which starts at a position, each with the direction in which it
    is crossed. -/
def crossings (tape : Array (Event C R)) : (position : Nat) → List Direction →
    List (Direction × Event C R)
  | _, [] => []
  | position, d :: rest =>
    ((between tape position d).map fun e => (d, e)).toList ++
      crossings tape (stride tape.size position d) rest

/-- Of the solutions crossed, the last one if it was crossed forward. One that was crossed back is
    forgotten. -/
def solutionMet (crossed : List (Direction × Event C R)) : Option (List R) :=
  let solutions : List (Direction × List R) :=
    crossed.filterMap fun (d, e) => e.solution?.map fun rows => (d, rows)
  match solutions.getLast? with
  | some (.forward, rows) => some rows
  | _ => none

/-- How crossing an event changes the solution met last. -/
def remembered (last : Option (List R)) (d : Direction) (e : Event C R) : Option (List R) :=
  match e.solution?, d with
  | none, _ => last
  | some rows, .forward => some rows
  | some _, .back => none

theorem solutionMet_append_singleton (crossed : List (Direction × Event C R)) (d : Direction)
    (e : Event C R) :
    solutionMet (crossed ++ [(d, e)]) = remembered (solutionMet crossed) d e := by
  cases hsolution : e.solution? with
  | none => cases d <;> simp [solutionMet, remembered, hsolution]
  | some rows => cases d <;> simp [solutionMet, remembered, hsolution]

end Playback

namespace Replay

open Playback (remembered)

variable {C R : Type}

/-- The same replay with another memory of the solution met last. -/
def remember (r : Replay C R) (solution : Option (List R)) : Replay C R :=
  { r with lastSolution := solution }

variable [Ord C] [Ord R]

/-- The lists of a replay are ascending. -/
structure Ascending (r : Replay C R) : Prop where
  coverage : r.coverage.Ascending
  remaining : r.remaining.Ascending

/-- One step of a shift: the amount of one column, times a factor. -/
def shiftEntry (factor : Int) (m : SortedMap C Int) (entry : C × Amount) : SortedMap C Int :=
  m.modify entry.1 (· + factor * (entry.2.toNat : Int))

theorem shift_eq (r : Replay C R) (row : R) (factor : Int) :
    r.shift row factor = { r with
      remaining := ((r.amounts.get? row).getD ∅).entries.foldl (shiftEntry factor) r.remaining } :=
  rfl

variable [Std.TransOrd C] [Std.LawfulEqOrd C]

theorem ascending_shiftEntry {m : SortedMap C Int} (h : m.Ascending) (factor : Int)
    (entry : C × Amount) : (shiftEntry factor m entry).Ascending := h.modify _ _

theorem ascending_shiftAll {m : SortedMap C Int} (h : m.Ascending) (factor : Int)
    (entries : List (C × Amount)) : (entries.foldl (shiftEntry factor) m).Ascending := by
  induction entries generalizing m with
  | nil => exact h
  | cons entry entries ih => exact ih (ascending_shiftEntry h factor entry)

/-- Shifts of open amounts can be made in any order. -/
theorem shiftEntry_shiftAll {m : SortedMap C Int} (h : m.Ascending) (factor factor' : Int)
    (entries : List (C × Amount)) (entry : C × Amount) :
    shiftEntry factor' (entries.foldl (shiftEntry factor) m) entry =
      entries.foldl (shiftEntry factor) (shiftEntry factor' m entry) := by
  induction entries generalizing m with
  | nil => rfl
  | cons first entries ih =>
    have hcomm : shiftEntry factor' (shiftEntry factor m first) entry =
        shiftEntry factor (shiftEntry factor' m entry) first :=
      SortedMap.modify_comm h _ _ fun v => by omega
    rw [List.foldl_cons, List.foldl_cons, ih (ascending_shiftEntry h factor first), hcomm]

/-- Shifting by the opposite factor takes all amounts back, in whatever order they come. -/
theorem shiftAll_cancel {m : SortedMap C Int} (h : m.Ascending) (factor : Int)
    (entries : List (C × Amount)) :
    entries.foldl (shiftEntry (-factor)) (entries.foldl (shiftEntry factor) m) = m := by
  induction entries generalizing m with
  | nil => rfl
  | cons entry entries ih =>
    have hcancel : shiftEntry (-factor) (shiftEntry factor m entry) entry = m :=
      SortedMap.modify_cancel h _ fun v => by rw [Int.neg_mul]; omega
    rw [List.foldl_cons, List.foldl_cons,
      shiftEntry_shiftAll (ascending_shiftEntry h factor entry), hcancel, ih h]

/-- A shift is undone by the opposite one. -/
theorem shift_shift {r : Replay C R} (h : r.remaining.Ascending) (row : R) (factor : Int) :
    (r.shift row factor).shift row (-factor) = r := by
  have hcancel := shiftAll_cancel h factor ((r.amounts.get? row).getD ∅).entries
  rw [shift_eq, shift_eq]
  dsimp only
  rw [hcancel]

theorem Ascending.shift {r : Replay C R} (h : r.Ascending) (row : R) (factor : Int) :
    (r.shift row factor).Ascending :=
  ⟨h.coverage, ascending_shiftAll h.remaining _ _⟩

variable [DecidableEq R]

omit [Std.TransOrd C] [Std.LawfulEqOrd C] in
/-- Only the row selected last can be taken off, and its columns get back what it gave. -/
theorem pop?_eq_some_iff {r r' : Replay C R} {row : R} :
    r.pop? row = some r' ↔ ∃ others, r.selected = row :: others ∧
      r' = { r with selected := others }.shift row 1 := by
  unfold pop?
  split
  · rename_i hnil
    simp [hnil]
  · rename_i last others hcons
    by_cases hlast : last = row
    · simp [hcons, hlast, eq_comm]
    · simp [hcons, hlast]

/-- Taking a row off right after it was selected leads back. -/
theorem pop?_push {r : Replay C R} (h : r.remaining.Ascending) (row : R) :
    (r.push row).pop? row = some r := by
  refine pop?_eq_some_iff.mpr ⟨r.selected, rfl, ?_⟩
  exact (shift_shift h row (-1)).symm

/-- Selecting a row right after it was taken off leads back. -/
theorem push_of_pop? {r r' : Replay C R} (h : r.remaining.Ascending) {row : R}
    (hpop : r.pop? row = some r') : r'.push row = r := by
  obtain ⟨others, hselected, rfl⟩ := pop?_eq_some_iff.mp hpop
  obtain ⟨coverage, remaining, amounts, selected, last⟩ := r
  cases hselected
  exact shift_shift h row 1

omit [Std.TransOrd C] [Std.LawfulEqOrd C] in
theorem pop?_remember (r : Replay C R) (last : Option (List R)) (row : R) :
    (r.remember last).pop? row = (r.pop? row).map fun r => r.remember last := by
  obtain ⟨coverage, remaining, amounts, selected, solution⟩ := r
  cases selected with
  | nil => rfl
  | cons latest others => by_cases h : latest = row <;> simp [pop?, remember, shift, h]

omit [Std.TransOrd C] [Std.LawfulEqOrd C] in
/-- Applying an event does not depend on the solution met last. -/
theorem apply_remember (r : Replay C R) (last : Option (List R)) (e : Event C R) :
    (r.remember last).apply e =
      (r.apply e).map fun r => r.remember (remembered last .forward e) := by
  cases e with
  | select row => rfl
  | deselect row =>
    simp only [apply, pop?_remember]
    cases r.pop? row <;> rfl
  | remove column row =>
    simp only [apply]
    change (if r.covers column row then _ else _) = _
    split <;> rfl
  | restore column row =>
    simp only [apply]
    change (if r.covers column row then _ else _) = _
    split <;> rfl
  | solution rows =>
    simp only [apply]
    change (if rows = r.selection then _ else _) = _
    split <;> rfl

omit [Std.TransOrd C] [Std.LawfulEqOrd C] in
/-- Undoing an event does not depend on the solution met last. -/
theorem undo_remember (r : Replay C R) (last : Option (List R)) (e : Event C R) :
    (r.remember last).undo e = (r.undo e).map fun r => r.remember (remembered last .back e) := by
  cases e with
  | select row =>
    simp only [undo, pop?_remember]
    cases r.pop? row <;> rfl
  | deselect row => rfl
  | remove column row => rfl
  | restore column row => rfl
  | solution rows => rfl

omit [Std.TransOrd C] [Std.LawfulEqOrd C] in
theorem apply_deselect_eq_ok {r r' : Replay C R} {row : R} :
    r.apply (.deselect row) = .ok r' ↔ r.pop? row = some r' := by
  rw [apply]
  cases r.pop? row <;> simp

omit [Std.TransOrd C] [Std.LawfulEqOrd C] in
theorem apply_remove_eq_ok {r r' : Replay C R} {column : C} {row : R} :
    r.apply (.remove column row) = .ok r' ↔
      r.covers column row = true ∧ { r with coverage := r.coverage.erase (column, row) } = r' := by
  rw [apply]
  split <;> simp_all

omit [Std.TransOrd C] [Std.LawfulEqOrd C] in
theorem apply_restore_eq_ok {r r' : Replay C R} {column : C} {row : R} :
    r.apply (.restore column row) = .ok r' ↔
      ¬ r.covers column row = true ∧
        { r with coverage := r.coverage.insert (column, row) } = r' := by
  rw [apply]
  split <;> simp_all

omit [Std.TransOrd C] [Std.LawfulEqOrd C] in
/-- A solution fits if it is the partial solution, and then it is remembered. -/
theorem apply_solution_eq_ok {r r' : Replay C R} {rows : List R} :
    r.apply (.solution rows) = .ok r' ↔
      rows = r.selection ∧ { r with lastSolution := some rows } = r' := by
  rw [apply]
  split <;> simp_all

variable [Std.TransOrd R] [Std.LawfulEqOrd R]

/-- Applying an event keeps the sets of a replay ascending. -/
theorem Ascending.apply {r r' : Replay C R} (h : r.Ascending) {e : Event C R}
    (happly : r.apply e = .ok r') : r'.Ascending := by
  have hselected (rows : List R) : ({ r with selected := rows } : Replay C R).Ascending :=
    ⟨h.coverage, h.remaining⟩
  cases e with
  | select row =>
    cases happly
    exact (hselected _).shift row (-1)
  | deselect row =>
    obtain ⟨others, -, rfl⟩ := pop?_eq_some_iff.mp (apply_deselect_eq_ok.mp happly)
    exact (hselected others).shift row 1
  | remove column row =>
    obtain ⟨-, rfl⟩ := apply_remove_eq_ok.mp happly
    exact ⟨h.coverage.erase _, h.remaining⟩
  | restore column row =>
    obtain ⟨-, rfl⟩ := apply_restore_eq_ok.mp happly
    exact ⟨h.coverage.insert _, h.remaining⟩
  | solution rows =>
    obtain ⟨-, rfl⟩ := apply_solution_eq_ok.mp happly
    exact ⟨h.coverage, h.remaining⟩

theorem Ascending.applyAll {r r' : Replay C R} (h : r.Ascending) {events : List (Event C R)}
    (happly : r.applyAll events = .ok r') : r'.Ascending :=
  Problem.foldlM_keeps h (fun _ _ _ h happly => h.apply happly) happly

/-- Undoing the event that was applied leads back, but for the solution met last. -/
theorem undo_apply {r r' : Replay C R} (h : r.Ascending) {e : Event C R}
    (happly : r.apply e = .ok r') :
    r'.undo e = .ok (r.remember (remembered r.lastSolution .back e)) := by
  cases e with
  | select row =>
    cases happly
    rw [undo, pop?_push h.remaining]
    rfl
  | deselect row =>
    rw [undo, push_of_pop? h.remaining (apply_deselect_eq_ok.mp happly)]
    rfl
  | remove column row =>
    obtain ⟨hcovers, rfl⟩ := apply_remove_eq_ok.mp happly
    have hback := SortedSet.insert_erase h.coverage
      ((SortedSet.contains_iff h.coverage).mp hcovers)
    exact congrArg (fun coverage => Except.ok { r with coverage := coverage }) hback
  | restore column row =>
    obtain ⟨hcovers, rfl⟩ := apply_restore_eq_ok.mp happly
    have hback := SortedSet.erase_insert h.coverage fun hmem =>
      hcovers ((SortedSet.contains_iff h.coverage).mpr hmem)
    exact congrArg (fun coverage => Except.ok { r with coverage := coverage }) hback
  | solution rows =>
    obtain ⟨-, rfl⟩ := apply_solution_eq_ok.mp happly
    rfl

omit [Std.TransOrd C] [Std.LawfulEqOrd C] [Std.TransOrd R] [Std.LawfulEqOrd R] in
/-- If all events fit, so does each of them after the ones in front of it. -/
theorem apply_getElem?_of_applyAll {r last : Replay C R} {events : List (Event C R)}
    (hfits : r.applyAll events = .ok last) {i : Nat} {e : Event C R} (he : events[i]? = some e) :
    ∃ s s', r.applyAll (events.take i) = .ok s ∧ s.apply e = .ok s' ∧
      r.applyAll (events.take (i + 1)) = .ok s' := by
  have hsplit : events = events.take (i + 1) ++ events.drop (i + 1) :=
    (List.take_append_drop _ _).symm
  have htake : events.take (i + 1) = events.take i ++ [e] := by
    rw [List.take_add_one, he]
    rfl
  rw [hsplit, applyAll_append, Problem.bind_eq_ok_iff] at hfits
  obtain ⟨s', hupto, -⟩ := hfits
  have hlast := hupto
  rw [htake, applyAll_append, Problem.bind_eq_ok_iff] at hlast
  obtain ⟨s, hbefore, hlast⟩ := hlast
  rw [applyAll_cons, Problem.bind_eq_ok_iff] at hlast
  obtain ⟨_, happly, hnil⟩ := hlast
  cases hnil
  exact ⟨s, s', hbefore, happly, hupto⟩

end Replay

namespace Playback

variable {C R : Type} [Ord C] [Ord R] [DecidableEq R]

/-- The playback after one move. -/
def move (b : Playback C R) : Direction → Except Replay.Fault (Playback C R)
  | .forward => b.forward
  | .back => b.back

/-- The playback after some moves. -/
def walk (b : Playback C R) (directions : List Direction) :
    Except Replay.Fault (Playback C R) :=
  directions.foldlM move b

/-- A solution that is remembered was reported in front of a position. -/
def Behind (tape : Array (Event C R)) (position : Nat) (last : Option (List R)) : Prop :=
  ∀ rows, last = some rows → ∃ i < position, tape[i]? = some (.solution rows)

omit [Ord C] [Ord R] [DecidableEq R] in
/-- Moving past an event leaves what is remembered in front of the position. -/
theorem Behind.forward {tape : Array (Event C R)} {position : Nat} {last : Option (List R)}
    (h : Behind tape position last) {e : Event C R} (he : tape[position]? = some e) :
    Behind tape (position + 1) (remembered last .forward e) := by
  intro rows hrows
  unfold remembered at hrows
  cases hsolution : e.solution? with
  | none =>
    rw [hsolution] at hrows
    obtain ⟨i, hi, hget⟩ := h rows hrows
    exact ⟨i, Nat.lt_succ_of_lt hi, hget⟩
  | some found =>
    rw [hsolution] at hrows
    cases hrows
    rw [Event.solution?_eq_some_iff.mp hsolution] at he
    exact ⟨position, Nat.lt_succ_self _, he⟩

omit [Ord C] [Ord R] [DecidableEq R] in
/-- Moving back before an event leaves what is remembered in front of the position: if the event
    reports the solution that was remembered, nothing is remembered any more. -/
theorem Behind.back {tape : Array (Event C R)} {i : Nat} {last : Option (List R)}
    (h : Behind tape (i + 1) last) {e : Event C R} (he : tape[i]? = some e) :
    Behind tape i (remembered last .back e) := by
  intro rows hrows
  unfold remembered at hrows
  cases hsolution : e.solution? with
  | none =>
    rw [hsolution] at hrows
    obtain ⟨j, hj, hget⟩ := h rows hrows
    -- The event that was taken back reports no solution.
    have hne : j ≠ i := by
      rintro rfl
      rw [he] at hget
      cases hget
      cases hsolution
    exact ⟨j, by omega, hget⟩
  | some found =>
    rw [hsolution] at hrows
    cases hrows

/-- A playback stands where a walk leads that crossed some events: its replay is the one of the
    events in front of its position, but for the memory of the solution met last. -/
structure Follows (start : Replay C R) (tape : Array (Event C R))
    (crossed : List (Direction × Event C R)) (b : Playback C R) : Prop where
  tape_eq : b.tape = tape
  position_le : b.position ≤ tape.size
  replay_eq : ∃ s, start.applyAll (tape.toList.take b.position) = .ok s ∧
    b.replay = s.remember (solutionMet crossed)
  solution_behind : Behind tape b.position (solutionMet crossed)

variable {start last : Replay C R} {tape : Array (Event C R)}
  {crossed : List (Direction × Event C R)} {b : Playback C R}

theorem Follows.load (hlast : start.lastSolution = none) :
    Follows start tape [] (Playback.load tape start) where
  tape_eq := rfl
  position_le := Nat.zero_le _
  replay_eq := by
    refine ⟨start, rfl, ?_⟩
    change start = start.remember none
    rw [← hlast]
    rfl
  solution_behind := fun rows h => nomatch h

/-- A move forward crosses the next event, which fits. -/
theorem Follows.forward (h : Follows start tape crossed b)
    (hfits : start.applyAll tape.toList = .ok last) {e : Event C R}
    (he : tape[b.position]? = some e) :
    ∃ b', b.forward = .ok b' ∧ b'.position = b.position + 1 ∧
      Follows start tape (crossed ++ [(.forward, e)]) b' := by
  obtain ⟨s, s', hbefore, happly, hafter⟩ :=
    Replay.apply_getElem?_of_applyAll hfits (i := b.position) (by simpa using he)
  obtain ⟨s₀, hs₀, hreplay⟩ := h.replay_eq
  obtain rfl : s₀ = s := Except.ok.inj (hs₀.symm.trans hbefore)
  refine ⟨⟨b.tape, b.position + 1, s'.remember (solutionMet (crossed ++ [(.forward, e)]))⟩,
    ?_, rfl, h.tape_eq, ?_, ⟨s', hafter, rfl⟩, ?_⟩
  · rw [Playback.forward, h.tape_eq, he, hreplay]
    simp only [Replay.apply_remember, happly, solutionMet_append_singleton]
    rw [← h.tape_eq]
    rfl
  · exact (Array.getElem?_eq_some_iff.mp he).1
  · rw [solutionMet_append_singleton]
    exact h.solution_behind.forward he

variable [Std.TransOrd C] [Std.LawfulEqOrd C] [Std.TransOrd R] [Std.LawfulEqOrd R]

/-- A move back crosses the last event, and undoing it leads to the replay of those in front of
    it. -/
theorem Follows.back (h : Follows start tape crossed b) (hascending : start.Ascending)
    (hfits : start.applyAll tape.toList = .ok last) {i : Nat} (hi : b.position = i + 1)
    {e : Event C R} (he : tape[i]? = some e) :
    ∃ b', b.back = .ok b' ∧ b'.position = i ∧
      Follows start tape (crossed ++ [(.back, e)]) b' := by
  obtain ⟨s, s', hbefore, happly, hafter⟩ :=
    Replay.apply_getElem?_of_applyAll hfits (i := i) (by simpa using he)
  obtain ⟨s₀, hs₀, hreplay⟩ := h.replay_eq
  rw [hi] at hs₀
  obtain rfl : s₀ = s' := Except.ok.inj (hs₀.symm.trans hafter)
  have hundo := Replay.undo_apply (hascending.applyAll hbefore) happly
  refine ⟨⟨b.tape, i, s.remember (solutionMet (crossed ++ [(.back, e)]))⟩,
    ?_, rfl, h.tape_eq, ?_, ⟨s, hbefore, rfl⟩, ?_⟩
  · rw [Playback.back, hi, h.tape_eq]
    simp only [he, hreplay, Replay.undo_remember, hundo, solutionMet_append_singleton]
    rw [← h.tape_eq]
    rfl
  · exact Nat.le_of_lt (Array.getElem?_eq_some_iff.mp he).1
  · rw [solutionMet_append_singleton]
    exact (hi ▸ h.solution_behind).back he

/-- A move in either direction does not fail, and past an end of the tape it crosses nothing. -/
theorem Follows.move (h : Follows start tape crossed b) (hascending : start.Ascending)
    (hfits : start.applyAll tape.toList = .ok last) (d : Direction) :
    ∃ b', b.move d = .ok b' ∧ b'.position = stride tape.size b.position d ∧
      Follows start tape
        (crossed ++ ((between tape b.position d).map fun e => (d, e)).toList) b' := by
  have hstay (hnone : between tape b.position d = none) : Follows start tape
      (crossed ++ ((between tape b.position d).map fun e => (d, e)).toList) b := by
    rw [hnone]
    simpa using h
  cases d with
  | forward =>
    cases he : tape[b.position]? with
    | none =>
      refine ⟨b, ?_, ?_, hstay he⟩
      · rw [Playback.move, Playback.forward, h.tape_eq, he]
      · have hend := Array.getElem?_eq_none_iff.mp he
        have hle := h.position_le
        change b.position = min (b.position + 1) tape.size
        omega
    | some e =>
      obtain ⟨b', hmove, hposition, hfollows⟩ := h.forward hfits he
      refine ⟨b', hmove, ?_, ?_⟩
      · have hlt := (Array.getElem?_eq_some_iff.mp he).1
        rw [hposition, stride]
        omega
      · simpa [between, he] using hfollows
  | back =>
    cases hposition : b.position with
    | zero =>
      rw [hposition] at hstay
      refine ⟨b, ?_, hposition, hstay rfl⟩
      rw [Playback.move, Playback.back, hposition]
    | succ i =>
      have hlt : i < tape.size := by
        have hle := h.position_le
        omega
      have he : tape[i]? = some tape[i] := Array.getElem?_eq_getElem hlt
      obtain ⟨b', hmove, hback, hfollows⟩ := h.back hascending hfits hposition he
      exact ⟨b', hmove, hback, by simpa [between, he] using hfollows⟩

/-- A walk does not fail. The induction is on its moves. -/
theorem Follows.walk (h : Follows start tape crossed b) (hascending : start.Ascending)
    (hfits : start.applyAll tape.toList = .ok last) (directions : List Direction) :
    ∃ b', b.walk directions = .ok b' ∧
      b'.position = directions.foldl (stride tape.size) b.position ∧
      Follows start tape (crossed ++ crossings tape b.position directions) b' := by
  induction directions generalizing crossed b with
  | nil => exact ⟨b, rfl, rfl, by simpa [crossings] using h⟩
  | cons d rest ih =>
    obtain ⟨next, hmove, hposition, hnext⟩ := h.move hascending hfits d
    obtain ⟨b', hwalk, hend, hb'⟩ := ih hnext
    refine ⟨b', ?_, ?_, ?_⟩
    · rw [Playback.walk, List.foldlM_cons, hmove]
      exact hwalk
    · rw [hend, hposition, List.foldl_cons]
    · rw [crossings, ← List.append_assoc, ← hposition]
      exact hb'

end Playback

namespace Problem

open Playback (Direction stride crossings solutionMet)

variable {C R : Type} [Ord C] [Ord R] [DecidableEq R] [Std.TransOrd C] [Std.LawfulEqOrd C]
  [Std.TransOrd R] [Std.LawfulEqOrd R]

omit [DecidableEq R] in
theorem WellFormed.ascending_ofProblem {p : Problem C R} (hp : p.WellFormed) :
    (Replay.ofProblem p).Ascending :=
  ⟨SortedSet.ascending_ofList _, hp.targets_ascending.mapValues _⟩

/-- A walk along any tape whose events fit, in whatever order it moves forward and back, never
    fails. The replay that it leads to is the one of the events in front of its position, whatever
    way it took there; the solution it remembers is the one it crossed last, unless it crossed that
    one back. At the start of the tape the replay is as it was. -/
theorem Reachable.walk_path_independent {p : Problem C R} (hp : p.Reachable)
    {tape : Array (Event C R)} {last : Replay C R}
    (hfits : (Replay.ofProblem p).applyAll tape.toList = .ok last) (directions : List Direction) :
    ∃ b s, (Playback.load tape (.ofProblem p)).walk directions = .ok b ∧ b.tape = tape ∧
      b.position = directions.foldl (stride tape.size) 0 ∧
      (Replay.ofProblem p).applyAll (tape.toList.take b.position) = .ok s ∧
      b.replay = { s with lastSolution := solutionMet (crossings tape 0 directions) } ∧
      (b.position = 0 → b.replay = .ofProblem p) := by
  have hload : Playback.Follows (.ofProblem p) tape [] (Playback.load tape (.ofProblem p)) :=
    .load rfl
  obtain ⟨b, hwalk, hposition, hfollows⟩ :=
    hload.walk hp.wellFormed.ascending_ofProblem hfits directions
  obtain ⟨s, hupto, hreplay⟩ := hfollows.replay_eq
  refine ⟨b, s, hwalk, hfollows.tape_eq, hposition, hupto, hreplay, fun hzero => ?_⟩
  rw [hzero] at hupto
  cases hupto
  -- In front of the start no solution was reported.
  have hnone : solutionMet (crossings tape 0 directions) = none := by
    refine Option.eq_none_iff_forall_ne_some.mpr fun rows hrows => ?_
    obtain ⟨i, hi, -⟩ := hfollows.solution_behind rows hrows
    omega
  exact hreplay.trans (congrArg (Replay.ofProblem p).remember hnone)

/-- The empty solution is met first and another one later. Once the later one is taken back, the
    first one is not remembered either. -/
theorem Reachable.walk_forgets_both : ∃ (p : Problem Nat Nat) (b : Playback Nat Nat),
    (Playback.load #[.solution [], .select 7, .solution [7]] (.ofProblem p)).walk
      [.forward, .forward, .forward, .back] = .ok b ∧
    b.position = 2 ∧ b.replay.selection = [7] ∧ b.replay.lastSolution = none := by
  obtain ⟨p, hp, last, hfits, hbefore⟩ : ∃ p : Problem Nat Nat, p.Reachable ∧ ∃ last,
      (Replay.ofProblem p).applyAll (#[.solution [], .select 7, .solution [7]] : Array _).toList =
        .ok last ∧
      ∀ s, (Replay.ofProblem p).applyAll [.solution [], .select 7] = .ok s → s.selected = [7] := by
    refine ⟨_, .attempt (.addUnitRow 7 [1]) (.ofColumns (rfl : Problem.ofColumns [1] = .ok _)),
      _, rfl, fun s hs => ?_⟩
    cases hs
    rfl
  obtain ⟨b, s, hwalk, -, hposition, hupto, hreplay, -⟩ :=
    hp.walk_path_independent hfits [.forward, .forward, .forward, .back]
  have htwo : b.position = 2 := hposition
  rw [htwo] at hupto
  refine ⟨p, b, hwalk, htwo, ?_, ?_⟩
  · rw [hreplay, Replay.selection, hbefore s hupto]
    rfl
  · rw [hreplay]
    rfl

end Problem

end ExactCover
