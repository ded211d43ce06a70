import ExactCover.Replay

namespace ExactCover

/-- A replay at a position of a tape. -/
structure Playback (C R : Type) where
  tape : Array (Event C R)
  /-- The number of events in front of the position. -/
  position : Nat
  replay : Replay C R

namespace Playback

variable {C R : Type} [Ord C] [Ord R] [DecidableEq R]

/-- The start of a tape, with a replay as it stands. -/
def load (tape : Array (Event C R)) (replay : Replay C R) : Playback C R := ⟨tape, 0, replay⟩

/-- Moves past the next event. At the end of the tape nothing happens. -/
def forward (b : Playback C R) : Except Replay.Fault (Playback C R) :=
  match b.tape[b.position]? with
  | none => .ok b
  | some e => (b.replay.apply e).map fun r => { b with position := b.position + 1, replay := r }

/-- Moves back before the last event. At the start of the tape nothing happens. -/
def back (b : Playback C R) : Except Replay.Fault (Playback C R) :=
  match b.position with
  | 0 => .ok b
  | position + 1 =>
    match b.tape[position]? with
    | none => .ok b
    | some e => (b.replay.undo e).map fun r => { b with position := position, replay := r }

/-- Repeats a move. -/
def moves (move : Playback C R → Except Replay.Fault (Playback C R)) :
    (count : Nat) → Playback C R → Except Replay.Fault (Playback C R)
  | 0, b => .ok b
  | count + 1, b => move b >>= moves move count

/-- Moves past a number of events, or past all that are left if there are fewer. -/
def forwardBy (b : Playback C R) (count : Nat) : Except Replay.Fault (Playback C R) :=
  b.moves forward (min count (b.tape.size - b.position))

/-- Moves back before a number of events, or to the start of the tape if there are fewer. -/
def backBy (b : Playback C R) (count : Nat) : Except Replay.Fault (Playback C R) :=
  b.moves back (min count b.position)

end Playback

end ExactCover
