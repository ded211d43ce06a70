import ExactCover.Observer
import Mathlib.Data.List.Basic

namespace ExactCover

variable {C R σ : Type}

/-- An event or a remark of a search. -/
inductive Note (C R : Type) where
  | event (e : Event C R)
  | remark (r : Remark)

namespace Note

/-- The event of a note, if it is one. -/
def event? : Note C R → Option (Event C R)
  | event e => some e
  | remark _ => none

/-- The events among some notes. -/
def events (notes : List (Note C R)) : List (Event C R) := notes.filterMap event?

/-- The same note under other labels. -/
def map {C' R' : Type} (f : C → C') (g : R → R') : Note C R → Note C' R'
  | event e => event (e.map f g)
  | remark r => remark r

@[simp]
theorem events_nil : events ([] : List (Note C R)) = [] := rfl

@[simp]
theorem events_remark (r : Remark) (notes : List (Note C R)) :
    events (.remark r :: notes) = events notes := rfl

@[simp]
theorem events_append (notes notes' : List (Note C R)) :
    events (notes ++ notes') = events notes ++ events notes' := List.filterMap_append

@[simp]
theorem events_map_event (es : List (Event C R)) : events (es.map event) = es := by
  induction es with
  | nil => rfl
  | cons e es ih => simpa [events, event?] using ih

theorem events_map {C' R' : Type} (f : C → C') (g : R → R') (notes : List (Note C R)) :
    events (notes.map (Note.map f g)) = (events notes).map (Event.map f g) := by
  induction notes with
  | nil => rfl
  | cons note notes ih =>
    cases note with
    | event e =>
      change (e.map f g) :: events (notes.map (Note.map f g)) = _
      rw [ih]
      rfl
    | remark r => exact ih

end Note

namespace Event

/-- The events of cells that are taken out of their lists, in their order. -/
def removals (cells : List (C × R)) : List (Event C R) :=
  cells.map fun (column, row) => .remove column row

/-- The events of cells that are put back into their lists, in their order. -/
def restorals (cells : List (C × R)) : List (Event C R) :=
  cells.map fun (column, row) => .restore column row

/-- The solutions among some events. -/
def solutions (events : List (Event C R)) : List (List R) :=
  events.filterMap fun
    | .solution rows => some rows
    | _ => none

@[simp]
theorem solutions_nil : solutions ([] : List (Event C R)) = [] := rfl

@[simp]
theorem solutions_select (row : R) (events : List (Event C R)) :
    solutions (.select row :: events) = solutions events := rfl

@[simp]
theorem solutions_deselect (row : R) (events : List (Event C R)) :
    solutions (.deselect row :: events) = solutions events := rfl

theorem removals_append (cells cells' : List (C × R)) :
    removals (cells ++ cells') = removals cells ++ removals cells' := List.map_append

theorem restorals_append (cells cells' : List (C × R)) :
    restorals (cells ++ cells') = restorals cells ++ restorals cells' := List.map_append

@[simp]
theorem solutions_append (events events' : List (Event C R)) :
    solutions (events ++ events') = solutions events ++ solutions events' := List.filterMap_append

@[simp]
theorem solutions_removals (cells : List (C × R)) : solutions (removals cells) = [] := by
  simp [solutions, removals]

@[simp]
theorem solutions_restorals (cells : List (C × R)) : solutions (restorals cells) = [] := by
  simp [solutions, restorals]

@[simp]
theorem solutions_flatMap_restorals {α : Type} (cells : α → List (C × R)) (xs : List α) :
    solutions (xs.flatMap fun x => restorals (cells x)) = [] := by
  induction xs with
  | nil => rfl
  | cons x xs ih => simp [ih]

theorem solutions_map {C' R' : Type} (f : C → C') (g : R → R') (events : List (Event C R)) :
    solutions (events.map (Event.map f g)) = (solutions events).map (List.map g) := by
  rw [solutions, solutions, List.filterMap_map, List.map_filterMap]
  refine List.filterMap_congr fun e _ => ?_
  cases e <;> rfl

end Event

/-- The solutions among some notes. -/
def Note.solutions (notes : List (Note C R)) : List (List R) := Event.solutions (Note.events notes)

@[simp]
theorem Note.solutions_nil : solutions ([] : List (Note C R)) = [] := rfl

@[simp]
theorem Note.solutions_remark (r : Remark) (notes : List (Note C R)) :
    solutions (.remark r :: notes) = solutions notes := rfl

@[simp]
theorem Note.solutions_solution (rows : List R) (notes : List (Note C R)) :
    solutions (.event (.solution rows) :: notes) = rows :: solutions notes := rfl

@[simp]
theorem Note.solutions_append (notes notes' : List (Note C R)) :
    solutions (notes ++ notes') = solutions notes ++ solutions notes' := by
  simp [solutions]

@[simp]
theorem Note.solutions_map_event (events : List (Event C R)) :
    solutions (events.map .event) = Event.solutions events := by
  simp [solutions]

/-- If one solution is reported among some events and the last event is a solution, it is that one
    and stands at the end. -/
theorem Note.events_of_getLast? {notes : List (Note C R)} {rows : List R}
    (hsolutions : solutions notes = [rows])
    (hlast : (events notes).getLast? = some (.solution rows)) :
    ∃ between, Event.solutions between = [] ∧ events notes = between ++ [.solution rows] := by
  obtain ⟨between, hbetween⟩ := List.getLast?_eq_some_iff.mp hlast
  refine ⟨between, ?_, hbetween⟩
  rw [solutions, hbetween, Event.solutions_append] at hsolutions
  exact List.append_left_eq_self.mp hsolutions

namespace Listener

/-- What a listener knows after a note. -/
def hear (l : Listener C R σ) : Note C R → σ → σ
  | .event e => l.handle e
  | .remark r => l.remark r

/-- What a listener knows after some notes. -/
def hearAll (l : Listener C R σ) (notes : List (Note C R)) (s : σ) : σ :=
  notes.foldl (fun s note => l.hear note s) s

theorem hearAll_append (l : Listener C R σ) (notes notes' : List (Note C R)) (s : σ) :
    l.hearAll (notes ++ notes') s = l.hearAll notes' (l.hearAll notes s) := List.foldl_append

/-- A listener under other labels hears the notes under its own labels. -/
theorem hearAll_rename {C' R' : Type} (f : C' → C) (g : R' → R) (l : Listener C R σ)
    (notes : List (Note C' R')) (s : σ) :
    (l.rename f g).hearAll notes s = l.hearAll (notes.map (Note.map f g)) s := by
  induction notes generalizing s with
  | nil => rfl
  | cons note notes ih =>
    have hhear : (l.rename f g).hear note s = l.hear (note.map f g) s := by
      cases note with
      | event e => cases e <;> rfl
      | remark r => rfl
    change (l.rename f g).hearAll notes ((l.rename f g).hear note s) = _
    rw [ih, hhear]
    rfl

/-- Keeps every event, oldest first. -/
def logging : Listener C R (Array (Event C R)) where
  toObserver := .log

/-- A log holds the events among the notes, after those it held before. -/
theorem hearAll_logging (notes : List (Note C R)) (log : Array (Event C R)) :
    (logging.hearAll notes log).toList = log.toList ++ Note.events notes := by
  induction notes generalizing log with
  | nil => simp [hearAll, Note.events]
  | cons note notes ih =>
    change (logging.hearAll notes (logging.hear note log)).toList = _
    rw [ih]
    cases note with
    | event e =>
      have hpush : logging.hear (.event e) log = log.push e := by cases e <;> rfl
      simp [hpush, Note.events, Note.event?]
    | remark r => rfl

end Listener

namespace Observer

/-- The listener that hears events and no remarks. -/
def listener (o : Observer C R σ) : Listener C R σ where
  toObserver := o

theorem handleAll_append (o : Observer C R σ) (events events' : List (Event C R)) (s : σ) :
    o.handleAll (events ++ events') s = o.handleAll events' (o.handleAll events s) :=
  List.foldl_append

/-- A reference handles an event as the observer behind it does, and leaves the rest of the state
    alone. -/
theorem handle_behind {τ : Type} (ref : Ref τ σ) (o : Observer C R σ) (e : Event C R) (s : τ) :
    (o.behind ref).handle e s = ref.set (o.handle e (ref.get s)) s := by
  cases e <;> rfl

/-- A reference handles any events as the observer behind it does. -/
theorem handleAll_behind {τ : Type} (ref : Ref τ σ) (o : Observer C R σ)
    (events : List (Event C R)) (s : τ) :
    (o.behind ref).handleAll events s = ref.set (o.handleAll events (ref.get s)) s := by
  induction events generalizing s with
  | nil => exact (ref.set_get s).symm
  | cons e events ih =>
    change (o.behind ref).handleAll events ((o.behind ref).handle e s) = _
    rw [ih, handle_behind, ref.get_set, ref.set_set]
    rfl

/-- Beside a journal an observer handles events as it does by itself. -/
theorem handle_journaled (o : Observer C R σ) (e : Event C R) (s : σ × Journal) :
    (Listener.journaled o).handle e s = (o.behind .first).handle e s := by
  cases e <;> rfl

/-- An observer takes notice of the events only. -/
theorem hearAll_listener (o : Observer C R σ) (notes : List (Note C R)) (s : σ) :
    o.listener.hearAll notes s = o.handleAll (Note.events notes) s := by
  induction notes generalizing s with
  | nil => rfl
  | cons note notes ih =>
    cases note with
    | event e => exact ih _
    | remark r => exact ih _

end Observer

end ExactCover
