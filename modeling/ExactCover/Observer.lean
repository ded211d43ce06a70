import ExactCover.Event
import ExactCover.Statistics

namespace ExactCover

/-- Handlers for the events of a search, over a state `σ`. A handler that is left out ignores its
    events. Nothing comes back from a handler, so an observer cannot change the course of a search.
    -/
structure Observer (C R σ : Type) where
  /-- A row joins (`true`) or leaves (`false`) the partial solution. -/
  rowSelect : R → Bool → σ → σ := fun _ _ s => s
  /-- A row leaves the rows that cover a column. -/
  columnRemove : C → R → σ → σ := fun _ _ s => s
  /-- A row comes back to the rows that cover a column. -/
  columnRestore : C → R → σ → σ := fun _ _ s => s
  /-- The partial solution, oldest row first, reaches every target exactly. -/
  solutionFound : List R → σ → σ := fun _ s => s

/-- What a search remarks about its own course. -/
inductive Remark where
  /-- The search begins on a problem with this many columns, rows and incidences. -/
  | starting (columns rows incidences : Nat)
  /-- A solution of this many rows is complete. -/
  | solutionFound (rows : Nat)
  /-- The row selected last, of this many, takes some column past its target. -/
  | overshoot (depth : Nat)
  /-- The search is over. -/
  | exhausted (statistics : Statistics)
deriving DecidableEq, Repr

/-- An observer that hears the remarks of the search too, each in its place among the events. -/
structure Listener (C R σ : Type) extends Observer C R σ where
  remark : Remark → σ → σ := fun _ s => s

/-- A reference to a part of a state: what the part is, and how the state becomes one with another
    part in its place. -/
structure Ref (τ σ : Type) where
  get : τ → σ
  set : σ → τ → τ
  get_set : ∀ x s, get (set x s) = x
  set_get : ∀ s, set (get s) s = s
  /-- Nothing but the part changes, so what was put there before is forgotten. -/
  set_set : ∀ x y s, set x (set y s) = set x s

/-- The first part of a pair. -/
def Ref.first {σ τ : Type} : Ref (σ × τ) σ where
  get := Prod.fst
  set x s := (x, s.2)
  get_set _ _ := rfl
  set_get _ := rfl
  set_set _ _ _ := rfl

namespace Observer

variable {C R σ : Type}

/-- The state after one event. -/
def handle (o : Observer C R σ) : Event C R → σ → σ
  | .select row => o.rowSelect row true
  | .deselect row => o.rowSelect row false
  | .remove column row => o.columnRemove column row
  | .restore column row => o.columnRestore column row
  | .solution rows => o.solutionFound rows

/-- The state after some events. -/
def handleAll (o : Observer C R σ) (events : List (Event C R)) (s : σ) : σ :=
  events.foldl (fun s e => o.handle e s) s

/-- The observer that handles every event by one function. -/
def ofEvents (f : Event C R → σ → σ) : Observer C R σ where
  rowSelect row selecting := f (if selecting then .select row else .deselect row)
  columnRemove column row := f (.remove column row)
  columnRestore column row := f (.restore column row)
  solutionFound rows := f (.solution rows)

/-- The observer behind a reference. Every event goes on to it, with the part of the state that is
    its own. -/
def behind {τ : Type} (ref : Ref τ σ) (o : Observer C R σ) : Observer C R τ where
  rowSelect row selecting s := ref.set (o.rowSelect row selecting (ref.get s)) s
  columnRemove column row s := ref.set (o.columnRemove column row (ref.get s)) s
  columnRestore column row s := ref.set (o.columnRestore column row (ref.get s)) s
  solutionFound rows s := ref.set (o.solutionFound rows (ref.get s)) s

/-- Ignores every event. -/
def silent : Observer C R σ := {}

/-- Keeps every event, oldest first. -/
def log : Observer C R (Array (Event C R)) := ofEvents fun e log => log.push e

/-- Counts the rows that join and the rows that leave the partial solution. -/
def selectionCounts : Observer C R (Nat × Nat) where
  rowSelect _ selecting counts :=
    if selecting then (counts.1 + 1, counts.2) else (counts.1, counts.2 + 1)

/-- Reports every event to a journal. -/
def reporting [Label C] [Label R] : Observer C R Journal :=
  ofEvents fun e journal => journal.push e.report

end Observer

/-- The report that a remark becomes in the journal. -/
def Remark.report (r : Remark) : Report :=
  let (detail, message, fields) := match r with
    | starting columns rows incidences =>
      (Detail.debug, "starting cover search", [("columns", Decimal.ofNat columns),
        ("rows", Decimal.ofNat rows), ("nodes", Decimal.ofNat incidences)])
    | solutionFound rows => (.trace, "solution found", [("rows", Decimal.ofNat rows)])
    | overshoot depth =>
      (.trace, "row overshoots a column target", [("depth", Decimal.ofNat depth)])
    | exhausted statistics =>
      (.debug, "cover search exhausted", [("statistics", statistics.text)])
  ⟨detail, .solver, message, fields⟩

namespace Listener

variable {C R σ : Type}

/-- An observer beside which a journal is kept. -/
def journaled (o : Observer C R σ) : Listener C R (σ × Journal) where
  toObserver := .ofEvents fun e (s, journal) => (o.handle e s, journal)
  remark r := fun (s, journal) => (s, journal.push r.report)

/-- Reports events and remarks to one journal. -/
def reporting [Label C] [Label R] : Listener C R Journal where
  toObserver := .reporting
  remark r journal := journal.push r.report

/-- Listens to a search whose columns and rows go by other names. -/
def rename {C' R' : Type} (f : C' → C) (g : R' → R) (l : Listener C R σ) : Listener C' R' σ where
  toObserver := .ofEvents fun e => l.handle (e.map f g)
  remark := l.remark

end Listener

end ExactCover
