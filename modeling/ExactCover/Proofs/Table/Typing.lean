import ExactCover.Table
import Mathlib.Data.List.Induction
import Mathlib.Data.List.Nodup

namespace ExactCover.Table

/-- What can be done to a table once it has its headers. -/
inductive Command where
  | setTarget (name cell : String)
  | pushRow (name : String) (cells : List (Option String))
deriving DecidableEq, Repr

/-- The table after a command. A target for a header that the table does not have changes
    nothing. -/
def command (t : Table) : Command → Table
  | .setTarget name cell =>
    match t.setTarget name cell with
    | .ok t => t
    | .error _ => t
  | .pushRow name cells => t.pushRow name cells

/-- The table with some headers after some commands. -/
def run (headers : List String) (commands : List Command) : Table :=
  commands.foldl command (ofHeaders headers)

/-- The text that a command puts into the target cell of a header. -/
def Command.text? (header : String) : Command → Option String
  | .setTarget name cell => if name = header then some cell else none
  | .pushRow _ _ => none

/-- The row that a command appends, with all its cells. -/
def Command.row? : Command → Option (String × List (Option String))
  | .setTarget _ _ => none
  | .pushRow name cells => some (name, cells)

/-- The text that was put last into the target cell of a header. -/
def lastText (commands : List Command) (header : String) : Option String :=
  (commands.filterMap (Command.text? header)).getLast?

/-- The rows that were appended, in their order. -/
def rowsTyped (commands : List Command) : List (String × List (Option String)) :=
  commands.filterMap Command.row?

/-- The cell of a row at a position, if it is present. -/
def cellAt (cells : List (Option String)) (i : Nat) : Option String := cells[i]?.join

/-- The cells that a table of a width keeps of a row. -/
def fit (width : Nat) (cells : List (Option String)) : List (Option String) :=
  cells.take width ++ List.replicate (width - cells.length) none

/-- A heading after the target cell under a name was filled. -/
def fill (name cell : String) (heading : Heading) : Heading :=
  if heading.name = name then { heading with target := some cell } else heading

variable {name cell : String} {headings : List Heading}

theorem names_of_fillTarget {filled : List Heading}
    (h : fillTarget name cell headings = some filled) :
    filled.map (·.name) = headings.map (·.name) := by
  induction headings generalizing filled with
  | nil => cases h
  | cons heading headings ih =>
    rw [fillTarget] at h
    split at h
    · cases h
      rfl
    · obtain ⟨rest, hrest, rfl⟩ := Option.map_eq_some_iff.mp h
      rw [List.map_cons, List.map_cons, ih hrest]

/-- Among different headers the only one of the name is filled. -/
theorem fillTarget_of_nodup (h : (headings.map (·.name)).Nodup) :
    fillTarget name cell headings =
      if name ∈ headings.map (·.name) then some (headings.map (fill name cell)) else none := by
  induction headings with
  | nil => rfl
  | cons heading headings ih =>
    obtain ⟨hfresh, hrest⟩ := List.nodup_cons.mp h
    rw [fillTarget, List.map_cons, List.map_cons]
    by_cases heq : heading.name = name
    · subst heq
      have hothers : headings.map (fill heading.name cell) = headings := by
        refine (List.map_congr_left fun other hother => ?_).trans (List.map_id _)
        exact if_neg fun hsame => hfresh (List.mem_map.mpr ⟨other, hother, hsame⟩)
      rw [if_pos rfl, if_pos List.mem_cons_self, hothers, fill, if_pos rfl]
    · rw [if_neg heq, ih hrest, fill, if_neg heq]
      simp only [List.mem_cons, Ne.symm heq, false_or]
      split <;> rfl

theorem cellAt_fit {width i : Nat} (h : i < width) (cells : List (Option String)) :
    cellAt (fit width cells) i = cellAt cells i := by
  rw [cellAt, cellAt, fit]
  by_cases hi : i < cells.length
  · rw [List.getElem?_append_left (by simp; omega), List.getElem?_take_of_lt h]
  · rw [List.getElem?_append_right (by simp; omega), List.getElem?_replicate_of_lt (by simp; omega),
      List.getElem?_eq_none (by omega)]
    rfl

/-- A table is what was typed: its headers, the last texts in its target cells and its rows, as far
    as they fit. -/
structure Typed (headers : List String) (commands : List Command) (t : Table) : Prop where
  names_eq : t.headings.map (·.name) = headers
  headings_eq : headers.Nodup →
    t.headings = headers.map fun header => ⟨header, lastText commands header⟩
  rows_eq : t.rows = (rowsTyped commands).map fun row => (row.1, fit headers.length row.2)

variable {headers : List String} {commands : List Command} {t : Table}

theorem typed_ofHeaders (headers : List String) : Typed headers [] (ofHeaders headers) := by
  refine ⟨?_, fun _ => rfl, rfl⟩
  rw [ofHeaders, List.map_map]
  exact List.map_id _

theorem Typed.setTarget (h : Typed headers commands t) (name cell : String) :
    Typed headers (commands ++ [.setTarget name cell]) (t.command (.setTarget name cell)) := by
  have hrows : rowsTyped (commands ++ [.setTarget name cell]) = rowsTyped commands := by
    simp [rowsTyped, Command.row?]
  have hlast (header : String) : lastText (commands ++ [.setTarget name cell]) header =
      if name = header then some cell else lastText commands header := by
    rw [lastText, List.filterMap_append]
    split <;> simp_all [Command.text?, lastText]
  have hfill : headers.Nodup → fillTarget name cell t.headings =
      if name ∈ headers then some (t.headings.map (fill name cell)) else none := fun hnodup => by
    rw [fillTarget_of_nodup (h.names_eq ▸ hnodup), h.names_eq]
  rw [command, Table.setTarget]
  cases hfilled : fillTarget name cell t.headings with
  | none =>
    refine ⟨h.names_eq, fun hnodup => ?_, hrows ▸ h.rows_eq⟩
    rw [hfill hnodup] at hfilled
    rw [h.headings_eq hnodup]
    refine List.map_congr_left fun header hheader => ?_
    rw [hlast, if_neg]
    rintro rfl
    rw [if_pos hheader] at hfilled
    cases hfilled
  | some filled =>
    refine ⟨(names_of_fillTarget hfilled).trans h.names_eq, fun hnodup => ?_, hrows ▸ h.rows_eq⟩
    rw [hfill hnodup] at hfilled
    split at hfilled
    · obtain rfl := Option.some.inj hfilled
      rw [h.headings_eq hnodup, List.map_map]
      refine List.map_congr_left fun header _ => ?_
      rw [Function.comp_apply, fill, hlast]
      by_cases heq : header = name <;> simp [heq, Ne.symm]
    · cases hfilled

theorem Typed.pushRow (h : Typed headers commands t) (name : String)
    (cells : List (Option String)) :
    Typed headers (commands ++ [.pushRow name cells]) (t.pushRow name cells) := by
  have hwidth : t.headings.length = headers.length := by rw [← h.names_eq, List.length_map]
  have hlast : lastText (commands ++ [.pushRow name cells]) = lastText commands := by
    funext header
    rw [lastText, List.filterMap_append]
    exact congrArg List.getLast? (List.append_nil _)
  refine ⟨h.names_eq, fun hnodup => hlast ▸ h.headings_eq hnodup, ?_⟩
  rw [Table.pushRow, rowsTyped, List.filterMap_append, List.map_append, hwidth, h.rows_eq]
  rfl

/-- Whatever the commands are, the table is what they typed. -/
theorem typed_run (headers : List String) (commands : List Command) :
    Typed headers commands (run headers commands) := by
  induction commands using List.reverseRecOn with
  | nil => exact typed_ofHeaders headers
  | append_singleton commands c ih =>
    rw [run, List.foldl_append]
    cases c with
    | setTarget name cell => exact ih.setTarget name cell
    | pushRow name cells => exact ih.pushRow name cells

end ExactCover.Table
