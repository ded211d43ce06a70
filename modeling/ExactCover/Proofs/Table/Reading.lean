import ExactCover.Proofs.Problem.Rows
import ExactCover.Proofs.Table.Cell
import ExactCover.Proofs.Table.Typing

namespace ExactCover

namespace Table

open Problem (Edit Built rowsAdded lastTarget settings)

variable {headings : List Heading} {cells : List (Option String)}

/-- The entries of a row are its present cells at the positions of headings. -/
theorem mem_entries {column : String} {amount : Amount} :
    (column, amount) ∈ entries headings cells ↔ ∃ i heading, headings[i]? = some heading ∧
      heading.name = column ∧ (cellAt cells i).map count = some amount := by
  rw [entries, List.mem_filterMap, Prod.exists]
  simp only [List.mem_iff_getElem?, List.getElem?_zip_eq_some]
  constructor
  · rintro ⟨heading, cell, ⟨i, hheading, hcell⟩, hentry⟩
    obtain ⟨text, rfl, htext⟩ := Option.map_eq_some_iff.mp hentry
    obtain ⟨rfl, rfl⟩ := Prod.mk.inj htext
    exact ⟨i, heading, hheading, rfl, by rw [cellAt, hcell]; rfl⟩
  · rintro ⟨i, heading, hheading, rfl, hcount⟩
    obtain ⟨text, htext, rfl⟩ := Option.map_eq_some_iff.mp hcount
    exact ⟨heading, some text, ⟨i, hheading, Option.join_eq_some_iff.mp htext⟩, rfl⟩

theorem names_entries_sublist (headings : List Heading) (cells : List (Option String)) :
    ((entries headings cells).map (·.1)).Sublist (headings.map (·.name)) := by
  induction headings generalizing cells with
  | nil => exact .slnil
  | cons heading headings ih =>
    cases cells with
    | nil => exact List.nil_sublist _
    | cons cell cells =>
      cases cell with
      | none => exact (ih cells).cons _
      | some text => exact (ih cells).cons_cons _

/-- Whether no cell of a row is present at the positions below a width. -/
def Blank (width : Nat) (cells : List (Option String)) : Prop := ∀ i < width, cellAt cells i = none

instance (width : Nat) (cells : List (Option String)) : Decidable (Blank width cells) :=
  inferInstanceAs (Decidable (∀ i < width, cellAt cells i = none))

/-- A row has no entries just if it is blank. -/
theorem entries_eq_nil_iff : entries headings cells = [] ↔ Blank headings.length cells := by
  rw [List.eq_nil_iff_forall_not_mem]
  constructor
  · intro h i hi
    cases hcell : cellAt cells i with
    | none => rfl
    | some text =>
      have hentry := mem_entries.mpr
        ⟨i, headings[i], List.getElem?_eq_getElem hi, rfl, congrArg (Option.map count) hcell⟩
      exact absurd hentry (h _)
  · rintro h ⟨column, amount⟩ hentry
    obtain ⟨i, heading, hheading, -, hcount⟩ := mem_entries.mp hentry
    rw [h i (List.getElem?_eq_some_iff.mp hheading).1] at hcount
    cases hcount

/-- Under different headers the cell at the position of a heading is its only entry. -/
theorem mem_entries_iff_of_nodup (hnodup : (headings.map (·.name)).Nodup) {i : Nat}
    {heading : Heading} (hheading : headings[i]? = some heading) {amount : Amount} :
    (heading.name, amount) ∈ entries headings cells ↔
      (cellAt cells i).map count = some amount := by
  rw [mem_entries]
  constructor
  · rintro ⟨j, other, hother, hname, hcount⟩
    -- An entry of that name comes from some position, and different headers leave only this one.
    have hsame : (headings.map (·.name))[j]? = (headings.map (·.name))[i]? := by
      rw [List.getElem?_map, List.getElem?_map, hother, hheading]
      exact congrArg some hname
    have hj : j < (headings.map (·.name)).length := by
      rw [List.length_map]
      exact (List.getElem?_eq_some_iff.mp hother).1
    obtain rfl := (List.getElem?_inj hj hnodup).mp hsame
    exact hcount
  · intro hcount
    exact ⟨i, heading, hheading, rfl, hcount⟩

/-- Under different headers a row gives to a column what its cell counts as, and nothing if the cell
    is missing. -/
theorem listed_entries (hnodup : (headings.map (·.name)).Nodup) {i : Nat} {heading : Heading}
    (hheading : headings[i]? = some heading) (cells : List (Option String)) :
    Problem.listed (entries headings cells) heading.name =
      (cellAt cells i).elim 0 fun text => (count text).toNat := by
  cases hcell : cellAt cells i with
  | none =>
    refine Problem.listed_of_not_mem fun hmem => ?_
    obtain ⟨⟨column, amount⟩, hentry, hcolumn⟩ := List.mem_map.mp hmem
    obtain rfl : column = heading.name := hcolumn
    rw [mem_entries_iff_of_nodup hnodup hheading, hcell] at hentry
    cases hentry
  | some text =>
    exact Problem.listed_of_mem (hnodup.sublist (names_entries_sublist headings cells))
      ((mem_entries_iff_of_nodup hnodup hheading).mpr (congrArg (Option.map count) hcell))

/-- The edit that the target cell of a heading stands for. -/
def targetEdit? (heading : Heading) : Option (Edit String String) :=
  heading.target.map fun cell => .setTarget heading.name (count cell)

/-- The edit that a row stands for. -/
def rowEdit (headings : List Heading) (row : String × List (Option String)) : Edit String String :=
  .addRow row.1 (entries headings row.2)

/-- The edits that headings and rows stand for. -/
def edits (headings : List Heading) (rows : List (String × List (Option String))) :
    List (Edit String String) :=
  headings.filterMap targetEdit? ++ rows.map (rowEdit headings)

/-- The rows with a present cell. -/
def kept (width : Nat) (rows : List (String × List (Option String))) :
    List (String × List (Option String)) :=
  rows.filter fun row => ¬ Blank width row.2

/-- A row is the first one with the name of an earlier row. -/
def FirstRepeated (rows : List (String × List (Option String)))
    (row : String × List (Option String)) : Prop :=
  ∃ before after, rows = before ++ row :: after ∧ (before.map (·.1)).Nodup ∧
    row.1 ∈ before.map (·.1)

variable {rows : List (String × List (Option String))} {p : Problem String String}

/-- The target cells are read like the cells of a row. -/
theorem targetEdits_eq (headings : List Heading) : headings.filterMap targetEdit? =
    (entries headings (headings.map (·.target))).map fun e => .setTarget e.1 e.2 := by
  induction headings with
  | nil => rfl
  | cons heading headings ih =>
    obtain ⟨name, target⟩ := heading
    cases target with
    | none => exact ih
    | some cell =>
      have hentries :
          entries (⟨name, some cell⟩ :: headings) (some cell :: headings.map (·.target)) =
          (name, count cell) :: entries headings (headings.map (·.target)) := rfl
      have hedits : (⟨name, some cell⟩ :: headings).filterMap targetEdit? =
          .setTarget name (count cell) :: headings.filterMap targetEdit? := rfl
      rw [hedits, List.map_cons, hentries, List.map_cons, ih]

theorem rowsAdded_edits (headings : List Heading) (rows : List (String × List (Option String))) :
    rowsAdded (edits headings rows) = rows.map fun row => (row.1, entries headings row.2) := by
  rw [edits, targetEdits_eq, Problem.rowsAdded_setTargets]
  exact Problem.rowsAdded_map (fun _ => rfl) rows

theorem names_edits (headings : List Heading) (rows : List (String × List (Option String))) :
    (rowsAdded (edits headings rows)).map (·.1) = rows.map (·.1) := by
  rw [rowsAdded_edits, List.map_map]
  rfl

theorem settings_edits (headings : List Heading) (rows : List (String × List (Option String))) :
    settings (edits headings rows) = .ofList (entries headings (headings.map (·.target))) := by
  rw [edits, targetEdits_eq]
  exact Problem.settings_setTargets _ (List.forall_mem_map.mpr fun _ _ => rfl)

/-- Under different headers a column has the target in its own target cell. -/
theorem lastTarget_edits (hnodup : (headings.map (·.name)).Nodup) {heading : Heading}
    (hheading : heading ∈ headings) :
    lastTarget (edits headings rows) heading.name = heading.target.elim 1 count := by
  obtain ⟨i, hi⟩ := List.mem_iff_getElem?.mp hheading
  have hcell : cellAt (headings.map (·.target)) i = heading.target := by
    rw [cellAt, List.getElem?_map, hi]
    rfl
  have hget : (settings (edits headings rows)).get? heading.name = heading.target.map count := by
    refine Option.ext fun amount => ?_
    rw [settings_edits, SortedMap.get?_ofList (hnodup.sublist (names_entries_sublist ..)),
      mem_entries_iff_of_nodup hnodup hi, hcell]
  rw [lastTarget, hget]
  cases heading.target <;> rfl

/-- The targets of known columns are all accepted. -/
theorem readTargets_spec {columns : List String} {before : List (Edit String String)}
    (h : Built columns before p) (hcolumns : ∀ heading ∈ headings, heading.name ∈ columns) :
    ∃ q, readTargets headings p = .ok q ∧
      Built columns (before ++ headings.filterMap targetEdit?) q := by
  induction headings generalizing before p with
  | nil => exact ⟨p, rfl, (List.append_nil before).symm ▸ h⟩
  | cons heading headings ih =>
    obtain ⟨hcolumn, hcolumns⟩ := List.forall_mem_cons.mp hcolumns
    rw [readTargets, List.foldlM_cons]
    cases htarget : heading.target with
    | none =>
      have hnone : targetEdit? heading = none := by rw [targetEdit?, htarget]; rfl
      rw [List.filterMap_cons_none hnone]
      exact ih h hcolumns
    | some cell =>
      have hsome : targetEdit? heading = some (.setTarget heading.name (count cell)) := by
        rw [targetEdit?, htarget]; rfl
      have hwell := h.holds.wellFormed
      have hknown := (SortedMap.contains_iff hwell.targets_ascending).mpr
        (h.holds.columns_perm.mem_iff.mpr hcolumn)
      have hset := Problem.setTarget_of_contains hknown
        (Problem.amount_pos_iff.mp (count_pos cell))
      rw [List.filterMap_cons_some hsome, List.append_cons]
      obtain ⟨q, hread, hbuilt⟩ := ih (h.accept (e := .setTarget _ _) hset) hcolumns
      refine ⟨q, ?_, hbuilt⟩
      dsimp only
      rw [hset]
      exact hread

theorem mem_rows_of_built (h : Built (headings.map (·.name)) (edits headings rows) p)
    {name : String} : name ∈ p.rows.keys ↔ name ∈ rows.map (·.1) := by
  rw [h.holds.mem_rows, names_edits]

/-- Under different headers a row with a present cell is accepted if its name is new. -/
theorem exists_addRow (h : Built (headings.map (·.name)) (edits headings rows) p)
    (row : String × List (Option String)) (hrow : ¬ Blank headings.length row.2)
    (hname : row.1 ∉ rows.map (·.1)) :
    ∃ q, p.addRow row.1 (entries headings row.2) = .ok q ∧
      Built (headings.map (·.name)) (edits headings (rows ++ [row])) q := by
  have hsublist := names_entries_sublist headings row.2
  have hacceptable : p.Acceptable row.1 (entries headings row.2) := {
    fresh := (mem_rows_of_built h).not.mpr hname
    ne_nil := entries_eq_nil_iff.not.mpr hrow
    mem_columns := fun e he =>
      h.holds.columns_perm.mem_iff.mpr (hsublist.subset (List.mem_map_of_mem he))
    amount_pos := fun e he => by
      obtain ⟨i, heading, -, -, hcount⟩ := mem_entries.mp he
      obtain ⟨text, -, hamount⟩ := Option.map_eq_some_iff.mp hcount
      exact hamount ▸ count_pos text
    listed_le := Problem.listed_le_of_nodup (h.holds.nodup.sublist hsublist) }
  obtain ⟨q, hadd⟩ := hacceptable.exists_addRow h.holds.wellFormed
  refine ⟨q, hadd, ?_⟩
  rw [edits, List.map_append, ← List.append_assoc]
  exact h.accept (e := rowEdit headings row) hadd

/-- A blank row is skipped. -/
theorem problem_readRows_of_blank {name : String} (h : Blank headings.length cells) :
    (readRows headings p ((name, cells) :: rows)).problem = (readRows headings p rows).problem := by
  simp only [readRows, entries_eq_nil_iff.mpr h]

/-- A row with a present cell is added before the others are read. -/
theorem problem_readRows_of_not_blank {name : String} (h : ¬ Blank headings.length cells) :
    (readRows headings p ((name, cells) :: rows)).problem =
      p.addRow name (entries headings cells) >>= fun p => (readRows headings p rows).problem := by
  rw [readRows]
  split
  · rename_i hnil
    exact absurd (entries_eq_nil_iff.mp hnil) h
  · cases p.addRow name (entries headings cells) <;> rfl

/-- All rows are read, or reading stops at the first row with the name of an earlier one. -/
theorem readRows_spec {done : List (String × List (Option String))}
    (h : Built (headings.map (·.name)) (edits headings done) p)
    (rows : List (String × List (Option String))) :
    (∃ q, (readRows headings p rows).problem = .ok q ∧
      Built (headings.map (·.name)) (edits headings (done ++ kept headings.length rows)) q) ∨
    ∃ row, (readRows headings p rows).problem = .error (.duplicateRow row.1) ∧
      FirstRepeated (done ++ kept headings.length rows) row := by
  -- What was built tells which names are taken: those of the rows in `done`.
  induction rows generalizing done p with
  | nil => exact .inl ⟨p, rfl, (List.append_nil done).symm ▸ h⟩
  | cons row rows ih =>
    obtain ⟨name, cells⟩ := row
    by_cases hblank : Blank headings.length cells
    · have hkept : kept headings.length ((name, cells) :: rows) = kept headings.length rows :=
        List.filter_cons_of_neg (by simpa using hblank)
      rw [problem_readRows_of_blank hblank, hkept]
      exact ih h
    · have hkept : kept headings.length ((name, cells) :: rows) =
          (name, cells) :: kept headings.length rows :=
        List.filter_cons_of_pos (by simpa using hblank)
      rw [problem_readRows_of_not_blank hblank, hkept]
      by_cases hname : name ∈ done.map (·.1)
      · have htaken : p.Refuses name (entries headings cells) (.duplicateRow name) :=
          .duplicateRow ((mem_rows_of_built h).mpr hname)
        have hrefused := htaken.addRow h.holds.wellFormed
        rw [hrefused]
        have hdone : (done.map (·.1)).Nodup := names_edits headings done ▸ h.holds.rows_nodup
        exact .inr ⟨(name, cells), rfl, done, _, rfl, hdone, hname⟩
      · obtain ⟨q, hadd, hbuilt⟩ := exists_addRow h (name, cells) hblank hname
        rw [hadd, List.append_cons]
        exact ih hbuilt

/-- A column has the target in its target cell. -/
theorem target?_of_built (h : Built (headings.map (·.name)) (edits headings rows) p)
    {heading : Heading} (hheading : heading ∈ headings) :
    p.target? heading.name = some (heading.target.elim 1 count) := by
  rw [h.holds.target?_eq _ (List.mem_map_of_mem hheading),
    lastTarget_edits h.holds.nodup hheading]

/-- A row gives to a column the amount in its cell. -/
theorem amount?_of_built (h : Built (headings.map (·.name)) (edits headings rows) p)
    {row : String × List (Option String)} (hrow : row ∈ rows) {i : Nat} {heading : Heading}
    (hheading : headings[i]? = some heading) :
    p.amount? row.1 heading.name = (cellAt row.2 i).map count := by
  have hadded : (row.1, entries headings row.2) ∈ rowsAdded (edits headings rows) := by
    rw [rowsAdded_edits]
    exact List.mem_map.mpr ⟨row, hrow, rfl⟩
  refine Problem.map_toNat_injective ?_
  rw [h.holds.map_amount? hadded, listed_entries h.holds.nodup hheading]
  cases cellAt row.2 i with
  | none => rfl
  | some text => exact if_neg (count_pos text).ne'

/-- Reading a table with different headers. -/
theorem read_spec {t : Table} (hnodup : (t.headings.map (·.name)).Nodup) :
    (∃ p, t.toProblem = .ok p ∧
      Built (t.headings.map (·.name)) (edits t.headings (kept t.headings.length t.rows)) p) ∨
    ∃ row, t.toProblem = .error (.duplicateRow row.1) ∧
      FirstRepeated (kept t.headings.length t.rows) row := by
  obtain ⟨-, hblank⟩ | ⟨header, -, hagain, -⟩ :=
    Problem.ofColumns_spec (R := String) (t.headings.map (·.name))
  · obtain ⟨p, htargets, hbuilt⟩ := readTargets_spec (.blank hblank)
      fun heading (hheading : heading ∈ t.headings) => List.mem_map_of_mem hheading
    have hstart : Built (t.headings.map (·.name)) (edits t.headings []) p := by
      rwa [edits, List.map_nil, List.append_nil]
    have hread : t.toProblem = (readRows t.headings p t.rows).problem := by
      simp only [toProblem, read, hblank, htargets, bind, Except.bind]
    rw [hread]
    exact readRows_spec hstart t.rows
  · exact absurd hnodup (List.exists_duplicate_iff_not_nodup.mp ⟨header, hagain⟩)

end Table

end ExactCover
