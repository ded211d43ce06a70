import ExactCover.Proofs.Table.Reading

namespace ExactCover.Table

open Problem (Built)

/-- The rows typed of which at least one cell under a header is present. -/
def rowsKept (headers : List String) (commands : List Command) :
    List (String × List (Option String)) :=
  kept headers.length (rowsTyped commands)

/-- A problem is what was typed: its columns are the headers, each with the target in its target
    cell, and its rows are those with a present cell, each with the amounts in its cells. -/
structure Describes (headers : List String) (commands : List Command)
    (p : Problem String String) : Prop where
  columns_perm : p.columns.Perm headers
  target?_eq : ∀ header ∈ headers,
    p.target? header = some ((lastText commands header).elim 1 count)
  rows_perm : p.rows.keys.Perm ((rowsKept headers commands).map (·.1))
  amount?_eq : ∀ row ∈ rowsKept headers commands, ∀ i header, headers[i]? = some header →
    p.amount? row.1 header = (cellAt row.2 i).map count
  /-- There are no other amounts. -/
  of_amount? : ∀ name column, (p.amount? name column).isSome →
    name ∈ (rowsKept headers commands).map (·.1) ∧ column ∈ headers

section Rows

variable {rows : List (String × List (Option String))} {row : String × List (Option String)}

theorem FirstRepeated.not_nodup (h : FirstRepeated rows row) : ¬ (rows.map (·.1)).Nodup := by
  obtain ⟨before, after, rfl, -, hmem⟩ := h
  rw [List.map_append, List.nodup_append]
  rintro ⟨-, -, hdiffer⟩
  exact hdiffer row.1 hmem row.1 (List.mem_map_of_mem List.mem_cons_self) rfl

/-- A row with the cells that a table of a width keeps of it. -/
def fitted (width : Nat) (row : String × List (Option String)) : String × List (Option String) :=
  (row.1, fit width row.2)

theorem names_fitted (width : Nat) (rows : List (String × List (Option String))) :
    (rows.map (fitted width)).map (·.1) = rows.map (·.1) := by
  rw [List.map_map]
  rfl

/-- Cells that are dropped or filled in do not make a row blank or present. -/
theorem kept_fitted (width : Nat) (rows : List (String × List (Option String))) :
    kept width (rows.map (fitted width)) = (kept width rows).map (fitted width) := by
  rw [kept, List.filter_map, kept]
  refine congrArg (List.map (fitted width)) (List.filter_congr fun row _ => ?_)
  have hblank : Blank width (fit width row.2) ↔ Blank width row.2 :=
    forall₂_congr fun i hi => by rw [cellAt_fit hi]
  simp [fitted, hblank]

theorem FirstRepeated.of_fitted {width : Nat} (h : FirstRepeated (rows.map (fitted width)) row) :
    ∃ typed, row.1 = typed.1 ∧ FirstRepeated rows typed := by
  obtain ⟨before, after, hsplit, hnodup, hmem⟩ := h
  obtain ⟨before, rest, rfl, rfl, hrest⟩ := List.map_eq_append_iff.mp hsplit
  obtain ⟨typed, after, rfl, rfl, -⟩ := List.map_eq_cons_iff.mp hrest
  rw [names_fitted] at hnodup hmem
  exact ⟨typed, rfl, before, after, rfl, hnodup, hmem⟩

end Rows

variable {headers : List String} {commands : List Command} {t : Table}

theorem Typed.length_headings (h : Typed headers commands t) :
    t.headings.length = headers.length := by
  rw [← h.names_eq, List.length_map]

/-- The rows of a table that are not blank are those typed that are kept. -/
theorem Typed.kept_rows (h : Typed headers commands t) :
    kept t.headings.length t.rows = (rowsKept headers commands).map (fitted headers.length) := by
  have hrows : t.rows = (rowsTyped commands).map (fitted headers.length) := h.rows_eq
  rw [h.length_headings, hrows, kept_fitted, rowsKept]

/-- What is built from the headings and rows of a table is what was typed. -/
theorem Typed.describes (h : Typed headers commands t) {p : Problem String String}
    (hbuilt : Built (t.headings.map (·.name))
      (edits t.headings (kept t.headings.length t.rows)) p) :
    Describes headers commands p := by
  have hp := hbuilt.holds
  have hheadings := h.headings_eq (h.names_eq ▸ hp.nodup)
  have hnames : (Problem.rowsAdded (edits t.headings (kept t.headings.length t.rows))).map (·.1) =
      (rowsKept headers commands).map (·.1) := by
    rw [names_edits, h.kept_rows, names_fitted]
  refine ⟨h.names_eq ▸ hp.columns_perm, fun header hheader => ?_, ?_,
    fun row hrow i header hi => ?_, fun name column hamount => ?_⟩
  · have hheading : (⟨header, lastText commands header⟩ : Heading) ∈ t.headings := by
      rw [hheadings]
      exact List.mem_map_of_mem hheader
    exact target?_of_built hbuilt hheading
  · refine (List.perm_ext_iff_of_nodup hp.wellFormed.rows_ascending.keys_nodup
      (hnames ▸ hp.rows_nodup)).mpr fun name => ?_
    rw [hp.mem_rows, hnames]
  · have hheading : t.headings[i]? = some ⟨header, lastText commands header⟩ := by
      rw [hheadings, List.getElem?_map, hi]
      rfl
    have hfitted : fitted headers.length row ∈ kept t.headings.length t.rows := by
      rw [h.kept_rows]
      exact List.mem_map_of_mem hrow
    rw [← cellAt_fit (List.getElem?_eq_some_iff.mp hi).1 row.2]
    exact amount?_of_built hbuilt hfitted hheading
  · obtain ⟨hname, hcolumn⟩ := hp.mem_of_amount? hamount
    rw [hnames] at hname
    rw [h.names_eq] at hcolumn
    exact ⟨hname, hcolumn⟩

/-- Whatever the headers and the commands are: a table with repeated headers is refused for the
    smallest of them. With different headers it is refused for the first row with a present cell
    whose name an earlier such row has. Otherwise it can be read, and the problem is what was
    typed. -/
theorem toProblem_run (headers : List String) (commands : List Command) :
    (∀ cell, CountsAs cell (count cell).toNat) ∧
    (¬ headers.Nodup → ∃ header,
      (run headers commands).toProblem = .error (.duplicateColumn header) ∧
      List.Duplicate header headers ∧
      ∀ other, List.Duplicate other headers → other = header ∨ compare header other = .lt) ∧
    (headers.Nodup → ¬ ((rowsKept headers commands).map (·.1)).Nodup → ∃ row,
      (run headers commands).toProblem = .error (.duplicateRow row.1) ∧
      FirstRepeated (rowsKept headers commands) row) ∧
    (headers.Nodup → ((rowsKept headers commands).map (·.1)).Nodup → ∃ p,
      (run headers commands).toProblem = .ok p ∧ Describes headers commands p) := by
  have ht := typed_run headers commands
  have hread (hnodup : headers.Nodup) :
      (∃ p, (run headers commands).toProblem = .ok p ∧ Describes headers commands p ∧
        ((rowsKept headers commands).map (·.1)).Nodup) ∨
      ∃ row, (run headers commands).toProblem = .error (.duplicateRow row.1) ∧
        FirstRepeated (rowsKept headers commands) row := by
    obtain ⟨p, hp, hbuilt⟩ | ⟨row, herror, hrepeated⟩ := read_spec (ht.names_eq.symm ▸ hnodup)
    · have hnames := hbuilt.holds.rows_nodup
      rw [names_edits, ht.kept_rows, names_fitted] at hnames
      exact .inl ⟨p, hp, ht.describes hbuilt, hnames⟩
    · rw [ht.kept_rows] at hrepeated
      obtain ⟨typed, hname, hfirst⟩ := hrepeated.of_fitted
      exact .inr ⟨typed, hname ▸ herror, hfirst⟩
  refine ⟨countsAs_count, fun hrepeat => ?_, fun hnodup hnames => ?_, fun hnodup hnames => ?_⟩
  · obtain ⟨hnodup, -⟩ | ⟨header, herror, hheader⟩ := Problem.ofColumns_spec (R := String) headers
    · exact absurd hnodup hrepeat
    · refine ⟨header, ?_, hheader⟩
      simp only [toProblem, read, ht.names_eq, herror, bind, Except.bind]
  · obtain ⟨p, -, -, hdiffer⟩ | hfailed := hread hnodup
    · exact absurd hdiffer hnames
    · exact hfailed
  · obtain ⟨p, hp, hdescribes, -⟩ | ⟨row, -, hfirst⟩ := hread hnodup
    · exact ⟨p, hp, hdescribes⟩
    · exact absurd hnames hfirst.not_nodup

/-- A table that can be read, with a row that is blank under the headers, one with a repeated row
    name and one with repeated headers. -/
theorem toProblem_of_three_tables :
    (∃ p, (run ["b", "a"] [.setTarget "a" "2", .setTarget "a" " +3", .pushRow "r" [some "x"],
        .pushRow "r" [none, none, some "9"], .pushRow "s" [none, some "07"]]).toProblem = .ok p ∧
      p.target? "a" = some 3 ∧ p.target? "b" = some 1 ∧ p.amount? "r" "b" = some 1 ∧
      p.amount? "r" "a" = none ∧ p.amount? "s" "a" = some 7) ∧
    (run ["a"] [.pushRow "r" [some ""], .pushRow "s" [], .pushRow "r" [some "4"]]).toProblem =
      .error (.duplicateRow "r") ∧
    (run ["b", "a", "b", "a"] [.setTarget "c" "0"]).toProblem = .error (.duplicateColumn "a") := by
  refine ⟨?_, ?_, ?_⟩
  · obtain ⟨-, -, -, hread⟩ := toProblem_run ["b", "a"] [.setTarget "a" "2", .setTarget "a" " +3",
      .pushRow "r" [some "x"], .pushRow "r" [none, none, some "9"],
      .pushRow "s" [none, some "07"]]
    obtain ⟨p, hp, hdescribes⟩ := hread (by decide) (by decide)
    refine ⟨p, hp, (hdescribes.target?_eq "a" (by decide)).trans (by decide +kernel),
      (hdescribes.target?_eq "b" (by decide)).trans (by decide +kernel), ?_, ?_, ?_⟩
    · exact (hdescribes.amount?_eq ("r", [some "x"]) (by decide) 0 "b" rfl).trans
        (by decide +kernel)
    · exact hdescribes.amount?_eq ("r", [some "x"]) (by decide) 1 "a" rfl
    · exact (hdescribes.amount?_eq ("s", [none, some "07"]) (by decide) 1 "a" rfl).trans
        (by decide +kernel)
  · obtain ⟨-, -, hrefused, -⟩ := toProblem_run ["a"]
      [.pushRow "r" [some ""], .pushRow "s" [], .pushRow "r" [some "4"]]
    obtain ⟨row, herror, before, after, hrows, -, -⟩ := hrefused (by decide) (by decide)
    have hnames : ∀ row ∈ rowsKept ["a"]
        [.pushRow "r" [some ""], .pushRow "s" [], .pushRow "r" [some "4"]], row.1 = "r" := by decide
    rwa [hnames row (by rw [hrows]; simp)] at herror
  · obtain ⟨-, hrefused, -, -⟩ := toProblem_run ["b", "a", "b", "a"] [.setTarget "c" "0"]
    obtain ⟨header, herror, hrepeated, hsmallest⟩ := hrefused (by decide)
    have hless := hsmallest "a" (by rw [List.duplicate_iff_two_le_count]; decide)
    have hall : ∀ header ∈ ["b", "a", "b", "a"],
        "a" = header ∨ compare header "a" = .lt → header = "a" := by decide
    rwa [hall header hrepeated.mem hless] at herror

end ExactCover.Table
