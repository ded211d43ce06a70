import ExactCover.Proofs.Problem.Rows

namespace ExactCover

/-- The value that the last entry of a key gives. -/
def lastValue {α β : Type} [DecidableEq α] (entries : List (α × β)) (key : α) : Option β :=
  (entries.filterMap fun entry => if entry.1 = key then some entry.2 else none).getLast?

theorem lastValue_concat {α β : Type} [DecidableEq α] (entries : List (α × β)) (key last : α)
    (value : β) : lastValue (entries ++ [(last, value)]) key =
      if last = key then some value else lastValue entries key := by
  rw [lastValue, List.filterMap_append]
  by_cases h : last = key <;> simp [h, lastValue]

/-- The last of changed values is the last value, changed. -/
theorem lastValue_map {α β γ : Type} [DecidableEq α] (f : β → γ) (entries : List (α × β))
    (key : α) : lastValue (entries.map fun entry => (entry.1, f entry.2)) key =
      (lastValue entries key).map f := by
  induction entries using List.reverseRecOn with
  | nil => rfl
  | append_singleton entries entry ih =>
    obtain ⟨last, value⟩ := entry
    rw [List.map_append, List.map_singleton, lastValue_concat, lastValue_concat, ih]
    split <;> rfl

/-- A map that is built from entries has the value of the last entry of a key. -/
theorem SortedMap.get?_ofList_eq_lastValue {α β : Type} [Ord α] [Std.TransOrd α]
    [Std.LawfulEqOrd α] [DecidableEq α] (entries : List (α × β)) (key : α) :
    (ofList entries).get? key = lastValue entries key := by
  induction entries using List.reverseRecOn with
  | nil => rfl
  | append_singleton entries entry ih =>
    obtain ⟨last, value⟩ := entry
    rw [ofList_concat, lastValue_concat]
    by_cases h : last = key
    · subst h
      rw [get?_insert_self (ascending_ofList entries), if_pos rfl]
    · rw [get?_insert_of_ne (ascending_ofList entries) (Ne.symm h), if_neg h, ih]

namespace Parts

variable {C R : Type} [DecidableEq C] [DecidableEq R]

/-- The last amount of a column in the last entry of a row. -/
def given? (parts : Parts C R) (row : R) (column : C) : Option Amount :=
  (lastValue parts.amounts row).bind fun entries => lastValue entries column

/-- What a row is to give to a column that it lists: the amount given for them, or else the number
    of times the row lists the column. -/
def effective (parts : Parts C R) (row : R × List C) (column : C) : Nat :=
  (parts.given? row.1 column).elim (row.2.count column) UInt32.toNat

/-- The parts that describe a problem. -/
structure Consistent (parts : Parts C R) : Prop where
  columns_nodup : parts.columns.Nodup
  /-- This includes the targets that later ones replace. -/
  targets : ∀ entry ∈ parts.targets, entry.1 ∈ parts.columns ∧ 0 < entry.2.toNat
  rows_nodup : (parts.rows.map (·.1)).Nodup
  listed_ne_nil : ∀ row ∈ parts.rows, row.2 ≠ []
  mem_columns : ∀ row ∈ parts.rows, ∀ column ∈ row.2, column ∈ parts.columns
  effective_bounds : ∀ row ∈ parts.rows, ∀ column ∈ row.2,
    1 ≤ parts.effective row column ∧ parts.effective row column ≤ 2 ^ 32 - 1

variable [Ord C] [Ord R]

/-- A problem is what parts say. Of several targets of a column the last one counts, and so does the
    last amount of a column in the last entry of a row. A column without such an amount counts as
    often as the row lists it. -/
structure Describes (parts : Parts C R) (p : Problem C R) : Prop where
  columns_perm : p.columns.Perm parts.columns
  target?_eq : ∀ column ∈ parts.columns,
    p.target? column = some ((lastValue parts.targets column).getD 1)
  target?_eq_none : ∀ column, column ∉ parts.columns → p.target? column = none
  rows_perm : p.rows.keys.Perm (parts.rows.map (·.1))
  amount?_listed : ∀ row ∈ parts.rows, ∀ column ∈ row.2,
    (p.amount? row.1 column).map UInt32.toNat = some (parts.effective row column)
  amount?_eq_none : ∀ row ∈ parts.rows, ∀ column, column ∉ row.2 → p.amount? row.1 column = none
  amount?_unlisted : ∀ row, row ∉ parts.rows.map (·.1) → ∀ column, p.amount? row column = none

end Parts

namespace Problem

section Entries

variable {C : Type} [Ord C] [Std.LawfulEqOrd C]

theorem listed_of_forall_ne {entries : List (C × Amount)} {column : C}
    (h : ∀ entry ∈ entries, entry.1 ≠ column) : listed entries column = 0 := by
  refine listed_of_not_mem fun hmem => ?_
  obtain ⟨entry, hentry, heq⟩ := List.mem_map.mp hmem
  exact h entry hentry heq

theorem listed_replicate (n : Nat) (column : C) :
    listed (List.replicate n (column, 1)) column = n := by
  induction n with
  | zero => rfl
  | succ n ih =>
    rw [List.replicate_succ, listed_cons, ih, if_pos Std.ReflOrd.compare_self]
    exact Nat.add_comm _ _

/-- Where every key has entries of its own, only those list anything for it. -/
theorem listed_flatMap {α : Type} {es : List (C × α)} {f : C × α → List (C × Amount)}
    (hnodup : (es.map (·.1)).Nodup) (hf : ∀ e, ∀ x ∈ f e, x.1 = e.1) {e : C × α} (he : e ∈ es) :
    listed (es.flatMap f) e.1 = listed (f e) e.1 := by
  induction es with
  | nil => cases he
  | cons head es ih =>
    obtain ⟨hfresh, hrest⟩ := List.nodup_cons.mp hnodup
    have hdiffer : ∀ other ∈ es, head.1 ≠ other.1 := fun other hother heq =>
      hfresh (List.mem_map.mpr ⟨other, hother, heq.symm⟩)
    rw [List.flatMap_cons, listed_append]
    obtain rfl | he := List.mem_cons.mp he
    · have hothers : listed (es.flatMap f) e.1 = 0 := listed_of_forall_ne fun x hx heq => by
        obtain ⟨other, hother, hx⟩ := List.mem_flatMap.mp hx
        exact hdiffer other hother (heq.symm.trans (hf other x hx))
      rw [hothers, Nat.add_zero]
    · have hhead : listed (f head) e.1 = 0 := listed_of_forall_ne fun x hx heq =>
        hdiffer e he ((hf head x hx).symm.trans heq)
      rw [hhead, Nat.zero_add, ih hrest he]

/-- The entries of a row for one column that it lists some number of times. -/
def groupOf (given : Cover C) (column : C) (n : Nat) : List (C × Amount) :=
  match given.get? column with
  | some amount => [(column, amount)]
  | none => List.replicate n (column, 1)

omit [Std.LawfulEqOrd C] in
theorem entriesOf_eq_flatMap (given : Cover C) (listed : List C) :
    entriesOf given listed =
      (SortedMap.tally listed).entries.flatMap fun (column, n) => groupOf given column n := rfl

omit [Std.LawfulEqOrd C] in
/-- All entries of a group name its column. -/
theorem name_of_mem_groupOf {given : Cover C} {column : C} {n : Nat} {entry : C × Amount}
    (h : entry ∈ groupOf given column n) : entry.1 = column := by
  rw [groupOf] at h
  split at h
  · rw [List.mem_singleton.mp h]
  · rw [(List.mem_replicate.mp h).2]

variable [Std.TransOrd C] [DecidableEq C] {cover : Cover C} {xs : List C}

theorem mem_tally {column : C} {n : Nat} :
    (column, n) ∈ (SortedMap.tally xs).entries ↔ column ∈ xs ∧ n = xs.count column := by
  rw [← SortedMap.get?_eq_some_iff (SortedMap.ascending_tally xs), SortedMap.get?_tally]
  by_cases h : column ∈ xs
  · have hne : xs.count column ≠ 0 := (List.count_pos_iff.mpr h).ne'
    simp [h, hne, eq_comm]
  · simp [h, List.count_eq_zero.mpr h]

/-- The entries of a row are those of its listed columns: one with the given amount, or else one
    with amount 1 for each listing. -/
theorem mem_entriesOf {entry : C × Amount} :
    entry ∈ entriesOf cover xs ↔ entry.1 ∈ xs ∧ entry.2 = (cover.get? entry.1).getD 1 := by
  simp only [entriesOf, List.mem_flatMap, Prod.exists, mem_tally]
  constructor
  · rintro ⟨column, n, ⟨hcolumn, rfl⟩, hentry⟩
    cases hget : cover.get? column with
    | none =>
      rw [hget] at hentry
      obtain ⟨-, rfl⟩ := List.mem_replicate.mp hentry
      exact ⟨hcolumn, by rw [hget]; rfl⟩
    | some amount =>
      rw [hget] at hentry
      obtain rfl := List.mem_singleton.mp hentry
      exact ⟨hcolumn, by rw [hget]; rfl⟩
  · rintro ⟨hcolumn, hamount⟩
    refine ⟨entry.1, xs.count entry.1, ⟨hcolumn, rfl⟩, ?_⟩
    cases hget : cover.get? entry.1 with
    | none =>
      rw [hget] at hamount
      exact List.mem_replicate.mpr ⟨(List.count_pos_iff.mpr hcolumn).ne', Prod.ext rfl hamount⟩
    | some amount =>
      rw [hget] at hamount
      exact List.mem_singleton.mpr (Prod.ext rfl hamount)

theorem mem_names_entriesOf (cover : Cover C) {column : C} :
    column ∈ (entriesOf cover xs).map (·.1) ↔ column ∈ xs := by
  simp only [List.mem_map, mem_entriesOf]
  constructor
  · rintro ⟨entry, ⟨hcolumn, -⟩, rfl⟩
    exact hcolumn
  · intro hcolumn
    exact ⟨(column, (cover.get? column).getD 1), ⟨hcolumn, rfl⟩, rfl⟩

theorem entriesOf_eq_nil_iff (cover : Cover C) : entriesOf cover xs = [] ↔ xs = [] := by
  rw [← List.map_eq_nil_iff (f := (·.1)), List.eq_nil_iff_forall_not_mem,
    List.eq_nil_iff_forall_not_mem]
  exact forall_congr' fun column => (mem_names_entriesOf cover).not

theorem forall_names_entriesOf_iff (cover : Cover C) {P : C → Prop} :
    (∀ entry ∈ entriesOf cover xs, P entry.1) ↔ ∀ column ∈ xs, P column := by
  constructor
  · intro h column hcolumn
    obtain ⟨entry, hentry, rfl⟩ := List.mem_map.mp ((mem_names_entriesOf cover).mpr hcolumn)
    exact h entry hentry
  · exact fun h entry hentry => h _ (mem_entriesOf.mp hentry).1

/-- What the entries of a row give to a column that it lists: the amount given for it, or else how
    often it is listed. -/
theorem listed_entriesOf {column : C} (h : column ∈ xs) :
    listed (entriesOf cover xs) column =
      (cover.get? column).elim (xs.count column) UInt32.toNat := by
  have hnodup : ((SortedMap.tally xs).entries.map (·.1)).Nodup :=
    (SortedMap.ascending_tally xs).keys_nodup
  rw [entriesOf_eq_flatMap, listed_flatMap hnodup ?_ (mem_tally.mpr ⟨h, rfl⟩)]
  · dsimp only [groupOf]
    cases hget : cover.get? column with
    | none => exact listed_replicate _ column
    | some amount => exact listed_singleton (column, amount)
  · exact fun _ _ hx => name_of_mem_groupOf hx

omit [Std.LawfulEqOrd C] [Std.TransOrd C] in
/-- A column that is not the last one so far adds the same entries as it does on its own. -/
theorem foldl_pushEntry_replicate {given : Cover C} {entries : List (C × Amount)} {column : C}
    (hfresh : ∀ entry ∈ entries, entry.1 ≠ column) {n : Nat} (hn : 0 < n) :
    (List.replicate n column).foldl (pushEntry given) entries =
      entries ++ groupOf given column n := by
  rw [groupOf]
  cases hget : given.get? column with
  | none =>
    clear hn hfresh
    induction n generalizing entries with
    | zero => exact (List.append_nil _).symm
    | succ n ih =>
      rw [List.replicate_succ, List.foldl_cons, ih, pushEntry, hget]
      exact (List.append_cons ..).symm
  | some amount =>
    obtain ⟨n, rfl⟩ : ∃ m, n = m + 1 := ⟨n - 1, by omega⟩
    have hlast : (entries.getLast?.any fun last => last.1 = column) = false := by
      cases hentry : entries.getLast? with
      | none => rfl
      | some last => exact decide_eq_false (hfresh last (List.mem_of_getLast? hentry))
    have hfirst : pushEntry given entries column = entries ++ [(column, amount)] := by
      simp [pushEntry, hget, hlast]
    have hagain : pushEntry given (entries ++ [(column, amount)]) column =
        entries ++ [(column, amount)] := by
      simp [pushEntry, hget]
    rw [List.replicate_succ, List.foldl_cons, hfirst]
    induction n with
    | zero => rfl
    | succ n ih =>
      rw [List.replicate_succ, List.foldl_cons, hagain]
      exact ih (Nat.succ_pos _)

omit [Std.LawfulEqOrd C] [Std.TransOrd C] in
/-- Walking along groups of different columns adds the entries of each group. -/
theorem foldl_pushEntry_flatMap (given : Cover C) {es : List (C × Nat)}
    (hnodup : (es.map (·.1)).Nodup) (hpos : ∀ e ∈ es, 0 < e.2) :
    (es.flatMap fun (column, n) => List.replicate n column).foldl (pushEntry given) [] =
      es.flatMap fun (column, n) => groupOf given column n := by
  induction es using List.reverseRecOn with
  | nil => rfl
  | append_singleton es e ih =>
    obtain ⟨column, n⟩ := e
    rw [List.map_append, List.nodup_append] at hnodup
    obtain ⟨hnodup, -, hdisjoint⟩ := hnodup
    have hfront := ih hnodup fun e he => hpos e (List.mem_append_left _ he)
    have hn : 0 < n := hpos (column, n) (by simp)
    simp only [List.flatMap_append, List.flatMap_singleton, List.foldl_append]
    rw [hfront, foldl_pushEntry_replicate ?_ hn]
    intro entry hentry
    obtain ⟨⟨key, m⟩, hkey, hentry⟩ := List.mem_flatMap.mp hentry
    rw [name_of_mem_groupOf hentry]
    exact hdisjoint key (List.mem_map_of_mem hkey) column List.mem_cons_self

/-- The walk along the sorted columns finds the entries of a row, whatever amounts are given, in
    whatever order and however often the columns are listed. -/
theorem pushEntries_eq (given : Cover C) (listed : List C) :
    pushEntries given listed = entriesOf given listed := by
  rw [pushEntries, SortedMap.mergeSort_eq_flatMap_tally, entriesOf_eq_flatMap]
  exact foldl_pushEntry_flatMap given (SortedMap.ascending_tally listed).keys_nodup
    fun e he => SortedMap.pos_of_mem_tally he

/-- Parts are built row by row, each from the walk along its listed columns. -/
theorem ofParts_eq_pushEntries {R : Type} [Ord R] (parts : Parts C R) :
    ofParts parts = (do
      let blank ← ofColumns parts.columns
      let withTargets ← parts.targets.foldlM (fun p (column, n) => p.setTarget column n) blank
      let given := SortedMap.ofList
        (parts.amounts.map fun (row, cover) => (row, SortedMap.ofList cover))
      parts.rows.foldlM (fun p (row, listed) =>
        p.addRow row (pushEntries ((given.get? row).getD ∅) listed)) withTargets) := by
  simp only [pushEntries_eq]
  rfl

end Entries

section Building

variable {C R : Type} [Ord C] [Std.TransOrd C] [Std.LawfulEqOrd C] {p q : Problem C R}

/-- A universe is accepted just if no column repeats. -/
theorem exists_ofColumns_iff {columns : List C} :
    (∃ p : Problem C R, ofColumns columns = .ok p) ↔ columns.Nodup := by
  refine ⟨fun ⟨p, hp⟩ => (ofColumns_eq_ok hp).1, fun hnodup => ?_⟩
  obtain ⟨-, hok⟩ | ⟨column, -, hduplicate, -⟩ := ofColumns_spec (R := R) columns
  · exact ⟨_, hok⟩
  · exact absurd hnodup (List.exists_duplicate_iff_not_nodup.mp ⟨column, hduplicate⟩)

variable [Ord R]

/-- A target is accepted just if its column is known and it is positive. -/
theorem WellFormed.exists_setTarget_iff (hp : p.WellFormed) {column : C} {target : Amount} :
    (∃ q, p.setTarget column target = .ok q) ↔ column ∈ p.columns ∧ 0 < target.toNat := by
  rw [amount_pos_iff]
  constructor
  · rintro ⟨q, hq⟩
    obtain ⟨hcontains, hne, -⟩ := setTarget_eq_ok hq
    exact ⟨(SortedMap.contains_iff hp.targets_ascending).mp hcontains, hne⟩
  · rintro ⟨hcolumn, hne⟩
    exact ⟨_, setTarget_of_contains ((SortedMap.contains_iff hp.targets_ascending).mpr hcolumn) hne⟩

/-- A new target adds no column. -/
theorem WellFormed.mem_columns_setTarget (hp : p.WellFormed) {column : C} {target : Amount}
    (h : p.setTarget column target = .ok q) (other : C) :
    other ∈ q.columns ↔ other ∈ p.columns := by
  obtain ⟨hcontains, -, rfl⟩ := setTarget_eq_ok h
  have hcolumn := (SortedMap.contains_iff hp.targets_ascending).mp hcontains
  exact (SortedMap.keys_insert_perm hp.targets_ascending hcolumn target).mem_iff

theorem WellFormed.exists_setTargets_iff (hp : p.WellFormed) {targets : List (C × Amount)} :
    (∃ q, targets.foldlM (fun p (column, n) => p.setTarget column n) p = .ok q) ↔
      ∀ entry ∈ targets, entry.1 ∈ p.columns ∧ 0 < entry.2.toNat := by
  induction targets generalizing p with
  | nil => exact ⟨fun _ => nofun, fun _ => ⟨p, rfl⟩⟩
  | cons entry targets ih =>
    rw [List.forall_mem_cons, ← hp.exists_setTarget_iff]
    simp only [List.foldlM_cons, bind_eq_ok_iff]
    constructor
    · rintro ⟨q, middle, hfirst, hrest⟩
      refine ⟨⟨middle, hfirst⟩, fun other hother => ?_⟩
      rw [← hp.mem_columns_setTarget hfirst]
      exact (ih (hp.setTarget hfirst)).mp ⟨q, hrest⟩ other hother
    · rintro ⟨⟨middle, hfirst⟩, hothers⟩
      obtain ⟨q, hrest⟩ := (ih (hp.setTarget hfirst)).mpr fun other hother => by
        rw [hp.mem_columns_setTarget hfirst]
        exact hothers other hother
      exact ⟨q, middle, hfirst, hrest⟩

variable [Std.TransOrd R] [Std.LawfulEqOrd R]

/-- The universe with its targets, before the rows are added. -/
theorem withTargets_spec {columns : List C} {targets : List (C × Amount)}
    (hblank : ofColumns columns = .ok p)
    (htargets : targets.foldlM (fun p (column, n) => p.setTarget column n) p = .ok q) :
    q.WellFormed ∧ (∀ column, column ∈ q.columns ↔ column ∈ columns) ∧
      ∀ row, row ∉ q.rows.keys := by
  have hbuilt := (Built.blank hblank).foldlM (fun e : C × Amount => .setTarget e.1 e.2)
    (fun _ _ => rfl) htargets
  have hrows := rowsAdded_setTargets targets ([] : List (Edit C R))
  rw [List.append_nil] at hrows
  refine ⟨hbuilt.holds.wellFormed, fun column => hbuilt.holds.columns_perm.mem_iff, fun row => ?_⟩
  rw [hbuilt.holds.mem_rows, List.nil_append, hrows]
  exact List.not_mem_nil

omit [Std.TransOrd C] [Std.LawfulEqOrd C] [Std.TransOrd R] [Std.LawfulEqOrd R] in
/-- A row that was added takes its name, and nothing else, from the rows that can be added. -/
theorem Adds.acceptable_iff {row other : R} {entries entries' : List (C × Amount)}
    (h : p.Adds row entries q) :
    q.Acceptable other entries' ↔ other ≠ row ∧ p.Acceptable other entries' := by
  have hcolumns : q.columns = p.columns := congrArg SortedMap.keys h.targets_eq
  constructor
  · rintro ⟨hfresh, hne, hmem, hpos, hlisted⟩
    obtain ⟨hother, hfresh⟩ := not_or.mp ((h.mem_rows other).not.mp hfresh)
    exact ⟨hother, hfresh, hne, hcolumns ▸ hmem, hpos, hlisted⟩
  · rintro ⟨hother, hfresh, hne, hmem, hpos, hlisted⟩
    exact ⟨(h.mem_rows other).not.mpr (not_or.mpr ⟨hother, hfresh⟩), hne, hcolumns ▸ hmem, hpos,
      hlisted⟩

/-- Rows are accepted just if their names differ and each of them is acceptable. The induction is on
    the rows, each of which leaves it open what the others may be. -/
theorem WellFormed.exists_addRows_iff (hp : p.WellFormed) {rows : List (R × List (C × Amount))} :
    (∃ q, rows.foldlM (fun p row => p.addRow row.1 row.2) p = .ok q) ↔
      (rows.map (·.1)).Nodup ∧ ∀ row ∈ rows, p.Acceptable row.1 row.2 := by
  induction rows generalizing p with
  | nil => exact ⟨fun _ => ⟨List.nodup_nil, nofun⟩, fun _ => ⟨p, rfl⟩⟩
  | cons row rows ih =>
    rw [List.forall_mem_cons, List.map_cons, List.nodup_cons, ← hp.exists_addRow_iff]
    simp only [List.foldlM_cons, bind_eq_ok_iff]
    have hfresh : row.1 ∉ rows.map (·.1) ↔ ∀ other ∈ rows, other.1 ≠ row.1 := by
      simp only [List.mem_map, not_exists, not_and, ne_eq]
    constructor
    · rintro ⟨q, middle, hfirst, hrest⟩
      obtain ⟨hnodup, hothers⟩ := (ih (hp.addRow hfirst)).mp ⟨q, hrest⟩
      have hothers := fun other hother => (hp.adds hfirst).acceptable_iff.mp (hothers other hother)
      exact ⟨⟨hfresh.mpr fun other hother => (hothers other hother).1, hnodup⟩, ⟨middle, hfirst⟩,
        fun other hother => (hothers other hother).2⟩
    · rintro ⟨⟨hrow, hnodup⟩, ⟨middle, hfirst⟩, hothers⟩
      obtain ⟨q, hrest⟩ := (ih (hp.addRow hfirst)).mpr ⟨hnodup, fun other hother =>
        (hp.adds hfirst).acceptable_iff.mpr ⟨hfresh.mp hrow other hother, hothers other hother⟩⟩
      exact ⟨q, middle, hfirst, hrest⟩

end Building

end Problem

namespace Parts

open Problem

variable {C R : Type} [Ord C] [Ord R]

/-- The amounts given for a row. -/
def cover (parts : Parts C R) (row : R) : Cover C :=
  ((SortedMap.ofList (parts.amounts.map fun (row, cover) => (row, SortedMap.ofList cover))).get?
    row).getD ∅

/-- The rows of parts with their entries. -/
def entered (parts : Parts C R) : List (R × List (C × Amount)) :=
  parts.rows.map fun row => (row.1, entriesOf (parts.cover row.1) row.2)

/-- Parts are read in the order of columns, targets and rows. -/
theorem ofParts_eq (parts : Parts C R) : ofParts parts =
    ofColumns parts.columns >>= fun blank =>
      parts.targets.foldlM (fun p (column, n) => p.setTarget column n) blank >>= fun withTargets =>
        parts.entered.foldlM (fun p row => p.addRow row.1 row.2) withTargets := by
  simp only [entered, List.foldlM_map]
  rfl

theorem names_entered (parts : Parts C R) : parts.entered.map (·.1) = parts.rows.map (·.1) := by
  rw [entered, List.map_map]
  rfl

theorem rowsAdded_editsOfParts (parts : Parts C R) :
    rowsAdded (editsOfParts parts) = parts.entered :=
  (rowsAdded_setTargets parts.targets _).trans (rowsAdded_map (fun _ => rfl) parts.rows)

theorem settings_editsOfParts (parts : Parts C R) :
    settings (editsOfParts parts) = .ofList parts.targets :=
  settings_setTargets parts.targets (List.forall_mem_map.mpr fun _ _ => rfl)

variable [Std.TransOrd C] [Std.LawfulEqOrd C] [Std.TransOrd R] [Std.LawfulEqOrd R]
  [DecidableEq C] [DecidableEq R] {parts : Parts C R} {p : Problem C R}

theorem get?_cover (parts : Parts C R) (row : R) (column : C) :
    (parts.cover row).get? column = parts.given? row column := by
  rw [cover, SortedMap.get?_ofList_eq_lastValue, given?]
  change ((lastValue (parts.amounts.map fun e => (e.1, SortedMap.ofList e.2)) row).getD ∅).get? _ =
    _
  rw [lastValue_map]
  cases lastValue parts.amounts row with
  | none => rfl
  | some entries => exact SortedMap.get?_ofList_eq_lastValue entries column

/-- What a row is to give to a column that it lists. -/
theorem listed_entries (parts : Parts C R) {row : R × List C} {column : C} (h : column ∈ row.2) :
    listed (entriesOf (parts.cover row.1) row.2) column = parts.effective row column := by
  rw [listed_entriesOf h, get?_cover, effective]

/-- The entries of a row are positive and do not overflow just if this holds of the amounts that
    they make up. -/
theorem amounts_entered_iff (parts : Parts C R) {row : R × List C} :
    ((∀ entry ∈ entriesOf (parts.cover row.1) row.2, 0 < entry.2.toNat) ∧
      ∀ column, listed (entriesOf (parts.cover row.1) row.2) column ≤ 2 ^ 32 - 1) ↔
      ∀ column ∈ row.2, 1 ≤ parts.effective row column ∧
        parts.effective row column ≤ 2 ^ 32 - 1 := by
  constructor
  · rintro ⟨hpos, hlisted⟩ column hcolumn
    have hname := (mem_names_entriesOf (parts.cover row.1)).mpr hcolumn
    have hne := (listed_eq_zero_iff hpos).not.mpr (not_not.mpr hname)
    rw [← parts.listed_entries hcolumn]
    exact ⟨Nat.one_le_iff_ne_zero.mpr hne, hlisted column⟩
  · refine fun heffective => ⟨fun entry hentry => ?_, fun column => ?_⟩
    · obtain ⟨hcolumn, hamount⟩ := mem_entriesOf.mp hentry
      have hbound := (heffective _ hcolumn).1
      rw [hamount, get?_cover]
      rw [effective] at hbound
      cases hgiven : parts.given? row.1 entry.1 with
      | none => exact Nat.one_pos
      | some amount =>
        rw [hgiven] at hbound
        exact hbound
    · by_cases hcolumn : column ∈ row.2
      · rw [parts.listed_entries hcolumn]
        exact (heffective column hcolumn).2
      · rw [listed_of_not_mem ((mem_names_entriesOf _).not.mpr hcolumn)]
        exact Nat.zero_le _

/-- When the entries of a row can be added. -/
theorem acceptable_entered_iff (parts : Parts C R) {row : R × List C} :
    p.Acceptable row.1 (entriesOf (parts.cover row.1) row.2) ↔
      row.1 ∉ p.rows.keys ∧ row.2 ≠ [] ∧ (∀ column ∈ row.2, column ∈ p.columns) ∧
      ∀ column ∈ row.2, 1 ≤ parts.effective row column ∧
        parts.effective row column ≤ 2 ^ 32 - 1 := by
  rw [← amounts_entered_iff, ← forall_names_entriesOf_iff (parts.cover row.1),
    ← (entriesOf_eq_nil_iff (parts.cover row.1)).ne]
  exact ⟨fun h => ⟨h.fresh, h.ne_nil, h.mem_columns, h.amount_pos, h.listed_le⟩,
    fun ⟨hfresh, hne, hcolumns, hpos, hlisted⟩ => ⟨hfresh, hne, hcolumns, hpos, hlisted⟩⟩

/-- Parts describe a problem just if they are consistent. -/
theorem exists_ofParts_iff : (∃ p, ofParts parts = .ok p) ↔ parts.Consistent := by
  simp only [ofParts_eq, bind_eq_ok_iff]
  constructor
  · rintro ⟨p, blank, hblank, withTargets, htargets, hrows⟩
    have hcolumns := (Built.blank hblank).holds.columns_perm
    obtain ⟨hwell, hmem, hfresh⟩ := withTargets_spec hblank htargets
    obtain ⟨hnames, hacceptable⟩ := hwell.exists_addRows_iff.mp ⟨p, hrows⟩
    have hrow := fun row (h : row ∈ parts.rows) =>
      (acceptable_entered_iff parts).mp (hacceptable _ (List.mem_map_of_mem h))
    refine ⟨exists_ofColumns_iff.mp ⟨blank, hblank⟩, fun entry hentry => ?_,
      parts.names_entered ▸ hnames, fun row h => (hrow row h).2.1, fun row h column hcolumn => ?_,
      fun row h => (hrow row h).2.2.2⟩
    · rw [← hcolumns.mem_iff]
      exact (wellFormed_ofColumns hblank).exists_setTargets_iff.mp ⟨withTargets, htargets⟩ entry
        hentry
    · exact (hmem column).mp ((hrow row h).2.2.1 column hcolumn)
  · rintro ⟨hnodup, htargets, hnames, hne, hcolumns, hbounds⟩
    obtain ⟨blank, hblank⟩ := exists_ofColumns_iff (R := R).mpr hnodup
    have hperm := (Built.blank hblank).holds.columns_perm
    obtain ⟨withTargets, htargets⟩ := (wellFormed_ofColumns hblank).exists_setTargets_iff.mpr
      fun entry hentry => ⟨hperm.mem_iff.mpr (htargets entry hentry).1, (htargets entry hentry).2⟩
    obtain ⟨hwell, hmem, hfresh⟩ := withTargets_spec hblank htargets
    obtain ⟨p, hrows⟩ := hwell.exists_addRows_iff.mpr ⟨parts.names_entered.symm ▸ hnames,
      List.forall_mem_map.mpr fun row h => (acceptable_entered_iff parts).mpr ⟨hfresh row.1,
        hne row h, fun column hcolumn => (hmem column).mpr (hcolumns row h column hcolumn),
        hbounds row h⟩⟩
    exact ⟨p, blank, hblank, withTargets, htargets, hrows⟩

/-- What parts describe is what they say. -/
theorem describes_of_ofParts (h : ofParts parts = .ok p) : parts.Describes p := by
  have hp := (built_ofParts h).holds
  have hconsistent := exists_ofParts_iff.mp ⟨p, h⟩
  have hrows := parts.rowsAdded_editsOfParts
  have hnames : (rowsAdded (editsOfParts parts)).map (·.1) = parts.rows.map (·.1) := by
    rw [hrows, names_entered]
  have hadded (row : R × List C) (hrow : row ∈ parts.rows) :
      (row.1, entriesOf (parts.cover row.1) row.2) ∈ rowsAdded (editsOfParts parts) :=
    hrows ▸ List.mem_map_of_mem hrow
  have hamount (row : R × List C) (hrow : row ∈ parts.rows) := hp.map_amount? (hadded row hrow)
  refine ⟨hp.columns_perm, fun column hcolumn => ?_, fun column hcolumn => ?_, ?_,
    fun row hrow column hcolumn => ?_, fun row hrow column hcolumn => ?_, fun row hrow column => ?_⟩
  · rw [hp.target?_eq column hcolumn, lastTarget, settings_editsOfParts,
      SortedMap.get?_ofList_eq_lastValue]
  · exact (SortedMap.get?_eq_none_iff hp.wellFormed.targets_ascending).mpr
      (hp.columns_perm.mem_iff.not.mpr hcolumn)
  · refine (List.perm_ext_iff_of_nodup hp.wellFormed.rows_ascending.keys_nodup
      hconsistent.rows_nodup).mpr fun row => ?_
    rw [hp.mem_rows, hnames]
  · have hbound := (hconsistent.effective_bounds row hrow column hcolumn).1
    rw [hamount row hrow, parts.listed_entries hcolumn, if_neg (by omega)]
  · have hzero : listed (entriesOf (parts.cover row.1) row.2) column = 0 :=
      listed_of_not_mem ((mem_names_entriesOf _).not.mpr hcolumn)
    have hnone := hamount row hrow column
    rw [hzero, if_pos rfl] at hnone
    exact Option.map_eq_none_iff.mp hnone
  · rw [amount?, hp.row?_eq_none (hnames ▸ hrow), Option.bind_none]

/-- Amounts count only for the columns that a row lists. -/
theorem entered_congr (parts parts' : Parts C R) (hrows : parts'.rows = parts.rows)
    (hgiven : ∀ row ∈ parts.rows, ∀ column ∈ row.2,
      parts'.given? row.1 column = parts.given? row.1 column) :
    parts'.entered = parts.entered := by
  rw [entered, entered, hrows]
  refine List.map_congr_left fun row hrow => Prod.ext rfl ?_
  refine List.flatMap_congr fun e he => ?_
  obtain ⟨hcolumn, -⟩ := mem_tally.mp he
  dsimp only
  rw [get?_cover, get?_cover, hgiven row hrow e.1 hcolumn]

/-- Parts describe a problem just if they are consistent, and then the one they say. Amounts of rows
    or columns that are not listed change nothing of this, whatever they are, not even the cause of
    a refusal. -/
theorem ofParts_meaning (parts : Parts C R) :
    ((∃ p, ofParts parts = .ok p) ↔ parts.Consistent) ∧
    (∀ p, ofParts parts = .ok p → parts.Describes p) ∧
    ∀ amounts : List (R × List (C × Amount)),
      (∀ row ∈ parts.rows, ∀ column ∈ row.2,
        { parts with amounts }.given? row.1 column = parts.given? row.1 column) →
      ofParts { parts with amounts } = ofParts parts := by
  refine ⟨exists_ofParts_iff, fun p => describes_of_ofParts, fun amounts hgiven => ?_⟩
  have hentered := entered_congr parts { parts with amounts } rfl hgiven
  rw [ofParts_eq, ofParts_eq, hentered]

/-- Parts with targets and amounts that are replaced, columns that are listed repeatedly and amounts
    of zero that belong to no listed column, with and without the latter; and parts in which a
    target of zero is replaced. -/
theorem ofParts_meaning_of_replaced : ∃ p : Problem Nat Nat,
    ofParts ⟨[2, 1], [(7, [2, 1, 2]), (8, [2, 2, 2])], [(1, 3), (2, 5), (1, 4)],
      [(8, [(2, 9)]), (7, [(1, 2), (5, 0), (1, 6)]), (8, [(1, 0)]), (9, [(1, 0)])]⟩ = .ok p ∧
    ofParts ⟨[2, 1], [(7, [2, 1, 2]), (8, [2, 2, 2])], [(1, 3), (2, 5), (1, 4)],
      [(7, [(1, 6)])]⟩ = .ok p ∧
    p.target? 1 = some 4 ∧ (p.amount? 7 1).map UInt32.toNat = some 6 ∧
    (p.amount? 8 2).map UInt32.toNat = some 3 ∧ p.amount? 8 1 = none ∧
    ¬ ∃ q : Problem Nat Nat, ofParts ⟨[1], [], [(1, 0), (1, 4)], []⟩ = .ok q := by
  let parts : Parts Nat Nat := ⟨[2, 1], [(7, [2, 1, 2]), (8, [2, 2, 2])], [(1, 3), (2, 5), (1, 4)],
    [(8, [(2, 9)]), (7, [(1, 2), (5, 0), (1, 6)]), (8, [(1, 0)]), (9, [(1, 0)])]⟩
  obtain ⟨hexists, hdescribes, hcongr⟩ := parts.ofParts_meaning
  obtain ⟨p, hp⟩ := hexists.mpr {
    columns_nodup := by decide
    targets := by decide
    rows_nodup := by decide
    listed_ne_nil := by decide
    mem_columns := by decide
    effective_bounds := by decide }
  have hp' := hcongr [(7, [(1, 6)])] (by decide)
  have hsays := hdescribes p hp
  obtain ⟨hrefused, -, -⟩ := ofParts_meaning (⟨[1], [], [(1, 0), (1, 4)], []⟩ : Parts Nat Nat)
  exact ⟨p, hp, hp'.trans hp, hsays.target?_eq 1 (by decide),
    hsays.amount?_listed (7, [2, 1, 2]) (by decide) 1 (by decide),
    hsays.amount?_listed (8, [2, 2, 2]) (by decide) 2 (by decide),
    hsays.amount?_eq_none (8, [2, 2, 2]) (by decide) 1 (by decide),
    fun h => absurd ((hrefused.mp h).targets (1, 0) (by decide)).2 (by decide)⟩

end Parts

namespace Problem

/-- Parts that list everything a problem holds, each column of a row once and every target and
    amount explicitly. -/
structure ListedBy {C R : Type} [Ord C] [Ord R] (p : Problem C R) (parts : Parts C R) : Prop where
  columns_eq : parts.columns = p.columns
  target_iff : ∀ column target,
    (column, target) ∈ parts.targets ↔ p.target? column = some target
  rows_eq : parts.rows.map (·.1) = p.rows.keys
  listed_nodup : ∀ row ∈ parts.rows, row.2.Nodup
  listed_iff : ∀ row ∈ parts.rows, ∀ column, column ∈ row.2 ↔ (p.amount? row.1 column).isSome
  amounts_eq : parts.amounts.map (·.1) = p.rows.keys
  amount_iff : ∀ row ∈ parts.amounts, ∀ column amount,
    (column, amount) ∈ row.2 ↔ p.amount? row.1 column = some amount

variable {C R : Type} [Ord C] [Ord R] [Std.TransOrd C] [Std.LawfulEqOrd C] [Std.TransOrd R]
  [Std.LawfulEqOrd R] {p : Problem C R}

/-- The parts of a problem list what it holds. -/
theorem WellFormed.listedBy_toParts (hp : p.WellFormed) : p.ListedBy p.toParts := by
  have hamount {e : R × Cover C} (he : e ∈ p.rows.entries) (column : C) :
      p.amount? e.1 column = e.2.get? column := by
    rw [amount?, hp.row?_eq_some_iff.mpr he, Option.bind_some]
  refine ⟨rfl, fun column target => hp.target?_eq_some_iff.symm, ?_,
    List.forall_mem_map.mpr fun e he => (hp.cover e he).ascending.keys_nodup,
    List.forall_mem_map.mpr fun e he column => ?_, ?_,
    List.forall_mem_map.mpr fun e he column amount => ?_⟩
  · rw [toParts, List.map_map]
    rfl
  · rw [hamount he]
    exact (SortedMap.contains_iff (hp.cover e he).ascending).symm
  · rw [toParts, List.map_map]
    rfl
  · rw [hamount he]
    exact (SortedMap.get?_eq_some_iff (hp.cover e he).ascending).symm

/-- The parts of any problem that can be built list all that it holds, and they describe just that
    problem. -/
theorem Reachable.parts_round_trip (hp : p.Reachable) :
    p.ListedBy p.toParts ∧ Problem.ofParts p.toParts = .ok p :=
  ⟨hp.wellFormed.listedBy_toParts, hp.wellFormed.ofParts_toParts⟩

/-- A problem with the largest target and the largest amount, one that was put together from two
    entries. -/
theorem Reachable.parts_of_largest : ∃ p : Problem Nat Nat,
    p.target? 2 = some 4294967295 ∧ p.amount? 7 2 = some 4294967295 ∧
    (7, [1, 2]) ∈ p.toParts.rows ∧ (2, 4294967295) ∈ p.toParts.targets ∧
    Problem.ofParts p.toParts = .ok p := by
  obtain ⟨p, hp, htarget, hamount, hrow⟩ : ∃ p : Problem Nat Nat, p.Reachable ∧
      p.target? 2 = some 4294967295 ∧ p.amount? 7 2 = some 4294967295 ∧
      (7, [1, 2]) ∈ p.toParts.rows :=
    ⟨_, .attempt (.addRow 7 [(2, 4294967294), (1, 1), (2, 1)])
      (.attempt (.setTarget 2 4294967295) (.ofColumns (rfl : Problem.ofColumns [2, 1] = .ok _))),
      by decide +kernel, by decide +kernel, by decide +kernel⟩
  obtain ⟨hlisted, hround⟩ := hp.parts_round_trip
  exact ⟨p, htarget, hamount, hrow, (hlisted.target_iff 2 4294967295).mpr htarget, hround⟩

end Problem

end ExactCover
