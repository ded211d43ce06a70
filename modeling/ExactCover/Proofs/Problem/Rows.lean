import ExactCover.Proofs.Problem.Canonical
import ExactCover.Proofs.Problem.Parts

namespace ExactCover.Problem

variable {C R : Type} [Ord C]

/-- What is wrong with an entry of a row behind some other entries. Whether its column is known is
    asked first, then whether its amount is positive, and then whether what the column is given in
    total so far fits an amount. -/
inductive Faulty (p : Problem C R) (row : R) (before : List (C × Amount)) (entry : C × Amount) :
    Error C R → Prop where
  | unknownColumn (hcolumn : entry.1 ∉ p.columns) :
      Faulty p row before entry (.unknownColumn entry.1)
  | zeroAmount (hcolumn : entry.1 ∈ p.columns) (hzero : entry.2 = 0) :
      Faulty p row before entry (.zeroAmount row entry.1)
  | amountOverflow (hcolumn : entry.1 ∈ p.columns) (hne : entry.2 ≠ 0)
      (hover : 2 ^ 32 - 1 < listed (before ++ [entry]) entry.1) :
      Faulty p row before entry (.amountOverflow row entry.1)

/-- No entry is faulty behind those in front of it. -/
def Flawless (p : Problem C R) (row : R) (entries : List (C × Amount)) : Prop :=
  ∀ before entry after, entries = before ++ entry :: after →
    ∀ cause, ¬ p.Faulty row before entry cause

/-- What is wrong with the first faulty entry. -/
def FirstFault (p : Problem C R) (row : R) (entries : List (C × Amount)) (cause : Error C R) :
    Prop :=
  ∃ before entry after, entries = before ++ entry :: after ∧ p.Flawless row before ∧
    p.Faulty row before entry cause

/-- The rows that can be added, whatever the order of their entries. -/
structure Acceptable (p : Problem C R) (row : R) (entries : List (C × Amount)) : Prop where
  fresh : row ∉ p.rows.keys
  ne_nil : entries ≠ []
  mem_columns : ∀ entry ∈ entries, entry.1 ∈ p.columns
  amount_pos : ∀ entry ∈ entries, 0 < entry.2.toNat
  listed_le : ∀ column, listed entries column ≤ 2 ^ 32 - 1

/-- Why a row is refused: its name is taken, or else an entry is faulty, or else there is none.
    Unlike whether a row is accepted, the cause depends on the order of the entries: the first fault
    counts. -/
inductive Refuses (p : Problem C R) (row : R) (entries : List (C × Amount)) : Error C R → Prop where
  | duplicateRow (htaken : row ∈ p.rows.keys) : Refuses p row entries (.duplicateRow row)
  | entry (hfresh : row ∉ p.rows.keys) {cause : Error C R}
      (hfault : p.FirstFault row entries cause) : Refuses p row entries cause
  | emptyRow (hfresh : row ∉ p.rows.keys) (hempty : entries = []) :
      Refuses p row entries (.emptyRow row)

/-- A problem is another one with one more row, which gives to each listed column what is listed for
    it in total. -/
structure Adds (p : Problem C R) [Ord R] (row : R) (entries : List (C × Amount))
    (q : Problem C R) : Prop where
  targets_eq : q.targets = p.targets
  mem_rows : ∀ other, other ∈ q.rows.keys ↔ other = row ∨ other ∈ p.rows.keys
  row?_eq : ∀ other, other ≠ row → q.row? other = p.row? other
  amount?_listed : ∀ column ∈ entries.map (·.1),
    (q.amount? row column).map UInt32.toNat = some (listed entries column)
  amount?_eq_none : ∀ column, column ∉ entries.map (·.1) → q.amount? row column = none

theorem listed_append (entries entries' : List (C × Amount)) (column : C) :
    listed (entries ++ entries') column = listed entries column + listed entries' column := by
  simp [listed]

variable {p q : Problem C R} {row : R} {entries : List (C × Amount)} {entry : C × Amount}
  {cover : Cover C}

theorem listed_le_append (entries entries' : List (C × Amount)) (column : C) :
    listed entries column ≤ listed (entries ++ entries') column := by
  rw [listed_append]
  exact Nat.le_add_right _ _

theorem listed_singleton (entry : C × Amount) [Std.ReflOrd C] :
    listed [entry] entry.1 = entry.2.toNat := by
  simp [listed, Std.ReflOrd.compare_self]

/-- Positive amounts add up to nothing only for the columns that are not listed. -/
theorem listed_eq_zero_iff [Std.LawfulEqOrd C] (hpos : ∀ entry ∈ entries, 0 < entry.2.toNat)
    {column : C} : listed entries column = 0 ↔ column ∉ entries.map (·.1) := by
  refine ⟨fun hzero hmem => ?_, listed_of_not_mem⟩
  obtain ⟨entry, hentry, rfl⟩ := List.mem_map.mp hmem
  obtain ⟨before, after, rfl⟩ := List.append_of_mem hentry
  rw [listed_append, listed_cons, if_pos Std.ReflOrd.compare_self] at hzero
  have hamount := hpos entry hentry
  omega

/-- Amounts of different columns are not added up. -/
theorem listed_le_of_nodup [Std.LawfulEqOrd C] (hnodup : (entries.map (·.1)).Nodup) (column : C) :
    listed entries column ≤ 2 ^ 32 - 1 := by
  by_cases hmem : column ∈ entries.map (·.1)
  · obtain ⟨entry, hentry, rfl⟩ := List.mem_map.mp hmem
    rw [listed_of_mem hnodup hentry]
    exact Nat.le_sub_one_of_lt entry.2.toNat_lt
  · rw [listed_of_not_mem hmem]
    exact Nat.zero_le _

/-- Nothing is wrong with an entry if its column is known, its amount is positive and the total is
    not too large. -/
theorem not_faulty_iff {before : List (C × Amount)} :
    (∀ cause, ¬ p.Faulty row before entry cause) ↔ entry.1 ∈ p.columns ∧ entry.2 ≠ 0 ∧
      listed (before ++ [entry]) entry.1 ≤ 2 ^ 32 - 1 := by
  constructor
  · intro h
    have hcolumn : entry.1 ∈ p.columns := by
      by_contra hunknown
      exact h _ (.unknownColumn hunknown)
    have hne : entry.2 ≠ 0 := fun hzero => h _ (.zeroAmount hcolumn hzero)
    exact ⟨hcolumn, hne, Nat.le_of_not_lt fun hover => h _ (.amountOverflow hcolumn hne hover)⟩
  · rintro ⟨hcolumn, hne, hfits⟩ cause hfault
    cases hfault with
    | unknownColumn hunknown => exact hunknown hcolumn
    | zeroAmount _ hzero => exact hne hzero
    | amountOverflow _ _ hover => omega

theorem flawless_nil (p : Problem C R) (row : R) : p.Flawless row [] := by
  intro before entry after hsplit
  simp at hsplit

theorem Flawless.concat (h : p.Flawless row entries)
    (hlast : ∀ cause, ¬ p.Faulty row entries entry cause) :
    p.Flawless row (entries ++ [entry]) := by
  intro before other after hsplit
  obtain rfl | ⟨rest, last, rfl⟩ := after.eq_nil_or_concat
  · obtain ⟨rfl, hentry⟩ := List.append_inj' hsplit rfl
    obtain rfl := List.singleton_inj.mp hentry
    exact hlast
  · rw [List.concat_eq_append, ← List.cons_append, ← List.append_assoc] at hsplit
    obtain ⟨rfl, -⟩ := List.append_inj' hsplit rfl
    exact h before other rest rfl

/-- Going through the entries from the front, there is a first fault or none. -/
theorem flawless_or_firstFault (p : Problem C R) (row : R) (entries : List (C × Amount)) :
    p.Flawless row entries ∨ ∃ cause, p.FirstFault row entries cause := by
  induction entries using List.reverseRecOn with
  | nil => exact .inl (flawless_nil p row)
  | append_singleton entries entry ih =>
    obtain hflawless | ⟨cause, before, other, after, rfl, hbefore, hfault⟩ := ih
    · by_cases hlast : ∃ cause, p.Faulty row entries entry cause
      · obtain ⟨cause, hfault⟩ := hlast
        exact .inr ⟨cause, entries, entry, [], rfl, hflawless, hfault⟩
      · exact .inl (hflawless.concat (not_exists.mp hlast))
    · exact .inr ⟨cause, before, other, after ++ [entry], by simp, hbefore, hfault⟩

/-- Whether a row is acceptable does not depend on the order of its entries. -/
theorem Acceptable.perm {entries' : List (C × Amount)} (h : p.Acceptable row entries)
    (hperm : entries.Perm entries') : p.Acceptable row entries' where
  fresh := h.fresh
  ne_nil hnil := h.ne_nil (List.perm_nil.mp (hnil ▸ hperm))
  mem_columns entry hentry := h.mem_columns entry (hperm.mem_iff.mpr hentry)
  amount_pos entry hentry := h.amount_pos entry (hperm.mem_iff.mpr hentry)
  listed_le column := listed_perm hperm column ▸ h.listed_le column

section Entries

variable [Std.TransOrd C] [Std.LawfulEqOrd C]

/-- What a faulty entry is refused for, when the entries in front of it make up the cover. -/
theorem Faulty.extendCover {before : List (C × Amount)} {cause : Error C R}
    (h : p.Faulty row before entry cause) (hp : p.targets.Ascending)
    (hweight : weight cover entry.1 = listed before entry.1) :
    p.extendCover row cover entry = .error cause := by
  unfold Problem.extendCover
  cases h with
  | unknownColumn hcolumn =>
    have hcontains := (SortedMap.contains_eq_false_iff hp).mpr hcolumn
    simp [hcontains]
  | zeroAmount hcolumn hzero =>
    have hcontains := (SortedMap.contains_iff hp).mpr hcolumn
    simp [hcontains, hzero]
  | amountOverflow hcolumn hne hover =>
    have hcontains := (SortedMap.contains_iff hp).mpr hcolumn
    have hlarge : ¬ weight cover entry.1 + entry.2.toNat < UInt32.size := by
      rw [listed_append, listed_singleton] at hover
      rw [hweight, UInt32.size]
      omega
    rw [weight] at hlarge
    simp [hcontains, hne, hlarge]

/-- An entry that is not faulty is accepted. -/
theorem exists_extendCover {before : List (C × Amount)} (hp : p.targets.Ascending)
    (hweight : weight cover entry.1 = listed before entry.1)
    (h : ∀ cause, ¬ p.Faulty row before entry cause) :
    ∃ cover', p.extendCover row cover entry = .ok cover' := by
  obtain ⟨hcolumn, hne, hlisted⟩ := not_faulty_iff.mp h
  have hcontains := (SortedMap.contains_iff hp).mpr hcolumn
  have hfits : weight cover entry.1 + entry.2.toNat < UInt32.size := by
    rw [listed_append, listed_singleton, ← hweight] at hlisted
    rw [UInt32.size]
    omega
  rw [weight] at hfits
  exact ⟨_, by simp [Problem.extendCover, hcontains, hne, hfits]; rfl⟩

/-- A cover is made of what its entries list. -/
theorem weight_of_extendAll_empty (hall : entries.foldlM (p.extendCover row) ∅ = .ok cover)
    (column : C) : weight cover column = listed entries column :=
  (weight_of_extendAll SortedMap.ascending_empty hall column).trans (Nat.zero_add _)

/-- Entries with which nothing is wrong add up to a cover. -/
theorem Flawless.exists_cover (h : p.Flawless row entries) (hp : p.targets.Ascending) :
    ∃ cover, entries.foldlM (p.extendCover row) ∅ = .ok cover := by
  induction entries using List.reverseRecOn with
  | nil => exact ⟨∅, rfl⟩
  | append_singleton entries entry ih =>
    obtain ⟨cover, hcover⟩ := ih fun before other after hsplit =>
      h before other (after ++ [entry]) (by simp [hsplit])
    have hweight := weight_of_extendAll_empty hcover entry.1
    obtain ⟨cover', hcover'⟩ := exists_extendCover hp hweight (h entries entry [] rfl)
    have hlast : [entry].foldlM (p.extendCover row) cover = .ok cover' :=
      bind_eq_ok_iff.mpr ⟨cover', hcover', rfl⟩
    rw [List.foldlM_append]
    exact ⟨cover', bind_eq_ok_iff.mpr ⟨cover, hcover, hlast⟩⟩

/-- Entries are refused for their first fault. -/
theorem FirstFault.extendAll {cause : Error C R} (h : p.FirstFault row entries cause)
    (hp : p.targets.Ascending) : entries.foldlM (p.extendCover row) ∅ = .error cause := by
  obtain ⟨before, entry, after, rfl, hbefore, hfault⟩ := h
  obtain ⟨cover, hcover⟩ := hbefore.exists_cover hp
  have hrefused := hfault.extendCover hp (weight_of_extendAll_empty hcover entry.1)
  rw [List.foldlM_append, hcover]
  change (p.extendCover row cover entry >>= _) = _
  rw [hrefused]
  rfl

theorem listed_le_of_extendAll (hall : entries.foldlM (p.extendCover row) ∅ = .ok cover)
    (column : C) : listed entries column ≤ 2 ^ 32 - 1 := by
  rw [← weight_of_extendAll_empty hall column]
  exact Nat.le_sub_one_of_lt (UInt32.toNat_lt _)

/-- Whether any entry is faulty does not depend on the order of the entries. -/
theorem flawless_iff (hp : p.targets.Ascending) (row : R) (entries : List (C × Amount)) :
    p.Flawless row entries ↔ (∀ entry ∈ entries, entry.1 ∈ p.columns) ∧
      (∀ entry ∈ entries, 0 < entry.2.toNat) ∧
      ∀ column, listed entries column ≤ 2 ^ 32 - 1 := by
  constructor
  · intro h
    have hentry : ∀ entry ∈ entries, entry.1 ∈ p.columns ∧ 0 < entry.2.toNat := by
      intro entry hmem
      obtain ⟨before, after, hsplit⟩ := List.append_of_mem hmem
      obtain ⟨hcolumn, hne, -⟩ := not_faulty_iff.mp (h before entry after hsplit)
      exact ⟨hcolumn, amount_pos_iff.mpr hne⟩
    -- The totals are amounts of the cover, so they fit.
    obtain ⟨cover, hcover⟩ := h.exists_cover hp
    exact ⟨fun entry hmem => (hentry entry hmem).1, fun entry hmem => (hentry entry hmem).2,
      listed_le_of_extendAll hcover⟩
  · rintro ⟨hcolumns, hpos, hlisted⟩ before entry after rfl
    have hmem : entry ∈ before ++ entry :: after := by simp
    have hfront := listed_le_append (before ++ [entry]) after entry.1
    rw [← List.append_cons] at hfront
    exact not_faulty_iff.mpr ⟨hcolumns entry hmem, amount_pos_iff.mp (hpos entry hmem),
      hfront.trans (hlisted entry.1)⟩

theorem entries_ne_nil_of_extendAll (hall : entries.foldlM (p.extendCover row) ∅ = .ok cover)
    (hpos : ∀ entry ∈ entries, 0 < entry.2.toNat) (hne : entries ≠ []) : cover.entries ≠ [] := by
  obtain ⟨entry, hentry⟩ := List.exists_mem_of_ne_nil _ hne
  intro hempty
  have hweight : weight cover entry.1 = 0 := by
    rw [weight, SortedMap.get?, hempty]
    rfl
  rw [weight_of_extendAll_empty hall] at hweight
  exact (listed_eq_zero_iff hpos).mp hweight (List.mem_map_of_mem hentry)

end Entries

variable [Ord R] [Std.TransOrd C] [Std.LawfulEqOrd C] [Std.TransOrd R] [Std.LawfulEqOrd R]

/-- An acceptable row is added. -/
theorem Acceptable.exists_addRow (h : p.Acceptable row entries) (hp : p.WellFormed) :
    ∃ q, p.addRow row entries = .ok q := by
  have hflawless := (flawless_iff hp.targets_ascending row entries).mpr
    ⟨h.mem_columns, h.amount_pos, h.listed_le⟩
  obtain ⟨cover, hcover⟩ := hflawless.exists_cover hp.targets_ascending
  have hrow := (SortedMap.contains_eq_false_iff hp.rows_ascending).mpr h.fresh
  exact ⟨_, addRow_of_extendAll hrow hcover
    (entries_ne_nil_of_extendAll hcover h.amount_pos h.ne_nil)⟩

/-- Any other row is refused for its cause. -/
theorem Refuses.addRow {cause : Error C R} (h : p.Refuses row entries cause) (hp : p.WellFormed) :
    p.addRow row entries = .error cause := by
  have hcontains := SortedMap.contains_eq_false_iff hp.rows_ascending (k := row)
  unfold Problem.addRow
  cases h with
  | duplicateRow htaken =>
    rw [if_pos ((SortedMap.contains_iff hp.rows_ascending).mpr htaken)]
    rfl
  | entry hfresh hfault =>
    rw [hcontains.mpr hfresh, hfault.extendAll hp.targets_ascending]
    rfl
  | emptyRow hfresh hempty =>
    rw [hcontains.mpr hfresh, hempty]
    rfl

omit [Std.TransOrd R] [Std.LawfulEqOrd R] in
/-- A row is acceptable, or there is a cause to refuse it. -/
theorem acceptable_or_refuses (hp : p.WellFormed) (row : R) (entries : List (C × Amount)) :
    p.Acceptable row entries ∨ ∃ cause, p.Refuses row entries cause := by
  by_cases htaken : row ∈ p.rows.keys
  · exact .inr ⟨_, .duplicateRow htaken⟩
  by_cases hempty : entries = []
  · exact .inr ⟨_, .emptyRow htaken hempty⟩
  obtain hflawless | ⟨cause, hfault⟩ := flawless_or_firstFault p row entries
  · obtain ⟨hcolumns, hpos, hlisted⟩ := (flawless_iff hp.targets_ascending row entries).mp hflawless
    exact .inl ⟨htaken, hempty, hcolumns, hpos, hlisted⟩
  · exact .inr ⟨cause, .entry htaken hfault⟩

/-- A row is accepted just if it is acceptable. -/
theorem WellFormed.exists_addRow_iff (hp : p.WellFormed) :
    (∃ q, p.addRow row entries = .ok q) ↔ p.Acceptable row entries := by
  refine ⟨fun ⟨q, hq⟩ => ?_, fun h => h.exists_addRow hp⟩
  obtain h | ⟨cause, hrefuses⟩ := acceptable_or_refuses hp row entries
  · exact h
  · rw [hrefuses.addRow hp] at hq
    cases hq

/-- A row is refused for the cause that comes first. -/
theorem WellFormed.addRow_eq_error_iff (hp : p.WellFormed) {cause : Error C R} :
    p.addRow row entries = .error cause ↔ p.Refuses row entries cause := by
  refine ⟨fun hcause => ?_, fun h => h.addRow hp⟩
  obtain h | ⟨other, hrefuses⟩ := acceptable_or_refuses hp row entries
  · obtain ⟨q, hq⟩ := h.exists_addRow hp
    rw [hq] at hcause
    cases hcause
  · rw [hrefuses.addRow hp] at hcause
    cases hcause
    exact hrefuses

/-- An accepted row is added, and nothing else changes. -/
theorem WellFormed.adds (hp : p.WellFormed) (h : p.addRow row entries = .ok q) :
    p.Adds row entries q := by
  have hq := hp.addRow h
  have hpos := ((hp.exists_addRow_iff).mp ⟨q, h⟩).amount_pos
  obtain ⟨-, cover, hcover, -, rfl⟩ := addRow_eq_ok h
  have hrow : SortedMap.get? (p.rows.insert row cover) row = some cover :=
    SortedMap.get?_insert_self hp.rows_ascending row cover
  have hamount (column : C) := (hq.cover _ (hq.row?_eq_some_iff.mp hrow)).map_get? column
  refine ⟨rfl, fun other => SortedMap.mem_keys_insert hp.rows_ascending,
    fun other hother => SortedMap.get?_insert_of_ne hp.rows_ascending hother cover,
    fun column hcolumn => ?_, fun column hcolumn => ?_⟩
  · have hne := (listed_eq_zero_iff hpos).not.mpr (not_not.mpr hcolumn)
    rw [amount?, row?, hrow, Option.bind_some, hamount, weight_of_extendAll_empty hcover,
      if_neg hne]
  · have hzero := (listed_eq_zero_iff hpos).mpr hcolumn
    have hnone := hamount column
    rw [weight_of_extendAll_empty hcover, if_pos hzero, Option.map_eq_none_iff] at hnone
    rw [amount?, row?, hrow, Option.bind_some, hnone]

/-- What is added leaves no trace of the order of its entries. -/
theorem Adds.unique {q' : Problem C R} {entries' : List (C × Amount)} (h : p.Adds row entries q)
    (h' : p.Adds row entries' q') (hq : q.WellFormed) (hq' : q'.WellFormed)
    (hperm : entries.Perm entries') : q = q' := by
  refine (hq.eq_iff_views hq').mpr ⟨fun column => ?_, fun other column => ?_⟩
  · rw [target?, target?, h.targets_eq, h'.targets_eq]
  · by_cases hother : other = row
    · subst hother
      have hcolumns : column ∈ entries.map (·.1) ↔ column ∈ entries'.map (·.1) :=
        (hperm.map _).mem_iff
      by_cases hcolumn : column ∈ entries.map (·.1)
      · refine map_toNat_injective ?_
        rw [h.amount?_listed column hcolumn, h'.amount?_listed column (hcolumns.mp hcolumn),
          listed_perm hperm]
      · rw [h.amount?_eq_none column hcolumn, h'.amount?_eq_none column (hcolumns.not.mp hcolumn)]
    · rw [amount?, amount?, h.row?_eq other hother, h'.row?_eq other hother]

/-- Entries in another order lead to the same problem. -/
theorem WellFormed.addRow_perm (hp : p.WellFormed) {entries' : List (C × Amount)}
    (hperm : entries.Perm entries') (h : p.addRow row entries = .ok q) :
    p.addRow row entries' = .ok q := by
  have hacceptable := ((hp.exists_addRow_iff).mp ⟨q, h⟩).perm hperm
  obtain ⟨q', h'⟩ := hacceptable.exists_addRow hp
  rw [h', (hp.adds h).unique (hp.adds h') (hp.addRow h) (hp.addRow h') hperm]

/-- Adding a row to any problem that can be built succeeds just if the row is acceptable, and then
    leads to the problem with that one more row. Neither depends on the order of the entries. If it
    fails nothing changes, and the cause is that the name is taken, or else the first fault among
    the entries, or else that there are no entries. -/
theorem Reachable.addRow_outcome (hp : p.Reachable) (row : R) (entries : List (C × Amount)) :
    ((∃ q, p.addRow row entries = .ok q) ↔ p.Acceptable row entries) ∧
    (∀ q, p.addRow row entries = .ok q → p.Adds row entries q) ∧
    (∀ entries', entries.Perm entries' →
      ∀ q, p.addRow row entries = .ok q ↔ p.addRow row entries' = .ok q) ∧
    (∀ cause, p.addRow row entries = .error cause ↔ p.Refuses row entries cause) ∧
    ∀ cause, p.addRow row entries = .error cause → p.attempt (.addRow row entries) = p := by
  have hwell := hp.wellFormed
  refine ⟨hwell.exists_addRow_iff, fun q => hwell.adds, fun entries' hperm q =>
    ⟨hwell.addRow_perm hperm, hwell.addRow_perm hperm.symm⟩, fun cause =>
    hwell.addRow_eq_error_iff, fun cause hcause => ?_⟩
  rw [Problem.attempt, Problem.edit, hcause]

/-- Entries that add up to the largest amount, in two orders, and entries whose first fault is that
    they exceed it. -/
theorem Reachable.addRow_up_to_limit : ∃ p q : Problem Nat Nat,
    p.addRow 8 [(2, 4294967294), (1, 4), (2, 1)] = .ok q ∧
    p.addRow 8 [(2, 1), (2, 4294967294), (1, 4)] = .ok q ∧
    (q.amount? 8 2).map UInt32.toNat = some 4294967295 ∧ q.row? 7 = p.row? 7 ∧
    p.addRow 8 [(1, 4), (2, 4294967295), (2, 1), (3, 1), (1, 0)] =
      .error (.amountOverflow 8 2) := by
  obtain ⟨p, hp, hcolumns, hrow, q, hq⟩ : ∃ p : Problem Nat Nat, p.Reachable ∧
      p.columns = [1, 2] ∧ p.rows.keys = [7] ∧
      ∃ q, p.addRow 8 [(2, 4294967294), (1, 4), (2, 1)] = .ok q :=
    ⟨_, .attempt (.addUnitRow 7 [1]) (.ofColumns (rfl : Problem.ofColumns [2, 1] = .ok _)),
      by decide, by decide, _, rfl⟩
  obtain ⟨-, hadds, hperm, -, -⟩ := hp.addRow_outcome 8 [(2, 4294967294), (1, 4), (2, 1)]
  have hfront : p.Flawless 8 [(1, 4), (2, 4294967295)] :=
    ((flawless_nil p 8).concat
      (not_faulty_iff.mpr ⟨by simp [hcolumns], by decide, by decide⟩)).concat
      (not_faulty_iff.mpr ⟨by simp [hcolumns], by decide, by decide⟩)
  obtain ⟨-, -, -, hrefused, -⟩ :=
    hp.addRow_outcome 8 [(1, 4), (2, 4294967295), (2, 1), (3, 1), (1, 0)]
  refine ⟨p, q, hq, (hperm _ (by decide) q).mp hq, (hadds q hq).amount?_listed 2 (by decide),
    (hadds q hq).row?_eq 7 (by decide), (hrefused _).mpr (.entry (by simp [hrow])
      ⟨_, _, _, rfl, hfront, .amountOverflow (by simp [hcolumns]) (by decide) (by decide)⟩)⟩

end ExactCover.Problem
