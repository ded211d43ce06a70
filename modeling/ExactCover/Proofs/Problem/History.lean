import ExactCover.Problem.Parts
import ExactCover.Proofs.Problem.WellFormed
import Mathlib.Algebra.GroupWithZero.Nat
import Mathlib.Data.List.Duplicate
import Mathlib.Data.List.Induction

namespace ExactCover

namespace SortedMap

variable {α β : Type} [Ord α] [Std.TransOrd α] [Std.LawfulEqOrd α]

/-- A tally has the count of each element that occurs. -/
theorem get?_tally [DecidableEq α] (xs : List α) (k : α) :
    (tally xs).get? k = if xs.count k = 0 then none else some (xs.count k) := by
  induction xs with
  | nil => rfl
  | cons x xs ih =>
    rw [tally]
    by_cases h : k = x
    · subst h
      rw [get?_insert_self (ascending_tally xs), ih, List.count_cons_self,
        if_neg (Nat.succ_ne_zero _)]
      split <;> simp_all
    · rw [get?_insert_of_ne (ascending_tally xs) h, ih, List.count_cons_of_ne (Ne.symm h)]

theorem mem_keys_tally {xs : List α} {k : α} : k ∈ (tally xs).keys ↔ k ∈ xs := by
  classical
  rw [← contains_iff (ascending_tally xs), contains, get?_tally]
  by_cases h : xs.count k = 0
  · simp [h, List.count_eq_zero.mp h]
  · simp [h, List.count_pos_iff.mp (Nat.pos_of_ne_zero h)]

omit [Std.TransOrd α] in
theorem Ascending.keys_nodup {m : SortedMap α β} (h : m.Ascending) : m.keys.Nodup :=
  List.pairwise_map.mpr (h.imp ne_of_compare_lt)

/-- The keys of a tally of different elements are these elements, in ascending order. -/
theorem keys_tally_perm {xs : List α} (h : xs.Nodup) : (tally xs).keys.Perm xs :=
  (List.perm_ext_iff_of_nodup (ascending_tally xs).keys_nodup h).mpr fun _ => mem_keys_tally

theorem get?_eq_none_iff {m : SortedMap α β} (h : m.Ascending) {k : α} :
    m.get? k = none ↔ k ∉ m.keys := by
  rw [← contains_iff h, contains, Option.isSome_iff_ne_none, not_not]

theorem mem_keys_insert {m : SortedMap α β} (h : m.Ascending) {j k : α} {v : β} :
    j ∈ (m.insert k v).keys ↔ j = k ∨ j ∈ m.keys := by
  rw [← contains_iff (h.insert k v), ← contains_iff h, contains, contains]
  by_cases hj : j = k
  · subst hj
    simp [get?_insert_self h]
  · simp [get?_insert_of_ne h hj, hj]

theorem keys_insert_perm {m : SortedMap α β} (h : m.Ascending) {k : α} (hk : k ∈ m.keys) (v : β) :
    (m.insert k v).keys.Perm m.keys := by
  refine (List.perm_ext_iff_of_nodup (h.insert k v).keys_nodup h.keys_nodup).mpr fun j => ?_
  rw [mem_keys_insert h, or_iff_right_iff_imp]
  rintro rfl
  exact hk

omit [Std.TransOrd α] [Std.LawfulEqOrd α] in
theorem ofList_concat (entries : List (α × β)) (k : α) (v : β) :
    ofList (entries ++ [(k, v)]) = (ofList entries).insert k v := by
  rw [ofList, List.foldl_append]
  rfl

theorem ascending_ofList (entries : List (α × β)) : (ofList entries).Ascending := by
  induction entries using List.reverseRecOn with
  | nil => exact ascending_empty
  | append_singleton entries e ih => exact ofList_concat entries e.1 e.2 ▸ ih.insert e.1 e.2

/-- Entries with different keys all stay. -/
theorem get?_ofList {entries : List (α × β)} (h : (entries.map (·.1)).Nodup) {k : α} {v : β} :
    (ofList entries).get? k = some v ↔ (k, v) ∈ entries := by
  induction entries using List.reverseRecOn with
  | nil => exact ⟨nofun, nofun⟩
  | append_singleton entries e ih =>
    obtain ⟨key, last⟩ := e
    have hascending := ascending_ofList entries
    rw [List.map_append, List.nodup_append] at h
    obtain ⟨hnodup, -, hne⟩ := h
    rw [ofList_concat, List.mem_append, List.mem_singleton, Prod.mk.injEq]
    by_cases heq : k = key
    · subst heq
      have hfresh : (k, v) ∉ entries := fun hmem =>
        hne k (List.mem_map_of_mem hmem) k (List.mem_singleton.mpr rfl) rfl
      rw [get?_insert_self hascending, Option.some.injEq, eq_comm]
      simp [hfresh]
    · rw [get?_insert_of_ne hascending heq, ih hnodup]
      simp [heq]

end SortedMap

namespace Problem

section Columns

variable {C R : Type} [Ord C] [Std.TransOrd C] [Std.LawfulEqOrd C] {columns : List C}

/-- Different columns make a universe. Of columns that are listed repeatedly the first one in the
    order of the columns is refused. -/
theorem ofColumns_spec (columns : List C) :
    columns.Nodup ∧ ofColumns columns =
        (.ok ⟨(SortedMap.tally columns).mapValues fun _ => 1, ∅⟩ : Except (Error C R) _) ∨
    ∃ column, ofColumns columns = (.error (.duplicateColumn column) : Except (Error C R) _) ∧
      List.Duplicate column columns ∧
      ∀ other, List.Duplicate other columns → other = column ∨ compare column other = .lt := by
  classical
  have hascending := SortedMap.ascending_tally columns
  have hcount (column : C) (n : Nat) :
      (column, n) ∈ (SortedMap.tally columns).entries ↔
        columns.count column ≠ 0 ∧ columns.count column = n := by
    rw [← SortedMap.get?_eq_some_iff hascending, SortedMap.get?_tally]
    split <;> simp_all
  unfold ofColumns
  dsimp only
  split
  · rename_i column n hfind
    obtain ⟨hlt, before, after, hsplit, hbefore⟩ := List.find?_eq_some_iff_append.mp hfind
    obtain ⟨hne, rfl⟩ := (hcount column n).mp (by simp [hsplit])
    have htwice : 2 ≤ columns.count column := of_decide_eq_true hlt
    refine .inr ⟨column, rfl, List.duplicate_iff_two_le_count.mpr htwice, fun other hother => ?_⟩
    have hagain := List.duplicate_iff_two_le_count.mp hother
    have hmem := (hcount other _).mpr ⟨by omega, rfl⟩
    rw [hsplit, List.mem_append, List.mem_cons] at hmem
    obtain hmem | heq | hmem := hmem
    · have hsingle := hbefore _ hmem
      simp only [Bool.not_eq_true', decide_eq_false_iff_not] at hsingle
      omega
    · exact .inl (Prod.mk.inj heq).1
    · rw [SortedMap.Ascending, hsplit, List.pairwise_append, List.pairwise_cons] at hascending
      exact .inr (hascending.2.1.1 _ hmem)
  · rename_i hfind
    refine .inl ⟨List.nodup_iff_count_le_one.mpr fun column => ?_, rfl⟩
    by_contra hlt
    have hmem := (hcount column _).mpr ⟨by omega, rfl⟩
    exact hlt (by simpa using List.find?_eq_none.mp hfind _ hmem)

/-- A universe that is accepted has no column twice, and every target is 1. -/
theorem ofColumns_eq_ok {p : Problem C R} (h : ofColumns columns = .ok p) :
    columns.Nodup ∧ p = ⟨(SortedMap.tally columns).mapValues fun _ => 1, ∅⟩ := by
  obtain ⟨hnodup, hok⟩ | ⟨column, herror, -⟩ := ofColumns_spec (R := R) columns
  · rw [hok] at h
    exact ⟨hnodup, (Except.ok.inj h).symm⟩
  · rw [herror] at h
    cases h

end Columns

section Covers

variable {C R : Type} [Ord C]

/-- What some entries list for a column in total. -/
def listed (entries : List (C × Amount)) (column : C) : Nat :=
  (entries.map fun entry => if compare entry.1 column = .eq then entry.2.toNat else 0).sum

/-- What a cover gives to a column. -/
def weight (cover : Cover C) (column : C) : Nat := ((cover.get? column).getD 0).toNat

@[simp]
theorem listed_cons (entry : C × Amount) (entries : List (C × Amount)) (column : C) :
    listed (entry :: entries) column =
      (if compare entry.1 column = .eq then entry.2.toNat else 0) + listed entries column :=
  List.sum_cons

theorem listed_of_not_mem [Std.LawfulEqOrd C] {entries : List (C × Amount)} {column : C}
    (h : column ∉ entries.map (·.1)) : listed entries column = 0 := by
  induction entries with
  | nil => rfl
  | cons entry entries ih =>
    obtain ⟨hne, hrest⟩ := not_or.mp (List.mem_cons.not.mp h)
    have hcompare : compare entry.1 column ≠ .eq := fun heq =>
      hne (Std.LawfulEqOrd.eq_of_compare heq).symm
    rw [listed_cons, if_neg hcompare, ih hrest]

/-- A column with one entry is given what that entry says. -/
theorem listed_of_mem [Std.LawfulEqOrd C] {entries : List (C × Amount)}
    (hnodup : (entries.map (·.1)).Nodup) {column : C} {amount : Amount}
    (h : (column, amount) ∈ entries) : listed entries column = amount.toNat := by
  induction entries with
  | nil => cases h
  | cons entry entries ih =>
    obtain ⟨hfresh, hrest⟩ := List.nodup_cons.mp hnodup
    rw [listed_cons]
    obtain rfl | hmem := List.mem_cons.mp h
    · rw [if_pos Std.ReflOrd.compare_self, listed_of_not_mem hfresh, Nat.add_zero]
    · have hne : entry.1 ≠ column := by
        rintro rfl
        exact hfresh (List.mem_map.mpr ⟨_, hmem, rfl⟩)
      rw [if_neg fun hcompare => hne (Std.LawfulEqOrd.eq_of_compare hcompare), ih hrest hmem,
        Nat.zero_add]

/-- The order of entries does not matter. -/
theorem listed_perm {entries entries' : List (C × Amount)} (h : entries.Perm entries')
    (column : C) : listed entries column = listed entries' column :=
  (h.map _).sum_nat

variable [Std.TransOrd C] [Std.LawfulEqOrd C] {p : Problem C R}

/-- Accepted entries add to the cover what they list. -/
theorem weight_of_extendAll {row : R} {entries : List (C × Amount)} {cover cover' : Cover C}
    (h : cover.Ascending) (hall : entries.foldlM (p.extendCover row) cover = .ok cover')
    (column : C) : weight cover' column = weight cover column + listed entries column := by
  induction entries generalizing cover with
  | nil =>
    cases hall
    rfl
  | cons entry entries ih =>
    rw [List.foldlM_cons, bind_eq_ok_iff] at hall
    obtain ⟨next, hfirst, hrest⟩ := hall
    obtain ⟨-, -, hfits, rfl⟩ := extendCover_eq_ok hfirst
    rw [ih (h.insert _ _) hrest, listed_cons, ← Nat.add_assoc]
    refine congrArg (· + listed entries column) ?_
    by_cases heq : column = entry.1
    · subst heq
      rw [if_pos Std.ReflOrd.compare_self, weight, SortedMap.get?_insert_self h,
        Option.getD_some, UInt32.toNat_add, Nat.mod_eq_of_lt hfits]
      rfl
    · rw [if_neg fun hcompare => heq (Std.LawfulEqOrd.eq_of_compare hcompare).symm, Nat.add_zero,
        weight, SortedMap.get?_insert_of_ne h heq]
      rfl

/-- Amounts are positive, so a column that is not covered is the same as one that is given
    nothing. -/
theorem CoverWellFormed.map_get? {cover : Cover C} (h : p.CoverWellFormed cover) (column : C) :
    (cover.get? column).map UInt32.toNat =
      if weight cover column = 0 then none else some (weight cover column) := by
  cases hget : cover.get? column with
  | none => simp [weight, hget]
  | some amount =>
    have hmem := (SortedMap.get?_eq_some_iff h.ascending).mp hget
    have hne : amount.toNat ≠ 0 := (amount_pos_iff.mpr (h.amount_ne_zero _ hmem)).ne'
    simp [weight, hget, hne]

/-- Covers without zeros that weigh the same in a column give it the same amount. -/
theorem CoverWellFormed.get?_eq_of_weight_eq {q : Problem C R} {cover cover' : Cover C}
    (h : p.CoverWellFormed cover) (h' : q.CoverWellFormed cover') {column : C}
    (hweight : weight cover column = weight cover' column) :
    cover.get? column = cover'.get? column := by
  refine map_toNat_injective ?_
  rw [h.map_get?, h'.map_get?, hweight]

end Covers

section Edits

variable {C R : Type}

/-- The target that an edit gives to a column. -/
def Edit.setting? : Edit C R → Option (C × Amount)
  | .setTarget column target => some (column, target)
  | _ => none

/-- The row that an edit adds, with its entries. -/
def Edit.row? : Edit C R → Option (R × List (C × Amount))
  | .addRow row entries => some (row, entries)
  | .addUnitRow row columns => some (row, columns.map fun column => (column, 1))
  | .setTarget _ _ => none

/-- The rows that some edits add, with their entries. -/
def rowsAdded (edits : List (Edit C R)) : List (R × List (C × Amount)) := edits.filterMap Edit.row?

/-- Targets add no rows. -/
theorem rowsAdded_setTargets (targets : List (C × Amount)) (edits : List (Edit C R)) :
    rowsAdded (targets.map (fun e => .setTarget e.1 e.2) ++ edits) = rowsAdded edits := by
  induction targets with
  | nil => rfl
  | cons target targets ih => exact ih

theorem rowsAdded_map {α : Type} {f : α → Edit C R} {g : α → R × List (C × Amount)}
    (h : ∀ x, (f x).row? = some (g x)) (xs : List α) : rowsAdded (xs.map f) = xs.map g := by
  rw [rowsAdded, List.filterMap_map, ← List.filterMap_eq_map]
  exact List.filterMap_congr fun x _ => h x

variable [Ord C]

/-- The targets that some edits give to columns, the last one of each column. -/
def settings (edits : List (Edit C R)) : SortedMap C Amount :=
  .ofList (edits.filterMap Edit.setting?)

/-- The target that a column has after some edits. It is 1 at first. -/
def lastTarget (edits : List (Edit C R)) (column : C) : Amount :=
  ((settings edits).get? column).getD 1

/-- A target that is set last is the one that counts. -/
theorem settings_setTarget (edits : List (Edit C R)) (column : C) (target : Amount) :
    settings (edits ++ [.setTarget column target]) = (settings edits).insert column target := by
  rw [settings, List.filterMap_append]
  exact SortedMap.ofList_concat _ column target

/-- Rows leave the targets in front of them as they are. -/
theorem settings_setTargets (targets : List (C × Amount)) {rows : List (Edit C R)}
    (h : ∀ e ∈ rows, e.setting? = none) :
    settings (targets.map (fun e => .setTarget e.1 e.2) ++ rows) = .ofList targets := by
  rw [settings, List.filterMap_append, List.filterMap_eq_nil_iff.mpr h, List.append_nil,
    List.filterMap_map]
  exact congrArg SortedMap.ofList List.filterMap_some

variable [Ord R]

/-- The edit that a row of parts stands for. A column that the parts give an amount to has that
    amount, any other column 1 for each listing. -/
def rowOfParts (parts : Parts C R) (row : R × List C) : Edit C R :=
  let given := SortedMap.ofList
    (parts.amounts.map fun (row, cover) => (row, SortedMap.ofList cover))
  .addRow row.1 (entriesOf ((given.get? row.1).getD ∅) row.2)

/-- The edits that parts stand for. -/
def editsOfParts (parts : Parts C R) : List (Edit C R) :=
  parts.targets.map (fun e => .setTarget e.1 e.2) ++ parts.rows.map (rowOfParts parts)

/-- The problem over a universe of columns after some accepted edits. -/
inductive Built (columns : List C) : List (Edit C R) → Problem C R → Prop where
  | blank {p : Problem C R} (h : ofColumns columns = .ok p) : Built columns [] p
  | accept {edits : List (Edit C R)} {p q : Problem C R} {e : Edit C R}
      (h : Built columns edits p) (hedit : p.edit e = .ok q) : Built columns (edits ++ [e]) q

/-- A problem holds what its columns and some edits put into it. -/
structure Holds (columns : List C) (edits : List (Edit C R)) (p : Problem C R) : Prop where
  wellFormed : p.WellFormed
  nodup : columns.Nodup
  columns_perm : p.columns.Perm columns
  target?_eq : ∀ column ∈ columns, p.target? column = some (lastTarget edits column)
  /-- No row is added twice. -/
  rows_nodup : ((rowsAdded edits).map (·.1)).Nodup
  mem_rows : ∀ row, row ∈ p.rows.keys ↔ row ∈ (rowsAdded edits).map (·.1)
  weight_eq : ∀ added ∈ rowsAdded edits, ∃ cover, p.row? added.1 = some cover ∧
    ∀ column, weight cover column = listed added.2 column

variable [Std.TransOrd C] [Std.LawfulEqOrd C] {columns : List C} {edits : List (Edit C R)}
  {p q : Problem C R}

theorem holds_ofColumns (h : ofColumns columns = .ok p) : Holds columns [] p := by
  have hwell := wellFormed_ofColumns h
  obtain ⟨hnodup, rfl⟩ := ofColumns_eq_ok h
  have hkeys : (⟨(SortedMap.tally columns).mapValues fun _ => 1, ∅⟩ : Problem C R).columns =
      (SortedMap.tally columns).keys := by
    simp [Problem.columns, SortedMap.keys, SortedMap.mapValues]
  refine ⟨hwell, hnodup, hkeys ▸ SortedMap.keys_tally_perm hnodup, fun column hcolumn => ?_,
    List.nodup_nil, fun row => Iff.rfl, fun added hadded => absurd hadded List.not_mem_nil⟩
  obtain ⟨n, hn⟩ := SortedMap.mem_keys_iff.mp (SortedMap.mem_keys_tally.mpr hcolumn)
  exact (SortedMap.get?_eq_some_iff hwell.targets_ascending).mpr (List.mem_map_of_mem hn)

/-- Setting a target changes what a problem holds by that target only. -/
theorem Holds.setTarget (hp : Holds columns edits p) {column : C} {target : Amount}
    (h : p.setTarget column target = .ok q) :
    Holds columns (edits ++ [.setTarget column target]) q := by
  have hwell := hp.wellFormed.setTarget h
  have hascending := hp.wellFormed.targets_ascending
  have hsettings : (settings edits).Ascending := SortedMap.ascending_ofList _
  obtain ⟨hcontains, -, rfl⟩ := setTarget_eq_ok h
  have hrows : rowsAdded (edits ++ [.setTarget column target]) = rowsAdded edits := by
    simp [rowsAdded, Edit.row?]
  refine ⟨hwell, hp.nodup, ?_, fun other hother => ?_, hrows ▸ hp.rows_nodup,
    hrows ▸ hp.mem_rows, hrows ▸ hp.weight_eq⟩
  · have hcolumn := (SortedMap.contains_iff hascending).mp hcontains
    exact (SortedMap.keys_insert_perm hascending hcolumn target).trans hp.columns_perm
  · by_cases heq : other = column
    · subst heq
      rw [lastTarget, settings_setTarget, SortedMap.get?_insert_self hsettings]
      exact SortedMap.get?_insert_self hascending other target
    · rw [lastTarget, settings_setTarget, SortedMap.get?_insert_of_ne hsettings heq]
      exact (SortedMap.get?_insert_of_ne hascending heq target).trans (hp.target?_eq other hother)

variable [Std.TransOrd R] [Std.LawfulEqOrd R]

/-- Adding a row changes what a problem holds by that row only. -/
theorem Holds.addRow (hp : Holds columns edits p) {e : Edit C R} {row : R}
    {entries : List (C × Amount)} (hrow : e.row? = some (row, entries))
    (hsetting : e.setting? = none) (h : p.addRow row entries = .ok q) :
    Holds columns (edits ++ [e]) q := by
  have hwell := hp.wellFormed.addRow h
  have hascending := hp.wellFormed.rows_ascending
  obtain ⟨hcontains, cover, hcover, hne, rfl⟩ := addRow_eq_ok h
  have hrows : rowsAdded (edits ++ [e]) = rowsAdded edits ++ [(row, entries)] := by
    simp [rowsAdded, hrow]
  have hfresh : row ∉ (rowsAdded edits).map (·.1) := by
    rw [← hp.mem_rows, ← SortedMap.contains_iff hascending, hcontains]
    exact Bool.false_ne_true
  refine ⟨hwell, hp.nodup, hp.columns_perm, fun column hcolumn => ?_, ?_, fun other => ?_, ?_⟩
  · have htargets : lastTarget (edits ++ [e]) column = lastTarget edits column := by
      simp [lastTarget, settings, hsetting]
    exact htargets ▸ hp.target?_eq column hcolumn
  · rw [hrows, List.map_append, List.nodup_append]
    refine ⟨hp.rows_nodup, List.nodup_singleton row, ?_⟩
    rintro other hother _ hmem rfl
    obtain rfl : other = row := List.mem_singleton.mp hmem
    exact hfresh hother
  · rw [SortedMap.mem_keys_insert hascending, hp.mem_rows, hrows, List.map_append, List.mem_append,
      or_comm, List.map_singleton, List.mem_singleton]
  · rw [hrows]
    intro added hadded
    obtain hadded | hadded := List.mem_append.mp hadded
    · obtain ⟨cover', hrow', hweight⟩ := hp.weight_eq added hadded
      have hother : added.1 ≠ row := fun heq => hfresh (heq ▸ List.mem_map_of_mem hadded)
      exact ⟨cover', (SortedMap.get?_insert_of_ne hascending hother cover).trans hrow', hweight⟩
    · obtain rfl := List.mem_singleton.mp hadded
      refine ⟨cover, SortedMap.get?_insert_self hascending row cover, fun column => ?_⟩
      have hweight := weight_of_extendAll SortedMap.ascending_empty hcover column
      exact hweight.trans (Nat.zero_add _)

/-- What a row gives to a column is what its entries list for it in total, if they list anything. -/
theorem Holds.map_amount? (hp : Holds columns edits p) {added : R × List (C × Amount)}
    (h : added ∈ rowsAdded edits) (column : C) :
    (p.amount? added.1 column).map UInt32.toNat =
      if listed added.2 column = 0 then none else some (listed added.2 column) := by
  obtain ⟨cover, hrow, hweight⟩ := hp.weight_eq added h
  have hcover : p.CoverWellFormed cover := hp.wellFormed.cover (added.1, cover)
    ((SortedMap.get?_eq_some_iff hp.wellFormed.rows_ascending).mp hrow)
  rw [amount?, hrow, Option.bind_some, hcover.map_get?, hweight]

/-- Nothing is given by other rows or to other columns. -/
theorem Holds.mem_of_amount? (hp : Holds columns edits p) {row : R} {column : C}
    (h : (p.amount? row column).isSome) :
    row ∈ (rowsAdded edits).map (·.1) ∧ column ∈ columns := by
  obtain ⟨amount, hget⟩ := Option.isSome_iff_exists.mp h
  obtain ⟨cover, hrow, hentry⟩ := Option.bind_eq_some_iff.mp hget
  have hmem := (SortedMap.get?_eq_some_iff hp.wellFormed.rows_ascending).mp hrow
  have hcover := hp.wellFormed.cover _ hmem
  have hcolumn := hcover.mem_columns _ ((SortedMap.get?_eq_some_iff hcover.ascending).mp hentry)
  rw [← hp.mem_rows]
  exact ⟨SortedMap.mem_keys_iff.mpr ⟨cover, hmem⟩, hp.columns_perm.mem_iff.mp hcolumn⟩

/-- What was built holds what was put into it. -/
theorem Built.holds (h : Built columns edits p) : Holds columns edits p := by
  induction h with
  | blank h => exact holds_ofColumns h
  | @accept edits p q e _ hedit ih =>
    cases e with
    | setTarget column target => exact ih.setTarget hedit
    | addRow row entries => exact ih.addRow rfl rfl hedit
    | addUnitRow row columns => exact ih.addRow rfl rfl hedit

omit [Std.TransOrd C] [Std.LawfulEqOrd C] [Std.TransOrd R] [Std.LawfulEqOrd R] in
/-- A loop that makes one edit after the other. -/
theorem Built.foldlM {α : Type} {f : Problem C R → α → Except (Error C R) (Problem C R)}
    {xs : List α} (h : Built columns edits p) (g : α → Edit C R)
    (hedit : ∀ p x, f p x = p.edit (g x)) (hrun : xs.foldlM f p = .ok q) :
    Built columns (edits ++ xs.map g) q := by
  induction xs generalizing edits p with
  | nil =>
    cases hrun
    rwa [List.map_nil, List.append_nil]
  | cons x xs ih =>
    rw [List.foldlM_cons, bind_eq_ok_iff] at hrun
    obtain ⟨next, hfirst, hrest⟩ := hrun
    rw [hedit] at hfirst
    rw [List.map_cons, List.append_cons]
    exact ih (h.accept hfirst) hrest

omit [Std.TransOrd C] [Std.LawfulEqOrd C] [Std.TransOrd R] [Std.LawfulEqOrd R] in
/-- The history of a problem that parts describe: its targets and then its rows. -/
theorem built_ofParts {parts : Parts C R} (h : ofParts parts = .ok p) :
    Built parts.columns (editsOfParts parts) p := by
  obtain ⟨blank, hblank, h⟩ := bind_eq_ok_iff.mp h
  obtain ⟨withTargets, htargets, h⟩ := bind_eq_ok_iff.mp h
  have hmiddle := (Built.blank hblank).foldlM (fun e : C × Amount => .setTarget e.1 e.2)
    (fun _ _ => rfl) htargets
  exact hmiddle.foldlM (rowOfParts parts) (fun _ _ => rfl) h

omit [Std.TransOrd C] [Std.LawfulEqOrd C] [Std.TransOrd R] [Std.LawfulEqOrd R] in
/-- Everything that can be built has a history of accepted edits. -/
theorem Reachable.exists_built (h : p.Reachable) :
    ∃ (columns : List C) (edits : List (Edit C R)), Built columns edits p := by
  induction h with
  | ofColumns h => exact ⟨_, _, .blank h⟩
  | ofParts h => exact ⟨_, _, built_ofParts h⟩
  | @attempt p e _ ih =>
    obtain ⟨columns, edits, hbuilt⟩ := ih
    unfold Problem.attempt
    cases hedit : p.edit e with
    | ok q => exact ⟨columns, _, hbuilt.accept hedit⟩
    | error cause => exact ⟨columns, edits, hbuilt⟩

omit [Std.TransOrd C] [Std.LawfulEqOrd C] [Std.TransOrd R] [Std.LawfulEqOrd R] in
/-- What has a history of accepted edits can be built. -/
theorem Built.reachable (h : Built columns edits p) : p.Reachable := by
  induction h with
  | blank h => exact .ofColumns h
  | accept _ hedit ih => exact ih.edit hedit

end Edits

end Problem

end ExactCover
