import ExactCover.Problem.Parts
import ExactCover.Proofs.Problem.WellFormed

namespace ExactCover

namespace SortedMap

variable {α β : Type} [Ord α]

/-- Ascending elements occur once each. -/
theorem tally_of_ascending {xs : List α} (h : xs.Pairwise fun x y => compare x y = .lt) :
    tally xs = ⟨xs.map fun x => (x, 1)⟩ := by
  induction xs with
  | nil => rfl
  | cons x xs ih =>
    obtain ⟨hhead, hrest⟩ := List.pairwise_cons.mp h
    rw [tally, ih hrest]
    cases xs with
    | nil => rfl
    | cons y xs => simp [get?, lookup, SortedMap.insert, place, hhead y List.mem_cons_self]

/-- A fold over the entries of an ascending map does not fail if every step leads from one of some
    states to the next. The states follow from what is done and what is left, and all keys that are
    done are smaller than the next one. -/
theorem Ascending.foldlM_entries {ε σ : Type} {f : σ → α × β → Except ε σ} {m : SortedMap α β}
    (h : m.Ascending) (state : List (α × β) → List (α × β) → σ)
    (hstep : ∀ done e todo, e ∈ m.entries → (∀ d ∈ done, compare d.1 e.1 = .lt) →
      f (state done (e :: todo)) e = .ok (state (done ++ [e]) todo)) :
    m.entries.foldlM f (state [] m.entries) = .ok (state m.entries []) := by
  suffices hrest : ∀ todo done, done ++ todo = m.entries →
      todo.foldlM f (state done todo) = .ok (state m.entries []) from hrest m.entries [] rfl
  intro todo
  induction todo with
  | nil =>
    intro done hall
    rw [List.append_nil] at hall
    rw [hall]
    rfl
  | cons e todo ih =>
    intro done hall
    have hless : ∀ d ∈ done, compare d.1 e.1 = .lt := by
      rw [Ascending, ← hall] at h
      exact less_of_ascending h
    have he : e ∈ m.entries := by simp [← hall]
    rw [List.foldlM_cons, hstep done e todo he hless]
    exact ih (done ++ [e]) ((List.append_cons ..).symm.trans hall)

variable [Std.LawfulEqOrd α]

/-- Counting one more element is putting it in front of the elements counted so far, up to order. -/
theorem flatMap_place_perm (k : α) (es : List (α × Nat)) :
    ((place k ((lookup k es).getD 0 + 1) es).flatMap fun (x, n) => List.replicate n x).Perm
      (k :: es.flatMap fun (x, n) => List.replicate n x) := by
  induction es with
  | nil => simp [place, lookup]
  | cons head rest ih =>
    obtain ⟨j, w⟩ := head
    rw [place, lookup]
    cases hcmp : compare k j with
    | lt => simp
    | eq =>
      obtain rfl := Std.LawfulEqOrd.eq_of_compare hcmp
      simp [List.replicate_succ]
    | gt =>
      simp only [List.flatMap_cons]
      exact (ih.append_left _).trans List.perm_middle

theorem flatMap_tally_perm (xs : List α) :
    ((tally xs).entries.flatMap fun (x, n) => List.replicate n x).Perm xs := by
  induction xs with
  | nil => exact .nil
  | cons x xs ih => exact (flatMap_place_perm x _).trans (ih.cons x)

variable [Std.TransOrd α]

/-- Sorting a list puts as many of each of its elements behind each other as the list has. -/
theorem mergeSort_eq_flatMap_tally (xs : List α) :
    (xs.mergeSort fun x y => (compare x y).isLE) =
      (tally xs).entries.flatMap fun (x, n) => List.replicate n x := by
  have htotal (x y : α) : ((compare x y).isLE || (compare y x).isLE) = true := by
    have hswap : compare y x = (compare x y).swap := Std.OrientedCmp.eq_swap
    rw [hswap]
    cases compare x y <;> rfl
  have hsorted : (xs.mergeSort fun x y => (compare x y).isLE).Pairwise
      fun x y => (compare x y).isLE :=
    List.pairwise_mergeSort (fun _ _ _ => Std.TransCmp.isLE_trans) htotal xs
  have hgroups : ((tally xs).entries.flatMap fun (x, n) => List.replicate n x).Pairwise
      fun x y => (compare x y).isLE := by
    refine List.pairwise_flatMap.mpr ⟨?_, (ascending_tally xs).imp ?_⟩
    · intro e _
      exact List.pairwise_replicate.mpr (.inr (by rw [Std.ReflOrd.compare_self]; rfl))
    · intro e e' hless x hx y hy
      rw [List.eq_of_mem_replicate hx, List.eq_of_mem_replicate hy, hless]
      rfl
  refine List.Perm.eq_of_pairwise (fun x y _ _ hxy hyx => ?_) hsorted hgroups
    ((List.mergeSort_perm _ _).trans (flatMap_tally_perm xs).symm)
  exact Std.LawfulEqCmp.eq_of_compare (Std.OrientedCmp.isLE_antisymm hxy hyx)

theorem pos_of_mem_tally {xs : List α} {e : α × Nat} (he : e ∈ (tally xs).entries) : 0 < e.2 := by
  induction xs with
  | nil => cases he
  | cons x xs ih =>
    obtain rfl | ⟨he, -⟩ := (mem_insert (ascending_tally xs)).mp he
    · exact Nat.succ_pos _
    · exact ih he

end SortedMap

namespace Problem

section Steps

variable {C R : Type} [Ord C] {p : Problem C R}

theorem setTarget_of_contains {column : C} {target : Amount}
    (hcolumn : p.targets.contains column = true) (hne : target ≠ 0) :
    p.setTarget column target = .ok { p with targets := p.targets.insert column target } := by
  simp [setTarget, hcolumn, hne]

/-- The first listing of a column counts as it is. -/
theorem extendCover_of_get?_eq_none {row : R} {cover : Cover C} {entry : C × Amount}
    (hcolumn : p.targets.contains entry.1 = true) (hne : entry.2 ≠ 0)
    (hfirst : cover.get? entry.1 = none) :
    p.extendCover row cover entry = .ok (cover.insert entry.1 entry.2) := by
  have hfits : entry.2.toNat < UInt32.size := entry.2.toNat_lt
  simp [extendCover, hcolumn, hne, hfirst, hfits]

theorem addRow_of_extendAll [Ord R] {row : R} {entries : List (C × Amount)} {cover : Cover C}
    (hrow : p.rows.contains row = false)
    (hcover : entries.foldlM (p.extendCover row) ∅ = .ok cover) (hne : cover.entries ≠ []) :
    p.addRow row entries = .ok { p with rows := p.rows.insert row cover } := by
  simp [addRow, hrow, hcover, SortedMap.isEmpty, hne, bind, Except.bind, pure, Except.pure]

end Steps

variable {C R : Type} [Ord C] [Ord R] [Std.TransOrd C] [Std.LawfulEqOrd C] {p : Problem C R}

/-- The entries of a cover that is listed with all its amounts. -/
theorem entriesOf_keys {cover : Cover C} (h : cover.Ascending) :
    entriesOf cover cover.keys = cover.entries := by
  have hkeys : cover.keys.Pairwise fun x y => compare x y = .lt := List.pairwise_map.mpr h
  rw [entriesOf, SortedMap.tally_of_ascending hkeys, SortedMap.keys, List.map_map,
    List.flatMap_map]
  refine Eq.trans (List.flatMap_congr fun e he => ?_) (List.flatMap_singleton' cover.entries)
  have hget : cover.get? e.1 = some e.2 := (SortedMap.get?_eq_some_iff h).mpr he
  simp only [Function.comp_apply, hget]

omit [Ord R] in
theorem CoverWellFormed.extendAll {cover : Cover C} (h : p.CoverWellFormed cover)
    (hp : p.targets.Ascending) (row : R) :
    cover.entries.foldlM (p.extendCover row) ∅ = .ok cover := by
  refine h.ascending.foldlM_entries (fun done _ => (⟨done⟩ : Cover C))
    fun done e todo he hless => ?_
  have hcolumn := (SortedMap.contains_iff hp).mpr (h.mem_columns e he)
  rw [extendCover_of_get?_eq_none hcolumn (h.amount_ne_zero e he) (SortedMap.get?_of_less hless),
    SortedMap.insert_of_less hless]

omit [Ord R] [Std.TransOrd C] [Std.LawfulEqOrd C] in
theorem ofColumns_of_ascending {columns : List C}
    (h : columns.Pairwise fun x y => compare x y = .lt) :
    ofColumns columns = (.ok ⟨⟨columns.map fun c => (c, 1)⟩, ∅⟩ : Except (Error C R) _) := by
  rw [ofColumns, SortedMap.tally_of_ascending h]
  dsimp only
  -- No column is counted more than once.
  rw [List.find?_eq_none.mpr (by simp)]
  simp [SortedMap.mapValues]

/-- The problem without rows of which some targets are set and those of other columns are 1. -/
def settingTargets (done todo : List (C × Amount)) : Problem C R :=
  ⟨⟨done ++ todo.map fun e => (e.1, 1)⟩, ∅⟩

/-- Setting all targets of a problem, in ascending order. -/
theorem WellFormed.setTargets (hp : p.WellFormed) :
    p.targets.entries.foldlM (fun p (column, n) => p.setTarget column n)
      (settingTargets [] p.targets.entries : Problem C R) =
        .ok (settingTargets p.targets.entries []) := by
  refine hp.targets_ascending.foldlM_entries settingTargets fun done e todo he hless => ?_
  have hcolumn : (settingTargets done (e :: todo) : Problem C R).targets.contains e.1 = true := by
    have hlookup := SortedMap.lookup_append hless (((e :: todo).map fun e => (e.1, (1 : Amount))))
    rw [SortedMap.contains, SortedMap.get?, settingTargets, hlookup]
    simp [SortedMap.lookup, Std.ReflOrd.compare_self]
  have hplace := SortedMap.place_append hless e.2 ((e :: todo).map fun e => (e.1, (1 : Amount)))
  dsimp only
  rw [setTarget_of_contains hcolumn (hp.target_ne_zero e he)]
  simp only [settingTargets, SortedMap.insert, hplace]
  simp [SortedMap.place, Std.ReflOrd.compare_self]

variable [Std.TransOrd R] [Std.LawfulEqOrd R]

theorem WellFormed.addRows (hp : p.WellFormed) {given : SortedMap R (Cover C)}
    (hgiven : given = p.rows) :
    (p.rows.entries.map fun (row, cover) => (row, cover.keys)).foldlM
      (fun q (row, listed) => q.addRow row (entriesOf ((given.get? row).getD ∅) listed))
      (⟨p.targets, ∅⟩ : Problem C R) = .ok p := by
  rw [List.foldlM_map, hgiven]
  refine hp.rows_ascending.foldlM_entries (fun done _ => (⟨p.targets, ⟨done⟩⟩ : Problem C R))
    fun done e todo he hless => ?_
  have hget : p.rows.get? e.1 = some e.2 := (SortedMap.get?_eq_some_iff hp.rows_ascending).mpr he
  have hcover := hp.cover e he
  dsimp only
  rw [hget, Option.getD_some, entriesOf_keys hcover.ascending]
  have hrow : (⟨done⟩ : SortedMap R (Cover C)).contains e.1 = false := by
    rw [SortedMap.contains, SortedMap.get?_of_less hless]
    rfl
  have hadd := addRow_of_extendAll (p := ⟨p.targets, ⟨done⟩⟩) hrow
    (hcover.extendAll hp.targets_ascending e.1) (hp.cover_ne_nil e he)
  rw [hadd, SortedMap.insert_of_less hless]

/-- The parts of a problem describe it. -/
theorem WellFormed.ofParts_toParts (hp : p.WellFormed) : ofParts p.toParts = .ok p := by
  have hcolumns : p.columns.Pairwise fun x y => compare x y = .lt :=
    List.pairwise_map.mpr hp.targets_ascending
  have hblank : (⟨⟨p.columns.map fun c => (c, 1)⟩, ∅⟩ : Problem C R) =
      settingTargets [] p.targets.entries := by
    rw [columns, SortedMap.keys, List.map_map]
    rfl
  have hset : (settingTargets p.targets.entries [] : Problem C R) = ⟨p.targets, ∅⟩ := by
    rw [settingTargets, List.map_nil, List.append_nil]
  have hgiven : SortedMap.ofList (p.toParts.amounts.map fun e => (e.1, SortedMap.ofList e.2)) =
      p.rows := by
    have hentries : p.toParts.amounts.map (fun e => (e.1, SortedMap.ofList e.2)) =
        p.rows.entries := by
      rw [toParts, List.map_map]
      refine Eq.trans (List.map_congr_left fun e he => ?_) (List.map_id _)
      exact Prod.ext rfl (hp.cover e he).ascending.ofList_entries
    rw [hentries, hp.rows_ascending.ofList_entries]
  have htargets := hp.setTargets
  rw [← hblank, hset] at htargets
  refine bind_eq_ok_iff.mpr ⟨_, ofColumns_of_ascending hcolumns, ?_⟩
  exact bind_eq_ok_iff.mpr ⟨_, htargets, hp.addRows hgiven⟩

end Problem

end ExactCover
