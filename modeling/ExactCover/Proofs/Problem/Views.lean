import ExactCover.Proofs.Bisection
import ExactCover.Proofs.Problem.Grid

namespace ExactCover.Problem

/-- The problems that are obtained from a list of columns, from parts, from a link text or from a
    table, and then edited. A refused edit counts too. -/
inductive Obtained : {C R : Type} → [Ord C] → [Ord R] → Problem C R → Prop where
  | ofColumns {C R : Type} [Ord C] [Ord R] {columns : List C} {p : Problem C R}
      (h : ofColumns columns = .ok p) : Obtained p
  | ofParts {C R : Type} [Ord C] [Ord R] {parts : Parts C R} {p : Problem C R}
      (h : ofParts parts = .ok p) : Obtained p
  | decode {C R : Type} [Ord C] [Ord R] [Json.Coded C] [Json.Coded R] {text : String}
      {p : Problem C R} (h : Codec.decode text = .ok p) : Obtained p
  | toProblem {t : Table} {p : Problem String String} (h : t.toProblem = .ok p) : Obtained p
  | attempt {C R : Type} [Ord C] [Ord R] {p : Problem C R} (e : Edit C R) (h : Obtained p) :
      Obtained (p.attempt e)

variable {C R : Type} [Ord C] [Ord R] {p : Problem C R}

/-- What was obtained in any way can be built. -/
theorem Obtained.reachable (h : p.Obtained) : p.Reachable := by
  induction h with
  | ofColumns h => exact .ofColumns h
  | ofParts h => exact .ofParts h
  | decode h => exact Codec.reachable_of_decode h
  | toProblem h => exact Table.reachable_of_toProblem h
  | attempt e _ ih => exact .attempt e ih

/-- The target of a column, searched by halving among the columns. -/
def bisectTarget (p : Problem C R) (column : C) : Option Amount :=
  bisectEntry p.targets.entries column

/-- The entries of a cover with the positions of the columns in place of the columns. -/
def numbered (p : Problem C R) (cover : Cover C) : List (Nat × Amount) :=
  (p.positions cover).map fun entry => (entry.1.val, entry.2)

/-- What a row gives to a column: the position of the column is searched by halving, and then that
    position among those of the row. -/
def bisectAmount (p : Problem C R) (row : R) (column : C) : Option Amount :=
  (bisect p.columns column).bind fun i => (p.row? row).bind fun cover =>
    bisectEntry (p.numbered cover) i

/-- What is listed is ascending and complete, and every look-up finds what is listed. -/
structure ViewsAgree (p : Problem C R) : Prop where
  columns_ascending : p.columns.Pairwise fun c c' => compare c c' = .lt
  /-- Every column has one target. -/
  target_unique : ∀ c ∈ p.columns, ∃! t, (c, t) ∈ p.targets.entries
  target_bounds : ∀ e ∈ p.targets.entries, 1 ≤ e.2.toNat ∧ e.2.toNat ≤ 2 ^ 32 - 1
  rows_ascending : p.rows.keys.Pairwise fun r r' => compare r r' = .lt
  cover_ne_nil : ∀ e ∈ p.rows.entries, e.2.entries ≠ []
  cover_ascending : ∀ e ∈ p.rows.entries, e.2.keys.Pairwise fun c c' => compare c c' = .lt
  /-- By their positions, which are all below the number of columns, the columns of a row are the
      same. -/
  positions_labels : ∀ e ∈ p.rows.entries,
    (p.positions e.2).map (fun x => (p.columnAt x.1, x.2)) = e.2.entries
  positions_ascending : ∀ e ∈ p.rows.entries, ((p.positions e.2).map (·.1)).Pairwise (· < ·)
  amount_bounds : ∀ e ∈ p.rows.entries, ∀ x ∈ e.2.entries, 1 ≤ x.2.toNat ∧ x.2.toNat ≤ 2 ^ 32 - 1
  target?_iff : ∀ c t, p.target? c = some t ↔ (c, t) ∈ p.targets.entries
  target?_eq_bisect : ∀ c, p.target? c = p.bisectTarget c
  amount?_iff_row? : ∀ r c a, p.amount? r c = some a ↔
    ∃ cover, p.row? r = some cover ∧ (c, a) ∈ cover.entries
  amount?_iff_rows : ∀ r c a, p.amount? r c = some a ↔
    ∃ cover, (r, cover) ∈ p.rows.entries ∧ (c, a) ∈ cover.entries
  amount?_eq_bisect : ∀ r c, p.amount? r c = p.bisectAmount r c

theorem amount_bounds_of_ne_zero {n : Amount} (h : n ≠ 0) : 1 ≤ n.toNat ∧ n.toNat ≤ 2 ^ 32 - 1 := by
  have hpos := amount_pos_iff.mpr h
  have hlt := n.toNat_lt
  omega

omit [Ord R] in
theorem getElem?_columns (i : Fin p.targets.size) : p.columns[i.val]? = some (p.columnAt i) := by
  rw [columns, SortedMap.keys, List.getElem?_map]
  exact congrArg (Option.map (·.1)) (List.getElem?_eq_getElem i.2)

theorem WellFormed.columns_ascending (hp : p.WellFormed) :
    p.columns.Pairwise fun c c' => compare c c' = .lt := List.pairwise_map.mpr hp.targets_ascending

variable [Std.TransOrd C] [Std.LawfulEqOrd C]

theorem WellFormed.positions_labels (hp : p.WellFormed) {e : R × Cover C}
    (he : e ∈ p.rows.entries) :
    (p.positions e.2).map (fun x => (p.columnAt x.1, x.2)) = e.2.entries :=
  Problem.positions_labels hp.targets_ascending (hp.cover e he).mem_columns

/-- The positions of a cover are ascending. -/
theorem WellFormed.positions_ascending (hp : p.WellFormed) {e : R × Cover C}
    (he : e ∈ p.rows.entries) : ((p.positions e.2).map (·.1)).Pairwise (· < ·) := by
  obtain ⟨row, rfl⟩ := SortedMap.mem_entries_iff.mp he
  have hcover := congrArg (fun entries => (entries.map (·.1)).Pairwise (· < ·)) (grid_cover p row)
  exact hcover.mp (hp.grid.columns_ascending row)

/-- Among the positions of a row, searching for the position of a column finds its amount. -/
theorem WellFormed.bisectEntry_numbered (hp : p.WellFormed) {e : R × Cover C}
    (he : e ∈ p.rows.entries) {i : Nat} {a : Amount} :
    bisectEntry (p.numbered e.2) i = some a ↔
      ∃ c, p.columns[i]? = some c ∧ (c, a) ∈ e.2.entries := by
  have hascending : (p.numbered e.2).Pairwise fun x y => compare x.1 y.1 = .lt := by
    refine List.pairwise_map.mpr ?_
    exact (List.pairwise_map.mp (hp.positions_ascending he)).imp Nat.compare_eq_lt.mpr
  rw [bisectEntry_eq_some_iff hascending, numbered, ← hp.positions_labels he]
  simp only [List.mem_map, Prod.mk.injEq]
  constructor
  · rintro ⟨x, hx, rfl, rfl⟩
    exact ⟨_, getElem?_columns x.1, x, hx, rfl, rfl⟩
  · rintro ⟨c, hc, x, hx, rfl, rfl⟩
    refine ⟨x, hx, ?_, rfl⟩
    have hnodup : p.columns.Nodup := hp.columns_ascending.imp SortedMap.ne_of_compare_lt
    have hi := (List.getElem?_eq_some_iff.mp hc).1
    exact ((List.getElem?_inj hi hnodup).mp (hc.trans (getElem?_columns x.1).symm)).symm

theorem WellFormed.target?_eq_some_iff (hp : p.WellFormed) {c : C} {t : Amount} :
    p.target? c = some t ↔ (c, t) ∈ p.targets.entries :=
  SortedMap.get?_eq_some_iff hp.targets_ascending

/-- Every column has one target. -/
theorem WellFormed.target_unique (hp : p.WellFormed) {c : C} (hc : c ∈ p.columns) :
    ∃! t, (c, t) ∈ p.targets.entries := by
  obtain ⟨t, ht⟩ := SortedMap.mem_keys_iff.mp hc
  refine ⟨t, ht, fun t' ht' => ?_⟩
  have hfound := hp.target?_eq_some_iff.mpr ht
  rw [hp.target?_eq_some_iff.mpr ht'] at hfound
  exact Option.some.inj hfound

variable [Std.TransOrd R] [Std.LawfulEqOrd R]

omit [Std.TransOrd C] [Std.LawfulEqOrd C] in
theorem WellFormed.row?_eq_some_iff (hp : p.WellFormed) {r : R} {cover : Cover C} :
    p.row? r = some cover ↔ (r, cover) ∈ p.rows.entries :=
  SortedMap.get?_eq_some_iff hp.rows_ascending

theorem WellFormed.amount?_eq_some_iff (hp : p.WellFormed) {r : R} {c : C} {a : Amount} :
    p.amount? r c = some a ↔ ∃ cover, p.row? r = some cover ∧ (c, a) ∈ cover.entries := by
  rw [amount?, Option.bind_eq_some_iff]
  refine exists_congr fun cover => and_congr_right fun hrow => ?_
  have hcover := hp.cover _ (hp.row?_eq_some_iff.mp hrow)
  exact SortedMap.get?_eq_some_iff hcover.ascending

theorem WellFormed.bisectAmount_eq_some_iff (hp : p.WellFormed) {r : R} {c : C} {a : Amount} :
    p.bisectAmount r c = some a ↔ ∃ cover, p.row? r = some cover ∧ (c, a) ∈ cover.entries := by
  simp only [bisectAmount, Option.bind_eq_some_iff, bisect_eq_some_iff hp.columns_ascending]
  constructor
  · rintro ⟨i, hi, cover, hrow, hentry⟩
    obtain ⟨c', hc', hmem⟩ := (hp.bisectEntry_numbered (hp.row?_eq_some_iff.mp hrow)).mp hentry
    rw [hi] at hc'
    cases hc'
    exact ⟨cover, hrow, hmem⟩
  · rintro ⟨cover, hrow, hmem⟩
    have hrows := hp.row?_eq_some_iff.mp hrow
    obtain ⟨i, hi⟩ := List.mem_iff_getElem?.mp
      ((hp.cover _ hrows).mem_columns _ hmem)
    exact ⟨i, hi, cover, hrow, (hp.bisectEntry_numbered hrows).mpr ⟨c, hi, hmem⟩⟩

/-- However a problem was obtained and edited: columns, rows and covers are listed in ascending
    order, all targets and amounts are positive, no row is empty, and what the look-ups find is what
    is listed, whether the lists are gone through or searched by halving. -/
theorem Obtained.views_agree (h : p.Obtained) : p.ViewsAgree := by
  have hp := h.reachable.wellFormed
  have hrow {r : R} {cover : Cover C} : p.row? r = some cover ↔ (r, cover) ∈ p.rows.entries :=
    hp.row?_eq_some_iff
  exact {
    columns_ascending := hp.columns_ascending
    target_unique := fun c => hp.target_unique
    target_bounds := fun e he => amount_bounds_of_ne_zero (hp.target_ne_zero e he)
    rows_ascending := List.pairwise_map.mpr hp.rows_ascending
    cover_ne_nil := hp.cover_ne_nil
    cover_ascending := fun e he => List.pairwise_map.mpr (hp.cover e he).ascending
    positions_labels := fun e => hp.positions_labels
    positions_ascending := fun e => hp.positions_ascending
    amount_bounds := fun e he x hx =>
      amount_bounds_of_ne_zero ((hp.cover e he).amount_ne_zero x hx)
    target?_iff := fun c t => hp.target?_eq_some_iff
    target?_eq_bisect := fun c => Option.ext fun t => by
      rw [hp.target?_eq_some_iff, bisectTarget, bisectEntry_eq_some_iff hp.targets_ascending]
    amount?_iff_row? := fun r c a => hp.amount?_eq_some_iff
    amount?_iff_rows := fun r c a => by simp only [hp.amount?_eq_some_iff, hrow]
    amount?_eq_bisect := fun r c => Option.ext fun a => by
      rw [hp.amount?_eq_some_iff, hp.bisectAmount_eq_some_iff] }

/-- A table with columns out of order and a row with one cell, after a refused and an accepted
    edit. -/
theorem Obtained.views_of_table : ∃ p : Problem String String, p.columns = ["a", "b"] ∧
    p.bisectTarget "b" = some 3 ∧ p.bisectAmount "r" "b" = some 2 ∧ p.target? "a" = some 7 ∧
    ("a", 7) ∈ p.targets.entries := by
  obtain ⟨p, hp, hcolumns, htarget, hamount, hedited⟩ : ∃ p : Problem String String, p.Obtained ∧
      p.columns = ["a", "b"] ∧ p.target? "b" = some 3 ∧ p.amount? "r" "b" = some 2 ∧
      p.target? "a" = some 7 :=
    ⟨_, .attempt (.setTarget "a" 7) (.attempt (.addUnitRow "s" ["b", "c"]) (.toProblem
      (t := ⟨[⟨"b", some " 3"⟩, ⟨"a", none⟩], [("r", [some "2", none])]⟩)
      (p := ⟨⟨[("a", 1), ("b", 3)]⟩, ⟨[("r", ⟨[("b", 2)]⟩)]⟩⟩) (by decide +kernel))),
      by decide +kernel, by decide +kernel, by decide +kernel, by decide +kernel⟩
  have hviews := hp.views_agree
  rw [hviews.target?_eq_bisect] at htarget
  rw [hviews.amount?_eq_bisect] at hamount
  exact ⟨p, hcolumns, htarget, hamount, hedited, (hviews.target?_iff _ _).mp hedited⟩

end ExactCover.Problem
