import ExactCover.SortedSet
import ExactCover.Proofs.SortedMap

namespace ExactCover.SortedSet

open SortedMap (ne_of_compare_lt)

variable {α : Type} [Ord α]

theorem ascending_empty : (∅ : SortedSet α).Ascending := List.Pairwise.nil

theorem drop_sublist (x : α) (xs : List α) : (drop x xs).Sublist xs := by
  induction xs with
  | nil => exact List.Sublist.refl _
  | cons z rest ih =>
    rw [drop]
    cases compare x z with
    | lt => exact List.Sublist.refl _
    | eq => exact List.sublist_cons_self z rest
    | gt => exact ih.cons_cons z

theorem Ascending.erase {s : SortedSet α} (h : s.Ascending) (x : α) : (s.erase x).Ascending :=
  h.sublist (drop_sublist x s.elements)

theorem mem_place [Std.LawfulEqOrd α] {x y : α} {xs : List α} :
    y ∈ place x xs ↔ y = x ∨ y ∈ xs := by
  induction xs with
  | nil => simp [place]
  | cons z rest ih =>
    rw [place]
    cases hcmp : compare x z with
    | lt => simp
    | eq =>
      obtain rfl := Std.LawfulEqOrd.eq_of_compare hcmp
      simp
    | gt =>
      have := ih
      grind

theorem mem_insert [Std.LawfulEqOrd α] {s : SortedSet α} {x y : α} :
    y ∈ (s.insert x).elements ↔ y = x ∨ y ∈ s.elements := mem_place

variable [Std.TransOrd α] [Std.LawfulEqOrd α]

/-- Ascending lists with the same elements are equal. -/
theorem eq_of_mem_iff {xs ys : List α} (hxs : xs.Pairwise fun x y => compare x y = .lt)
    (hys : ys.Pairwise fun x y => compare x y = .lt) (hmem : ∀ x, x ∈ xs ↔ x ∈ ys) : xs = ys := by
  have hperm := (List.perm_ext_iff_of_nodup (hxs.imp ne_of_compare_lt)
    (hys.imp ne_of_compare_lt)).mpr hmem
  refine hperm.eq_of_pairwise (fun x y _ _ hxy hyx => ?_) hxs hys
  rw [Std.OrientedOrd.eq_swap, hyx] at hxy
  cases hxy

theorem Ascending.ext {s t : SortedSet α} (hs : s.Ascending) (ht : t.Ascending)
    (hmem : ∀ x, x ∈ s.elements ↔ x ∈ t.elements) : s = t := by
  cases s
  cases t
  congr
  exact eq_of_mem_iff hs ht hmem

theorem pairwise_place {x : α} {xs : List α} (h : xs.Pairwise fun x y => compare x y = .lt) :
    (place x xs).Pairwise fun x y => compare x y = .lt := by
  induction xs with
  | nil => simp [place]
  | cons z rest ih =>
    obtain ⟨hhead, hrest⟩ := List.pairwise_cons.mp h
    rw [place]
    cases hcmp : compare x z with
    | lt =>
      refine List.pairwise_cons.mpr ⟨?_, h⟩
      intro y hy
      obtain rfl | hy := List.mem_cons.mp hy
      · exact hcmp
      · exact Std.TransCmp.lt_trans hcmp (hhead y hy)
    | eq =>
      obtain rfl := Std.LawfulEqOrd.eq_of_compare hcmp
      exact List.pairwise_cons.mpr ⟨hhead, hrest⟩
    | gt =>
      refine List.pairwise_cons.mpr ⟨?_, ih hrest⟩
      intro y hy
      obtain rfl | hy := mem_place.mp hy
      · exact Std.OrientedCmp.lt_of_gt hcmp
      · exact hhead y hy

theorem mem_drop {x y : α} {xs : List α} (h : xs.Pairwise fun x y => compare x y = .lt) :
    y ∈ drop x xs ↔ y ∈ xs ∧ y ≠ x := by
  induction xs with
  | nil => simp [drop]
  | cons z rest ih =>
    obtain ⟨hhead, hrest⟩ := List.pairwise_cons.mp h
    rw [drop]
    cases hcmp : compare x z with
    | lt =>
      have hlater : x ∉ z :: rest := by
        intro hx
        obtain rfl | hx := List.mem_cons.mp hx
        · exact ne_of_compare_lt hcmp rfl
        · exact ne_of_compare_lt (Std.TransCmp.lt_trans hcmp (hhead x hx)) rfl
      grind
    | eq =>
      obtain rfl := Std.LawfulEqOrd.eq_of_compare hcmp
      have hlater : x ∉ rest := fun hx => ne_of_compare_lt (hhead x hx) rfl
      grind
    | gt =>
      have hne : z ≠ x := ne_of_compare_lt (Std.OrientedCmp.lt_of_gt hcmp)
      have := ih hrest
      grind

theorem Ascending.insert {s : SortedSet α} (h : s.Ascending) (x : α) : (s.insert x).Ascending :=
  pairwise_place h

theorem mem_erase {s : SortedSet α} (h : s.Ascending) {x y : α} :
    y ∈ (s.erase x).elements ↔ y ∈ s.elements ∧ y ≠ x := mem_drop h

theorem contains_iff {s : SortedSet α} (h : s.Ascending) {x : α} :
    s.contains x = true ↔ x ∈ s.elements := by
  obtain ⟨xs⟩ := s
  change holds x xs = true ↔ x ∈ xs
  induction xs with
  | nil => simp [holds]
  | cons z rest ih =>
    obtain ⟨hhead, hrest⟩ := List.pairwise_cons.mp h
    rw [holds]
    cases hcmp : compare x z with
    | lt =>
      have hne := ne_of_compare_lt hcmp
      have hlater : x ∉ rest := fun hx =>
        ne_of_compare_lt (Std.TransCmp.lt_trans hcmp (hhead x hx)) rfl
      simp [hne, hlater]
    | eq => simp [Std.LawfulEqOrd.eq_of_compare hcmp]
    | gt =>
      have hne : x ≠ z := Ne.symm (ne_of_compare_lt (Std.OrientedCmp.lt_of_gt hcmp))
      simpa [hne] using ih hrest

/-- Inserting an element right after it was erased leads back. -/
theorem insert_erase {s : SortedSet α} (h : s.Ascending) {x : α} (hx : x ∈ s.elements) :
    (s.erase x).insert x = s := by
  refine ((h.erase x).insert x).ext h fun y => ?_
  rw [mem_insert, mem_erase h]
  by_cases hy : y = x <;> simp [hy, hx]

/-- Erasing an element right after it was inserted leads back. -/
theorem erase_insert {s : SortedSet α} (h : s.Ascending) {x : α} (hx : x ∉ s.elements) :
    (s.insert x).erase x = s := by
  refine ((h.insert x).erase x).ext h fun y => ?_
  rw [mem_erase (h.insert x), mem_insert]
  by_cases hy : y = x <;> simp [hy, hx]

/-- Inserting all elements of a list keeps the elements ascending and adds just these. -/
theorem insertAll_spec (xs : List α) {s : SortedSet α} (h : s.Ascending) :
    (xs.foldl SortedSet.insert s).Ascending ∧
      ∀ y, y ∈ (xs.foldl SortedSet.insert s).elements ↔ y ∈ xs ∨ y ∈ s.elements := by
  induction xs generalizing s with
  | nil => simpa using h
  | cons x xs ih =>
    obtain ⟨hascending, hmem⟩ := ih (h.insert x)
    refine ⟨hascending, fun y => ?_⟩
    rw [List.foldl_cons, hmem, mem_insert, List.mem_cons]
    tauto

theorem ascending_ofList (xs : List α) : (ofList xs).Ascending :=
  (insertAll_spec xs ascending_empty).1

theorem mem_ofList {xs : List α} {x : α} : x ∈ (ofList xs).elements ↔ x ∈ xs := by
  have hmem := (insertAll_spec xs ascending_empty).2 x
  simpa [ofList, empty, EmptyCollection.emptyCollection] using hmem

/-- Erasing all elements of a list keeps the elements ascending and drops just these. -/
theorem eraseAll_spec (xs : List α) {s : SortedSet α} (h : s.Ascending) :
    (xs.foldl SortedSet.erase s).Ascending ∧
      ∀ y, y ∈ (xs.foldl SortedSet.erase s).elements ↔ y ∈ s.elements ∧ y ∉ xs := by
  induction xs generalizing s with
  | nil => simpa using h
  | cons x xs ih =>
    obtain ⟨hascending, hmem⟩ := ih (h.erase x)
    refine ⟨hascending, fun y => ?_⟩
    rw [List.foldl_cons, hmem, mem_erase h, List.mem_cons]
    tauto

end ExactCover.SortedSet
