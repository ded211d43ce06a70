import ExactCover.Proofs.SortedMap

namespace ExactCover

variable {κ : Type} [Ord κ]

/-- Binary search among the positions from `low` on and before `high`. The key in the middle tells
    in which half to go on. -/
def bisectWithin (keys : List κ) (key : κ) (low high : Nat) : Option Nat :=
  if low < high then
    let middle := low + (high - low) / 2
    match keys[middle]? with
    | none => none
    | some other =>
      match compare other key with
      | .lt => bisectWithin keys key (middle + 1) high
      | .eq => some middle
      | .gt => bisectWithin keys key low middle
  else none
termination_by high - low

/-- The position of a key, found by binary search. -/
def bisect (keys : List κ) (key : κ) : Option Nat := bisectWithin keys key 0 keys.length

variable [Std.TransOrd κ] [Std.LawfulEqOrd κ] {keys : List κ} {key : κ} {low high i : Nat}

omit [Std.TransOrd κ] in
/-- What is found is the key. This does not depend on the order of the keys. -/
theorem getElem?_of_bisectWithin (h : bisectWithin keys key low high = some i) :
    keys[i]? = some key := by
  fun_induction bisectWithin keys key low high with
  | case1 low high hlt middle hnone => cases h
  | case2 low high hlt middle other hother hcmp ih => exact ih h
  | case3 low high hlt middle other hother hcmp =>
    rw [← Option.some.inj h, hother, Std.LawfulEqOrd.eq_of_compare hcmp]
  | case4 low high hlt middle other hother hcmp ih => exact ih h
  | case5 => cases h

/-- Ascending keys compare as their positions do. -/
theorem lt_of_compare_lt (hkeys : keys.Pairwise fun x y => compare x y = .lt) {j : Nat} {x y : κ}
    (hx : keys[i]? = some x) (hy : keys[j]? = some y) (hlt : compare x y = .lt) : i < j := by
  obtain ⟨hi, rfl⟩ := List.getElem?_eq_some_iff.mp hx
  obtain ⟨hj, rfl⟩ := List.getElem?_eq_some_iff.mp hy
  obtain hij | rfl | hji := Nat.lt_trichotomy i j
  · exact hij
  · exact absurd rfl (SortedMap.ne_of_compare_lt hlt)
  · have hgt := Std.OrientedCmp.gt_of_lt (List.pairwise_iff_getElem.mp hkeys j i hj hi hji)
    rw [hlt] at hgt
    cases hgt

/-- A key that occurs between the bounds is found: the half that is left out holds only keys on the
    wrong side of it. -/
theorem bisectWithin_of_getElem? (hkeys : keys.Pairwise fun x y => compare x y = .lt)
    (hkey : keys[i]? = some key) (hlow : low ≤ i) (hhigh : i < high)
    (hlength : high ≤ keys.length) : bisectWithin keys key low high = some i := by
  fun_induction bisectWithin keys key low high with
  | case1 low high hlt middle hnone =>
    have hmiddle : middle = low + (high - low) / 2 := rfl
    rw [List.getElem?_eq_none_iff] at hnone
    omega
  | case2 low high hlt middle other hother hcmp ih =>
    exact ih (lt_of_compare_lt hkeys hother hkey hcmp) hhigh hlength
  | case3 low high hlt middle other hother hcmp =>
    obtain rfl := Std.LawfulEqOrd.eq_of_compare hcmp
    have hnodup : keys.Nodup := hkeys.imp SortedMap.ne_of_compare_lt
    have hmiddle := (List.getElem?_eq_some_iff.mp hother).1
    rw [(List.getElem?_inj hmiddle hnodup).mp (hother.trans hkey.symm)]
  | case4 low high hlt middle other hother hcmp ih =>
    have hbelow := lt_of_compare_lt hkeys hkey hother (Std.OrientedCmp.lt_of_gt hcmp)
    have hmiddle : middle = low + (high - low) / 2 := rfl
    exact ih hlow hbelow (by omega)
  | case5 low high hlt => omega

/-- Binary search of ascending keys is exact. -/
theorem bisect_eq_some_iff (hkeys : keys.Pairwise fun x y => compare x y = .lt) :
    bisect keys key = some i ↔ keys[i]? = some key := by
  refine ⟨getElem?_of_bisectWithin, fun hkey => ?_⟩
  have hlength := (List.getElem?_eq_some_iff.mp hkey).1
  exact bisectWithin_of_getElem? hkeys hkey (Nat.zero_le i) hlength (Nat.le_refl _)

omit [Ord κ] [Std.TransOrd κ] [Std.LawfulEqOrd κ] in
/-- Two lists side by side hold the two halves of an entry at the same place. -/
theorem getElem?_halves_iff {α β : Type} {entries : List (α × β)} {x : α} {y : β} :
    (entries.map (·.1))[i]? = some x ∧ (entries.map (·.2))[i]? = some y ↔
      entries[i]? = some (x, y) := by
  simp only [List.getElem?_map]
  cases entries[i]? with
  | none => simp
  | some e => simp [Prod.ext_iff]

/-- The value of a key, where keys and values stand in two lists side by side and the keys are
    searched by halving. Look-ups of sorted maps go through the entries one by one; with ascending
    keys halving finds the same. -/
def bisectEntry {β : Type} (entries : List (κ × β)) (key : κ) : Option β :=
  (bisect (entries.map (·.1)) key).bind fun i => (entries.map (·.2))[i]?

/-- With ascending keys, the value found is the one that is listed. -/
theorem bisectEntry_eq_some_iff {β : Type} {entries : List (κ × β)} {value : β}
    (hentries : entries.Pairwise fun x y => compare x.1 y.1 = .lt) :
    bisectEntry entries key = some value ↔ (key, value) ∈ entries := by
  have hkeys : (entries.map (·.1)).Pairwise fun x y => compare x y = .lt :=
    List.pairwise_map.mpr hentries
  simp only [bisectEntry, Option.bind_eq_some_iff, bisect_eq_some_iff hkeys]
  rw [List.mem_iff_getElem?]
  exact exists_congr fun i => getElem?_halves_iff

end ExactCover
