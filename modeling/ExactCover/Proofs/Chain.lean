import ExactCover.Chain
import Mathlib.Data.List.Basic
import Mathlib.Data.List.Nodup
import Mathlib.Data.Fintype.Card

namespace ExactCover.Chain

variable {n : Nat}

attribute [ext] Chain

/-- The links of a chain spell out a list without repetitions. Wherever the list is cut at an
    element, the element's links name the two elements next to the cut, or nothing at an end. -/
structure Lists (l : Chain n) (xs : List (Fin n)) : Prop where
  nodup : xs.Nodup
  first_eq : l.first = xs.head?
  last_eq : l.last = xs.getLast?
  size_eq : l.size = xs.length
  before_eq : ∀ us x vs, xs = us ++ x :: vs → l.before x = us.getLast?
  after_eq : ∀ us x vs, xs = us ++ x :: vs → l.after x = vs.head?

private theorem get_set (v : Vector (Option (Fin n)) n) (x y : Fin n) (a : Option (Fin n)) :
    getElem (v.set x a x.isLt) y y.isLt = if x = y then a else getElem v y y.isLt := by
  simp [Vector.getElem_set, Fin.ext_iff]

private theorem set_get (v : Vector (Option (Fin n)) n) (x : Fin n) {a : Option (Fin n)}
    (h : getElem v x x.isLt = a) : v.set x a x.isLt = v := by
  subst h
  exact Vector.set_getElem_self _

/-- The links of a listed chain lead through the whole list from any of its elements on. -/
private theorem walk_eq {link : Vector (Option (Fin n)) n} {xs : List (Fin n)}
    (hlink : ∀ us x vs, xs = us ++ x :: vs → getElem link x x.isLt = vs.head?)
    (vs : List (Fin n)) :
    ∀ (us : List (Fin n)) (limit : Nat), xs = us ++ vs → vs.length ≤ limit →
      walk link limit vs.head? = vs := by
  induction vs with
  | nil =>
    intro us limit _ _
    cases limit <;> rfl
  | cons x vs ih =>
    intro us limit hxs hlimit
    cases limit with
    | zero => simp at hlimit
    | succ limit =>
      rw [List.head?_cons, walk, hlink us x vs hxs]
      rw [ih (us ++ [x]) limit (by simpa using hxs) (by simpa using hlimit)]

theorem Lists.length_le {l : Chain n} {xs : List (Fin n)} (h : l.Lists xs) : xs.length ≤ n := by
  simpa using h.nodup.length_le_card

/-- The limit of a forward walk does not cut it off. -/
theorem Lists.forward_eq {l : Chain n} {xs : List (Fin n)} (h : l.Lists xs) : l.forward = xs := by
  rw [forward, h.first_eq]
  exact walk_eq h.after_eq xs [] n rfl h.length_le

theorem Lists.backward_eq {l : Chain n} {xs : List (Fin n)} (h : l.Lists xs) :
    l.backward = xs.reverse := by
  have hlink : ∀ us x vs, xs.reverse = us ++ x :: vs → l.prev[x] = vs.head? := by
    intro us x vs hcut
    have hxs : xs = vs.reverse ++ x :: us.reverse := by simpa using congrArg List.reverse hcut
    simpa [before] using h.before_eq _ x _ hxs
  rw [backward, h.last_eq, ← List.head?_reverse]
  exact walk_eq hlink xs.reverse [] n rfl (by simpa using h.length_le)

/-- Both ends are missing just if there are no elements. -/
theorem Lists.ends_eq_none {l : Chain n} {xs : List (Fin n)} (h : l.Lists xs) :
    (l.first = none ↔ l.size = 0) ∧ (l.last = none ↔ l.size = 0) := by
  rw [h.first_eq, h.last_eq, h.size_eq]
  simp

theorem lists_empty : (empty n).Lists [] := by
  refine ⟨List.nodup_nil, rfl, rfl, rfl, ?_, ?_⟩
  · intro us x vs hcut
    simp at hcut
  · intro us x vs hcut
    simp at hcut

/-- Taking an element out redirects its neighbours to each other and nothing else. -/
theorem before_remove (l : Chain n) (x y : Fin n) :
    (l.remove x).before y = if l.after x = some y then l.before x else l.before y := by
  cases hafter : l.after x with
  | none => simp [remove, before, hafter]
  | some z =>
    have hget := get_set l.prev z y (l.before x)
    simpa [remove, before, hafter] using hget

theorem after_remove (l : Chain n) (x y : Fin n) :
    (l.remove x).after y = if l.before x = some y then l.after x else l.after y := by
  cases hbefore : l.before x with
  | none => simp [remove, after, hbefore]
  | some z =>
    have hget := get_set l.next z y (l.after x)
    simpa [remove, after, hbefore] using hget

/-- A list that is cut twice has the second cut in its first or in its second part. -/
private theorem cut_cases {us vs us' vs' : List (Fin n)} {y : Fin n}
    (hcut : us ++ vs = us' ++ y :: vs') :
    (∃ mid, us = us' ++ y :: mid ∧ vs' = mid ++ vs) ∨
      ∃ mid, us' = us ++ mid ∧ vs = mid ++ y :: vs' := by
  obtain ⟨mid, hus, hvs⟩ | ⟨mid, hus, hvs⟩ := List.append_eq_append_iff.mp hcut
  · exact .inr ⟨mid, hus, hvs⟩
  · cases mid with
    | nil => exact .inr ⟨[], by simpa using hus.symm, by simpa using hvs.symm⟩
    | cons z mid =>
      obtain ⟨rfl, hrest⟩ := List.cons.inj hvs
      exact .inl ⟨mid, hus, hrest⟩

/-- An element that is followed by others in a list without repetitions is not the last one. -/
private theorem getLast?_ne_of_cut {us mid : List (Fin n)} {y z : Fin n}
    (h : (us ++ y :: z :: mid).Nodup) : (us ++ y :: z :: mid).getLast? ≠ some y := by
  intro hlast
  have hmem : y ∈ z :: mid := by
    apply List.mem_of_getLast?
    simpa [List.getLast?_append, List.getLast?_cons] using hlast
  exact (List.nodup_cons.mp (List.nodup_append.mp h).2.1).1 hmem

theorem Lists.before_of_cut {l : Chain n} {us vs : List (Fin n)} {x : Fin n}
    (h : l.Lists (us ++ x :: vs)) : l.before x = us.getLast? := h.before_eq us x vs rfl

theorem Lists.after_of_cut {l : Chain n} {us vs : List (Fin n)} {x : Fin n}
    (h : l.Lists (us ++ x :: vs)) : l.after x = vs.head? := h.after_eq us x vs rfl

/-- Taking an element out leaves the list without it. -/
theorem Lists.remove {l : Chain n} {us vs : List (Fin n)} {x : Fin n}
    (h : l.Lists (us ++ x :: vs)) : (l.remove x).Lists (us ++ vs) := by
  have hbefore := h.before_of_cut
  have hafter := h.after_of_cut
  obtain ⟨husNodup, hvsNodup, hdisjoint⟩ := List.nodup_append.mp h.nodup
  refine ⟨?_, ?_, ?_, ?_, ?_, ?_⟩
  · exact h.nodup.sublist ((List.sublist_cons_self x vs).append_left us)
  · cases us with
    | nil => simp [Chain.remove, hbefore, hafter]
    | cons u us => simp [Chain.remove, hbefore, h.first_eq, List.getLast?_cons]
  · cases vs with
    | nil => simp [Chain.remove, hbefore, hafter]
    | cons v vs => simp [Chain.remove, hafter, h.last_eq, List.getLast?_append, List.getLast?_cons]
  · have hsize := h.size_eq
    simp only [List.length_append, List.length_cons] at hsize
    simp only [Chain.remove, List.length_append]
    omega
  -- Only the element after the cut, if there is one, has another element before it now.
  · intro us' y vs' hcut
    rw [before_remove, hbefore, hafter]
    obtain ⟨mid, rfl, rfl⟩ | ⟨mid, rfl, rfl⟩ := cut_cases hcut
    · have hother : vs.head? ≠ some y := by
        intro hhead
        have hmem := List.mem_of_head? hhead
        exact hdisjoint y (by simp) y (by simp [hmem]) rfl
      rw [if_neg hother]
      exact h.before_eq us' y (mid ++ x :: vs) (by simp)
    · have hold := h.before_eq (us ++ x :: mid) y vs' (by simp)
      cases mid with
      | nil => simp
      | cons z mid =>
        have hother : z ≠ y := by
          rintro rfl
          simp at hvsNodup
        simpa [hother] using hold
  · intro us' y vs' hcut
    rw [after_remove, hbefore, hafter]
    obtain ⟨mid, rfl, rfl⟩ | ⟨mid, rfl, rfl⟩ := cut_cases hcut
    · have hold := h.after_eq us' y (mid ++ x :: vs) (by simp)
      cases mid with
      | nil => simp
      | cons z mid =>
        rw [if_neg (getLast?_ne_of_cut husNodup), hold]
        rfl
    · have hother : us.getLast? ≠ some y := by
        intro hlast
        exact hdisjoint y (List.mem_of_getLast? hlast) y (by simp) rfl
      rw [if_neg hother]
      exact h.after_eq (us ++ x :: mid) y vs' (by simp)

/-- Taking an element out leaves the others in their order. -/
theorem Lists.remove_filter {l : Chain n} {xs : List (Fin n)} {x : Fin n} (h : l.Lists xs)
    (hx : x ∈ xs) : (l.remove x).Lists (xs.filter fun y => y ≠ x) := by
  obtain ⟨us, vs, rfl⟩ := List.append_of_mem hx
  obtain ⟨_, hvsNodup, hdisjoint⟩ := List.nodup_append.mp h.nodup
  have hus : us.filter (fun y => y ≠ x) = us := by
    rw [List.filter_eq_self]
    intro y hy
    simpa using hdisjoint y hy x (by simp)
  have hvs : vs.filter (fun y => y ≠ x) = vs := by
    rw [List.filter_eq_self]
    intro y hy
    simpa using ne_of_mem_of_not_mem hy (List.nodup_cons.mp hvsNodup).1
  rw [List.filter_append, List.filter_cons_of_neg (by simp), hus, hvs]
  exact h.remove

/-- An element that was taken out keeps its own links. -/
theorem Lists.links_remove {l : Chain n} {xs : List (Fin n)} {x : Fin n} (h : l.Lists xs)
    (hx : x ∈ xs) : (l.remove x).before x = l.before x ∧ (l.remove x).after x = l.after x := by
  obtain ⟨us, vs, rfl⟩ := List.append_of_mem hx
  obtain ⟨_, hvsNodup, hdisjoint⟩ := List.nodup_append.mp h.nodup
  have hafter : l.after x ≠ some x := by
    rw [h.after_of_cut]
    intro hhead
    exact (List.nodup_cons.mp hvsNodup).1 (List.mem_of_head? hhead)
  have hbefore : l.before x ≠ some x := by
    rw [h.before_of_cut]
    intro hlast
    exact hdisjoint x (List.mem_of_getLast? hlast) x (by simp) rfl
  rw [before_remove, after_remove, if_neg hafter, if_neg hbefore]
  exact ⟨rfl, rfl⟩

/-- Putting back the element that was taken out last restores the whole structure: the ends, the
    size and every link, also those of positions that are no elements. -/
theorem Lists.restore_remove {l : Chain n} {xs : List (Fin n)} {x : Fin n} (h : l.Lists xs)
    (hx : x ∈ xs) : (l.remove x).restore x = l := by
  obtain ⟨hbefore, hafter⟩ := h.links_remove hx
  obtain ⟨us, vs, rfl⟩ := List.append_of_mem hx
  have hleft := h.before_of_cut
  have hright := h.after_of_cut
  apply Chain.ext
  · rw [Chain.restore, hbefore, hleft]
    cases us with
    | nil => simp [h.first_eq]
    | cons u us => simp [Chain.remove, hleft, List.getLast?_cons]
  · rw [Chain.restore, hafter, hright]
    cases vs with
    | nil => simp [h.last_eq]
    | cons v vs => simp [Chain.remove, hright]
  · have hsize := h.size_eq
    simp only [List.length_append, List.length_cons] at hsize
    simp only [Chain.restore, Chain.remove]
    omega
  -- The neighbours' links were redirected, so they are set back to the element.
  · rw [Chain.restore, hafter, hright]
    cases vs with
    | nil => simp [Chain.remove, hright]
    | cons v vs =>
      have hlink : l.before v = some x := by
        simpa using h.before_eq (us ++ [x]) v vs (by simp)
      simp [Chain.remove, hright, set_get l.prev v hlink]
  · rw [Chain.restore, hbefore, hleft]
    cases hlast : us.getLast? with
    | none => simp [Chain.remove, hleft, hlast]
    | some u =>
      obtain ⟨us, rfl⟩ := List.getLast?_eq_some_iff.mp hlast
      have hlink : l.after u = some x := h.after_eq us u (x :: vs) (by simp)
      simp [Chain.remove, hleft, set_get l.next u hlink]

theorem before_push (l : Chain n) (x y : Fin n) :
    (l.push x).before y = if x = y then l.last else l.before y := get_set l.prev x y l.last

theorem after_push (l : Chain n) (x y : Fin n) :
    (l.push x).after y =
      if l.last = some y then some x else if x = y then none else l.after y := by
  cases hlast : l.last with
  | none => simpa [Chain.push, hlast, after] using get_set l.next x y none
  | some z => simp [Chain.push, hlast, after, Vector.getElem_set, Fin.ext_iff]

/-- A pushed position becomes the last element. -/
theorem Lists.push {l : Chain n} {xs : List (Fin n)} {x : Fin n} (h : l.Lists xs) (hx : x ∉ xs) :
    (l.push x).Lists (xs ++ [x]) := by
  have hnodup : (xs ++ [x]).Nodup := by
    simpa [List.nodup_append] using ⟨h.nodup, fun y hy => ne_of_mem_of_not_mem hy hx⟩
  refine ⟨hnodup, ?_, ?_, ?_, ?_, ?_⟩
  · cases xs <;> simp [Chain.push, h.first_eq]
  · simp [Chain.push]
  · simp [Chain.push, h.size_eq]
  · intro us y vs hcut
    rw [before_push, h.last_eq]
    obtain ⟨mid, rfl, rfl⟩ | ⟨mid, rfl, hvs⟩ := cut_cases hcut
    · have hother : x ≠ y := by
        rintro rfl
        simp at hx
      rw [if_neg hother]
      exact h.before_eq us y mid rfl
    · obtain ⟨rfl, rfl, rfl⟩ : mid = [] ∧ y = x ∧ vs = [] := by
        cases mid <;> simp_all
      simp
  · intro us y vs hcut
    rw [after_push, h.last_eq]
    obtain ⟨mid, rfl, rfl⟩ | ⟨mid, rfl, hvs⟩ := cut_cases hcut
    · have hother : x ≠ y := by
        rintro rfl
        simp at hx
      cases mid with
      | nil => simp
      | cons z mid =>
        rw [if_neg (getLast?_ne_of_cut h.nodup), if_neg hother, h.after_eq us y (z :: mid) rfl]
        rfl
    · obtain ⟨rfl, rfl, rfl⟩ : mid = [] ∧ y = x ∧ vs = [] := by
        cases mid <;> simp_all
      have hother : xs.getLast? ≠ some y := by
        intro hlast
        exact hx (List.mem_of_getLast? hlast)
      simp [hother]

/-- A chain is built from a list without repetitions. -/
theorem lists_ofList {xs : List (Fin n)} (h : xs.Nodup) : (ofList xs).Lists xs := by
  induction xs using List.reverseRecOn with
  | nil => exact lists_empty
  | append_singleton xs x ih =>
    obtain ⟨hxs, _, hdisjoint⟩ := List.nodup_append.mp h
    have hx : x ∉ xs := fun hmem => hdisjoint x hmem x (by simp) rfl
    rw [ofList, List.foldl_concat]
    exact (ih hxs).push hx

end ExactCover.Chain
