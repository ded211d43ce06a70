import ExactCover.SortedMap
import Mathlib.Data.List.Basic
import Mathlib.Data.List.Perm.Basic
import Mathlib.Order.Fin.Basic

namespace ExactCover.SortedMap

variable {α β γ : Type}

theorem mem_keys_iff {m : SortedMap α β} {k : α} : k ∈ m.keys ↔ ∃ v, (k, v) ∈ m.entries := by
  simp [keys]

theorem mem_entries_iff {m : SortedMap α β} {e : α × β} :
    e ∈ m.entries ↔ ∃ i, m.entry i = e := List.mem_iff_get

theorem map_entry (m : SortedMap α β) : (List.finRange m.size).map m.entry = m.entries :=
  List.map_get_finRange m.entries

variable [Ord α]

theorem ascending_empty : (∅ : SortedMap α β).Ascending := List.Pairwise.nil

theorem Ascending.mapValues {m : SortedMap α β} (h : m.Ascending) (f : β → γ) :
    (m.mapValues f).Ascending := h.map _ fun _ _ hlt => hlt

/-- Positions follow the order of the keys. -/
theorem Ascending.compare_entry {m : SortedMap α β} (h : m.Ascending) {i j : Fin m.size}
    (hij : i < j) : compare (m.entry i).1 (m.entry j).1 = .lt :=
  List.pairwise_iff_getElem.mp h i j i.2 j.2 hij

theorem ne_of_compare_lt [Std.LawfulEqOrd α] {j k : α} (h : compare j k = .lt) : j ≠ k := by
  rintro rfl
  rw [Std.ReflOrd.compare_self] at h
  cases h

variable [Std.TransOrd α] [Std.LawfulEqOrd α]

/-- Ascending maps with the same entries are equal. -/
theorem Ascending.ext {m m' : SortedMap α β} (h : m.Ascending) (h' : m'.Ascending)
    (hmem : ∀ e, e ∈ m.entries ↔ e ∈ m'.entries) : m = m' := by
  have hnodup {m : SortedMap α β} (h : m.Ascending) : m.entries.Nodup :=
    h.imp fun hlt heq => ne_of_compare_lt hlt (congrArg Prod.fst heq)
  have hperm := (List.perm_ext_iff_of_nodup (hnodup h) (hnodup h')).mpr hmem
  have heq := hperm.eq_of_pairwise (fun x y _ _ hxy hyx => by
    rw [Std.OrientedOrd.eq_swap, hyx] at hxy
    cases hxy) h h'
  cases m
  cases m'
  congr

/-- Of ascending entries, placing one replaces that of its key and keeps all others. -/
theorem mem_place {k : α} {v : β} {e : α × β} {es : List (α × β)}
    (h : es.Pairwise fun x y => compare x.1 y.1 = .lt) :
    e ∈ place k v es ↔ e = (k, v) ∨ e ∈ es ∧ e.1 ≠ k := by
  induction es with
  | nil => simp [place]
  | cons head rest ih =>
    obtain ⟨j, w⟩ := head
    obtain ⟨hhead, hrest⟩ := List.pairwise_cons.mp h
    rw [place]
    -- A key that is smaller than the first one is smaller than all of them.
    cases hcmp : compare k j with
    | lt =>
      have hlater : ∀ e ∈ (j, w) :: rest, e.1 ≠ k := by
        intro e he
        refine Ne.symm (ne_of_compare_lt ?_)
        obtain rfl | he := List.mem_cons.mp he
        · exact hcmp
        · exact Std.TransCmp.lt_trans hcmp (hhead e he)
      grind
    | eq =>
      obtain rfl := Std.LawfulEqOrd.eq_of_compare hcmp
      have hlater : ∀ e ∈ rest, e.1 ≠ k := fun e he => Ne.symm (ne_of_compare_lt (hhead e he))
      grind
    | gt =>
      have hne : j ≠ k := ne_of_compare_lt (Std.OrientedCmp.lt_of_gt hcmp)
      have := ih hrest
      grind

theorem pairwise_place {k : α} {v : β} {es : List (α × β)}
    (h : es.Pairwise fun x y => compare x.1 y.1 = .lt) :
    (place k v es).Pairwise fun x y => compare x.1 y.1 = .lt := by
  induction es with
  | nil => simp [place]
  | cons head rest ih =>
    obtain ⟨j, w⟩ := head
    obtain ⟨hhead, hrest⟩ := List.pairwise_cons.mp h
    rw [place]
    cases hcmp : compare k j with
    | lt =>
      refine List.pairwise_cons.mpr ⟨?_, h⟩
      intro e he
      obtain rfl | he := List.mem_cons.mp he
      · exact hcmp
      · exact Std.TransCmp.lt_trans hcmp (hhead e he)
    | eq =>
      obtain rfl := Std.LawfulEqOrd.eq_of_compare hcmp
      exact List.pairwise_cons.mpr ⟨hhead, hrest⟩
    | gt =>
      refine List.pairwise_cons.mpr ⟨?_, ih hrest⟩
      intro e he
      obtain rfl | ⟨he, _⟩ := (mem_place hrest).mp he
      · exact Std.OrientedCmp.lt_of_gt hcmp
      · exact hhead e he

theorem Ascending.insert {m : SortedMap α β} (h : m.Ascending) (k : α) (v : β) :
    (m.insert k v).Ascending := pairwise_place h

/-- What is in a map after a key was set: that key with its value, and the entries of other keys. -/
theorem mem_insert {m : SortedMap α β} (h : m.Ascending) {k : α} {v : β} {e : α × β} :
    e ∈ (m.insert k v).entries ↔ e = (k, v) ∨ e ∈ m.entries ∧ e.1 ≠ k := mem_place h

theorem ascending_tally (xs : List α) : (tally xs).Ascending := by
  induction xs with
  | nil => exact ascending_empty
  | cons x xs ih => exact ih.insert x _

/-- A look-up finds the entry of a key, and only that. -/
theorem get?_eq_some_iff {m : SortedMap α β} (h : m.Ascending) {k : α} {v : β} :
    m.get? k = some v ↔ (k, v) ∈ m.entries := by
  obtain ⟨es⟩ := m
  change lookup k es = some v ↔ (k, v) ∈ es
  induction es with
  | nil => simp [lookup]
  | cons head rest ih =>
    obtain ⟨j, w⟩ := head
    obtain ⟨hhead, hrest⟩ := List.pairwise_cons.mp h
    rw [lookup]
    cases hcmp : compare k j with
    | lt =>
      have hne := ne_of_compare_lt hcmp
      have hlater : (k, v) ∉ rest := fun he =>
        ne_of_compare_lt (Std.TransCmp.lt_trans hcmp (hhead _ he)) rfl
      simp [hne, hlater]
    | eq =>
      obtain rfl := Std.LawfulEqOrd.eq_of_compare hcmp
      have hlater : (k, v) ∉ rest := fun he => ne_of_compare_lt (hhead _ he) rfl
      simp [hlater, eq_comm]
    | gt =>
      have hne : k ≠ j := Ne.symm (ne_of_compare_lt (Std.OrientedCmp.lt_of_gt hcmp))
      simpa [hne] using ih hrest

theorem contains_iff {m : SortedMap α β} (h : m.Ascending) {k : α} :
    m.contains k = true ↔ k ∈ m.keys := by
  rw [contains, Option.isSome_iff_exists]
  simp [get?_eq_some_iff h, keys]

theorem contains_eq_false_iff {m : SortedMap α β} (h : m.Ascending) {k : α} :
    m.contains k = false ↔ k ∉ m.keys := by
  rw [← Bool.not_eq_true, contains_iff h]

theorem get?_entry {m : SortedMap α β} (h : m.Ascending) (i : Fin m.size) :
    m.get? (m.entry i).1 = some (m.entry i).2 := (get?_eq_some_iff h).mpr (List.get_mem _ i)

omit [Std.TransOrd α] in
theorem Ascending.entry_inj {m : SortedMap α β} (h : m.Ascending) {i j : Fin m.size}
    (hkey : (m.entry i).1 = (m.entry j).1) : i = j := by
  obtain hij | rfl | hij := lt_trichotomy i j
  · exact absurd hkey (ne_of_compare_lt (h.compare_entry hij))
  · rfl
  · exact absurd hkey.symm (ne_of_compare_lt (h.compare_entry hij))

/-- Ascending maps with the same look-ups are equal. -/
theorem Ascending.ext_get? {m m' : SortedMap α β} (h : m.Ascending) (h' : m'.Ascending)
    (hget : ∀ k, m.get? k = m'.get? k) : m = m' :=
  h.ext h' fun e => by rw [← get?_eq_some_iff h, ← get?_eq_some_iff h', hget]

theorem get?_insert_self {m : SortedMap α β} (h : m.Ascending) (k : α) (v : β) :
    (m.insert k v).get? k = some v := by
  rw [get?_eq_some_iff (h.insert k v), mem_insert h]
  exact .inl rfl

theorem get?_insert_of_ne {m : SortedMap α β} (h : m.Ascending) {j k : α} (hne : j ≠ k) (v : β) :
    (m.insert k v).get? j = m.get? j := by
  ext w
  rw [get?_eq_some_iff (h.insert k v), mem_insert h, get?_eq_some_iff h]
  simp [hne]

theorem Ascending.modify {m : SortedMap α β} (h : m.Ascending) (k : α) (f : β → β) :
    (m.modify k f).Ascending := by
  unfold SortedMap.modify
  split
  · exact h
  · exact h.insert k _

theorem get?_modify_self {m : SortedMap α β} (h : m.Ascending) (k : α) (f : β → β) :
    (m.modify k f).get? k = (m.get? k).map f := by
  unfold SortedMap.modify
  split
  · rename_i hnone
    rw [hnone]
    rfl
  · rename_i v hsome
    rw [get?_insert_self h, hsome]
    rfl

theorem get?_modify_of_ne {m : SortedMap α β} (h : m.Ascending) {j k : α} (hne : j ≠ k)
    (f : β → β) : (m.modify k f).get? j = m.get? j := by
  unfold SortedMap.modify
  split
  · rfl
  · exact get?_insert_of_ne h hne _

/-- Changes that commute at every value may be made in either order, at the same key or not. -/
theorem modify_comm {m : SortedMap α β} (h : m.Ascending) (j k : α) {f g : β → β}
    (hcomm : ∀ v, f (g v) = g (f v)) :
    (m.modify j f).modify k g = (m.modify k g).modify j f := by
  refine ((h.modify j f).modify k g).ext_get? ((h.modify k g).modify j f) fun i => ?_
  by_cases hj : i = j <;> by_cases hk : i = k
  · subst hj hk
    simp only [get?_modify_self, h, h.modify, Option.map_map]
    exact congrArg (Option.map · (m.get? i)) (funext fun v => (hcomm v).symm)
  · subst hj
    simp only [get?_modify_self, get?_modify_of_ne, h, h.modify, hk, ne_eq, not_false_eq_true]
  · subst hk
    simp only [get?_modify_self, get?_modify_of_ne, h, h.modify, hj, ne_eq, not_false_eq_true]
  · simp only [get?_modify_of_ne, h, h.modify, hj, hk, ne_eq, not_false_eq_true]

/-- A change that is taken back leaves the map as it was. -/
theorem modify_cancel {m : SortedMap α β} (h : m.Ascending) (k : α) {f g : β → β}
    (hcancel : ∀ v, g (f v) = v) : (m.modify k f).modify k g = m := by
  refine ((h.modify k f).modify k g).ext_get? h fun i => ?_
  by_cases hk : i = k
  · subst hk
    rw [get?_modify_self (h.modify i f), get?_modify_self h, Option.map_map,
      funext hcancel (f := g ∘ f), Option.map_id']
  · rw [get?_modify_of_ne (h.modify k f) hk, get?_modify_of_ne h hk]

omit [Std.LawfulEqOrd α] in
/-- Smaller keys are passed over when a value is put in its place. -/
theorem place_append {k : α} {done : List (α × β)} (hless : ∀ e ∈ done, compare e.1 k = .lt)
    (v : β) (es : List (α × β)) : place k v (done ++ es) = done ++ place k v es := by
  induction done with
  | nil => rfl
  | cons e done ih =>
    have hgt : compare k e.1 = .gt := Std.OrientedCmp.gt_of_lt (hless e List.mem_cons_self)
    rw [List.cons_append, place, hgt]
    exact congrArg (e :: ·) (ih fun e he => hless e (List.mem_cons_of_mem _ he))

omit [Std.LawfulEqOrd α] in
/-- Entries of smaller keys in front do not change a look-up. -/
theorem lookup_append {k : α} {done : List (α × β)} (hless : ∀ e ∈ done, compare e.1 k = .lt)
    (es : List (α × β)) : lookup k (done ++ es) = lookup k es := by
  induction done with
  | nil => rfl
  | cons e done ih =>
    have hgt : compare k e.1 = .gt := Std.OrientedCmp.gt_of_lt (hless e List.mem_cons_self)
    rw [List.cons_append, lookup, hgt]
    exact ih fun e he => hless e (List.mem_cons_of_mem _ he)

omit [Std.TransOrd α] [Std.LawfulEqOrd α] in
/-- In ascending entries, all in front of one have smaller keys. -/
theorem less_of_ascending {done todo : List (α × β)} {e : α × β}
    (h : Ascending ⟨done ++ e :: todo⟩) :
    ∀ d ∈ done, compare d.1 e.1 = .lt := fun d hd =>
  (List.pairwise_append.mp h).2.2 d hd e List.mem_cons_self

omit [Std.LawfulEqOrd α] in
/-- A key that is larger than all others is put behind them. -/
theorem insert_of_less {k : α} {done : List (α × β)} (hless : ∀ e ∈ done, compare e.1 k = .lt)
    (v : β) : (⟨done⟩ : SortedMap α β).insert k v = ⟨done ++ [(k, v)]⟩ := by
  have hplace := place_append hless v []
  rw [List.append_nil] at hplace
  exact congrArg SortedMap.mk hplace

omit [Std.LawfulEqOrd α] in
theorem get?_of_less {k : α} {done : List (α × β)} (hless : ∀ e ∈ done, compare e.1 k = .lt) :
    (⟨done⟩ : SortedMap α β).get? k = none := by
  have hlookup := lookup_append hless []
  rwa [List.append_nil] at hlookup

omit [Std.LawfulEqOrd α] in
/-- Ascending entries are appended one after the other. -/
theorem insertAll_append {done todo : List (α × β)} (h : Ascending ⟨done ++ todo⟩) :
    todo.foldl (fun m (k, v) => m.insert k v) (⟨done⟩ : SortedMap α β) = ⟨done ++ todo⟩ := by
  induction todo generalizing done with
  | nil => rw [List.append_nil]; rfl
  | cons e todo ih =>
    have hinsert := insert_of_less (less_of_ascending h) e.2
    rw [List.append_cons] at h ⊢
    have hrest := ih h
    rw [← hinsert] at hrest
    exact hrest

omit [Std.LawfulEqOrd α] in
/-- A map is built from its own entries. -/
theorem Ascending.ofList_entries {m : SortedMap α β} (h : m.Ascending) : ofList m.entries = m :=
  have hall : Ascending ⟨[] ++ m.entries⟩ := h
  insertAll_append hall

/-- The rank of the key at a position is that position. -/
theorem rank_eq {es : List (α × β)} (h : es.Pairwise fun x y => compare x.1 y.1 = .lt) (i : Nat)
    (hi : i < es.length) : rank (es[i]).1 es = some i := by
  induction es generalizing i with
  | nil => simp at hi
  | cons head rest ih =>
    obtain ⟨hhead, hrest⟩ := List.pairwise_cons.mp h
    cases i with
    | zero => simp [rank, Std.ReflOrd.compare_self]
    | succ i =>
      have hi : i < rest.length := by simpa using hi
      have hcmp : compare (rest[i]).1 head.1 = .gt :=
        Std.OrientedCmp.gt_of_lt (hhead _ (List.getElem_mem hi))
      simp [rank, hcmp, ih hrest i hi]

theorem position?_entry {m : SortedMap α β} (h : m.Ascending) (i : Fin m.size) :
    m.position? (m.entry i).1 = some i := by
  have hrank : rank (m.entry i).1 m.entries = some i.1 := rank_eq h i.1 i.2
  simp [position?, hrank]

end ExactCover.SortedMap
