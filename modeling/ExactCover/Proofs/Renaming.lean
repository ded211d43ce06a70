import ExactCover.Proofs.Observation
import ExactCover.Proofs.Problem.Parts

namespace ExactCover

/-- Whether a map keeps the order of labels. -/
def StrictlyIncreasing {α β : Type} [Ord α] [Ord β] (f : α → β) : Prop :=
  ∀ x y, compare x y = .lt → compare (f x) (f y) = .lt

/-- A map that keeps the order of labels keeps every comparison of them. -/
theorem StrictlyIncreasing.compare_eq {α β : Type} [Ord α] [Ord β] [Std.TransOrd α]
    [Std.LawfulEqOrd α] [Std.TransOrd β] {f : α → β} (hf : StrictlyIncreasing f) (x y : α) :
    compare (f x) (f y) = compare x y := by
  cases h : compare x y with
  | lt => exact hf x y h
  | eq =>
    obtain rfl := Std.LawfulEqOrd.eq_of_compare h
    exact Std.ReflOrd.compare_self
  | gt => exact Std.OrientedCmp.gt_of_lt (hf y x (Std.OrientedCmp.lt_of_gt h))

namespace SortedMap

variable {α α' β : Type}

/-- The same entries under other keys. -/
def mapKeys (f : α → α') (m : SortedMap α β) : SortedMap α' β :=
  ⟨m.entries.map fun (k, v) => (f k, v)⟩

theorem keys_mapKeys (f : α → α') (m : SortedMap α β) : (m.mapKeys f).keys = m.keys.map f := by
  simp [keys, mapKeys]

theorem size_mapKeys (f : α → α') (m : SortedMap α β) : (m.mapKeys f).size = m.size :=
  List.length_map _

/-- An entry of a renamed map stands where it stood, with its key renamed. -/
theorem entry_mapKeys (f : α → α') (m : SortedMap α β) (i : Fin (m.mapKeys f).size) :
    (m.mapKeys f).entry i =
      (f (m.entry (i.cast (size_mapKeys f m))).1, (m.entry (i.cast (size_mapKeys f m))).2) :=
  List.getElem_map _

variable [Ord α] [Ord α'] {f : α → α'}

/-- Renamed keys are ascending if the names keep their order. -/
theorem Ascending.mapKeys {m : SortedMap α β} (h : m.Ascending) (hf : StrictlyIncreasing f) :
    (m.mapKeys f).Ascending := h.map _ fun _ _ hlt => hf _ _ hlt

variable [Std.TransOrd α] [Std.LawfulEqOrd α] [Std.TransOrd α']

theorem rank_map (hf : StrictlyIncreasing f) (k : α) (es : List (α × β)) :
    rank (f k) (es.map fun (k, v) => (f k, v)) = rank k es := by
  induction es with
  | nil => rfl
  | cons e es ih => simp only [List.map_cons, rank, hf.compare_eq, ih]

theorem position?_mapKeys (hf : StrictlyIncreasing f) (m : SortedMap α β) (k : α) :
    (m.mapKeys f).position? (f k) = (m.position? k).map (Fin.cast (size_mapKeys f m).symm) := by
  have hrank : rank (f k) (m.mapKeys f).entries = rank k m.entries := rank_map hf k m.entries
  rw [position?, position?, hrank]
  cases rank k m.entries with
  | none => rfl
  | some i =>
    simp only [Option.bind_some, size_mapKeys]
    split <;> rfl

end SortedMap

/-- Parts under other names of columns and rows. -/
def Parts.rename {C R C' R' : Type} (f : C → C') (g : R → R') (parts : Parts C R) :
    Parts C' R' where
  columns := parts.columns.map f
  rows := parts.rows.map fun (row, listed) => (g row, listed.map f)
  targets := parts.targets.map fun (column, target) => (f column, target)
  amounts := parts.amounts.map fun (row, cover) =>
    (g row, cover.map fun (column, amount) => (f column, amount))

/-- A grid with the labels of its columns and rows. -/
structure LabelledGrid (C R : Type) where
  grid : Grid
  columnAt : Fin grid.columns → C
  rowAt : Fin grid.rows → R

namespace LabelledGrid

variable {C R : Type}

/-- The same grid with other labels. -/
def rename {C' R' : Type} (f : C → C') (g : R → R') (G : LabelledGrid C R) :
    LabelledGrid C' R' := ⟨G.grid, f ∘ G.columnAt, g ∘ G.rowAt⟩

/-- Labelled grids of one size are equal if they agree at every position. -/
theorem mk_eq_mk {grid grid' : Grid} {columnAt : Fin grid.columns → C} {rowAt : Fin grid.rows → R}
    {columnAt' : Fin grid'.columns → C} {rowAt' : Fin grid'.rows → R}
    (hcolumns : grid.columns = grid'.columns) (hrows : grid.rows = grid'.rows)
    (htarget : ∀ i, grid.target i = grid'.target (i.cast hcolumns))
    (hcover : ∀ i, (grid.cover i).map (fun e => (e.1.cast hcolumns, e.2)) =
      grid'.cover (i.cast hrows))
    (hcolumnAt : ∀ i, columnAt i = columnAt' (i.cast hcolumns))
    (hrowAt : ∀ i, rowAt i = rowAt' (i.cast hrows)) :
    (⟨grid, columnAt, rowAt⟩ : LabelledGrid C R) = ⟨grid', columnAt', rowAt'⟩ := by
  obtain ⟨n, m, targets, covers⟩ := grid
  obtain ⟨n', m', targets', covers'⟩ := grid'
  obtain rfl : n = n' := hcolumns
  obtain rfl : m = m' := hrows
  obtain rfl : targets = targets' := Vector.ext fun i hi => UInt32.toNat_inj.mp (htarget ⟨i, hi⟩)
  obtain rfl : covers = covers' := Vector.ext fun i hi =>
    (List.map_id _).symm.trans (hcover ⟨i, hi⟩)
  obtain rfl : columnAt = columnAt' := funext hcolumnAt
  obtain rfl : rowAt = rowAt' := funext hrowAt
  rfl

end LabelledGrid

namespace Problem

variable {C R C' R' : Type}

/-- The problem under other names of columns and rows. -/
def rename (f : C → C') (g : R → R') (p : Problem C R) : Problem C' R' where
  targets := p.targets.mapKeys f
  rows := ⟨p.rows.entries.map fun (row, cover) => (g row, cover.mapKeys f)⟩

/-- The parts of a renamed problem are its renamed parts. -/
theorem toParts_rename (f : C → C') (g : R → R') (p : Problem C R) :
    (p.rename f g).toParts = p.toParts.rename f g := by
  simp [toParts, Parts.rename, rename, columns, SortedMap.keys, SortedMap.mapKeys]

/-- A row of the problem under its other name. -/
theorem rows_entry_rename (f : C → C') (g : R → R') (p : Problem C R)
    (i : Fin (p.rename f g).rows.size) (hsize : (p.rename f g).rows.size = p.rows.size) :
    (p.rename f g).rows.entry i =
      (g (p.rows.entry (i.cast hsize)).1, (p.rows.entry (i.cast hsize)).2.mapKeys f) :=
  List.getElem_map _

theorem size_rows_rename (f : C → C') (g : R → R') (p : Problem C R) :
    (p.rename f g).rows.size = p.rows.size := List.length_map _

theorem incidenceCount_rename (f : C → C') (g : R → R') (p : Problem C R) :
    (p.rename f g).incidenceCount = p.incidenceCount := by
  simp only [incidenceCount, rename, List.foldl_map, SortedMap.size_mapKeys]

section Wellformedness

variable [Ord C] [Ord C'] [Ord R] [Ord R'] {f : C → C'} {g : R → R'} {p : Problem C R}

theorem WellFormed.rename (hp : p.WellFormed) (hf : StrictlyIncreasing f)
    (hg : StrictlyIncreasing g) : (p.rename f g).WellFormed := by
  have hcolumns : (p.rename f g).columns = p.columns.map f := p.targets.keys_mapKeys f
  refine ⟨hp.targets_ascending.mapKeys hf, List.forall_mem_map.mpr hp.target_ne_zero,
    hp.rows_ascending.map _ fun _ _ hlt => hg _ _ hlt, List.forall_mem_map.mpr fun e he => ?_,
    List.forall_mem_map.mpr fun e he => ?_⟩
  · exact List.map_eq_nil_iff.not.mpr (hp.cover_ne_nil e he)
  · obtain ⟨hascending, hmem, hpos⟩ := hp.cover e he
    refine ⟨hascending.mapKeys hf, List.forall_mem_map.mpr fun x hx => ?_,
      List.forall_mem_map.mpr hpos⟩
    rw [hcolumns]
    exact List.mem_map_of_mem (hmem x hx)

end Wellformedness

variable [Ord C] [Ord C'] {f : C → C'}

/-- The grid of a problem with its labels. -/
def labelledGrid (p : Problem C R) : LabelledGrid C R := ⟨p.grid, p.columnAt, p.rowAt⟩

variable [Std.TransOrd C] [Std.LawfulEqOrd C] [Std.TransOrd C']

/-- The columns of a cover have the same positions under their new names. -/
theorem positions_mapKeys (hf : StrictlyIncreasing f) (g : R → R') (p : Problem C R)
    (cover : Cover C) : (p.rename f g).positions (cover.mapKeys f) =
      (p.positions cover).map fun e => (e.1.cast (p.targets.size_mapKeys f).symm, e.2) := by
  rw [positions, positions, SortedMap.mapKeys, List.filterMap_map, List.map_filterMap]
  refine List.filterMap_congr fun e _ => ?_
  have hposition : (p.rename f g).targets.position? (f e.1) = _ :=
    p.targets.position?_mapKeys hf e.1
  simp only [Function.comp_apply, hposition]
  cases p.targets.position? e.1 <;> rfl

/-- Under other names in the same order the grid is the same. -/
theorem labelledGrid_rename (hf : StrictlyIncreasing f) (g : R → R') (p : Problem C R) :
    (p.rename f g).labelledGrid = p.labelledGrid.rename f g := by
  have hcolumns : (p.rename f g).grid.columns = p.grid.columns := p.targets.size_mapKeys f
  have hrows : (p.rename f g).grid.rows = p.grid.rows := p.size_rows_rename f g
  have hcolumn (i : Fin (p.rename f g).grid.columns) :
      (p.rename f g).targets.entry i = (f (p.columnAt (i.cast hcolumns)),
        (p.targets.entry (i.cast hcolumns)).2) := p.targets.entry_mapKeys f i
  have hrow (i : Fin (p.rename f g).grid.rows) :
      (p.rename f g).rows.entry i = (g (p.rowAt (i.cast hrows)),
        (p.rows.entry (i.cast hrows)).2.mapKeys f) := p.rows_entry_rename f g i hrows
  have hcover (i : Fin (p.rename f g).grid.rows) :
      (p.rename f g).grid.cover i = (p.grid.cover (i.cast hrows)).map fun e =>
        (e.1.cast hcolumns.symm, e.2) :=
    (grid_cover _ i).trans <| (congrArg (fun e => (p.rename f g).positions e.2) (hrow i)).trans <|
      (positions_mapKeys hf g p _).trans (congrArg (List.map _) (grid_cover p _).symm)
  refine LabelledGrid.mk_eq_mk hcolumns hrows (fun i => ?_) (fun i => ?_)
    (fun i => congrArg Prod.fst (hcolumn i)) (fun i => congrArg Prod.fst (hrow i))
  · calc (p.rename f g).grid.target i
      _ = ((p.rename f g).targets.entry i).2.toNat := grid_target _ i
      _ = (p.targets.entry (i.cast hcolumns)).2.toNat :=
        congrArg (fun e => UInt32.toNat e.2) (hcolumn i)
      _ = p.grid.target (i.cast hcolumns) := (grid_target p (i.cast hcolumns)).symm
  · rw [hcover, List.map_map]
    exact List.map_id _

end Problem

/-- What is seen of a search after some calls for the next solution. -/
structure Course (C R σ : Type) where
  /-- What the calls returned. -/
  answers : List (Option (List R))
  statistics : Statistics
  depth : Nat
  isExhausted : Bool
  coverage : List (C × List R)
  /-- What the listener knows. -/
  observed : σ
deriving DecidableEq, Repr

/-- The same course under other names of columns and rows. -/
def Course.rename {C R C' R' σ : Type} (f : C → C') (g : R → R') (c : Course C R σ) :
    Course C' R' σ :=
  { c with
    answers := c.answers.map (Option.map (List.map g))
    coverage := c.coverage.map fun (column, rows) => (f column, rows.map g) }

/-- The course of a search from where it stands. -/
def Solver.course {C R σ : Type} [Ord C] (s : Solver C R σ) (calls : Nat) : Course C R σ :=
  let (answers, t) := s.pull calls
  ⟨answers, t.statistics, t.depth, t.isExhausted, t.coverage, t.observed⟩

/-- A listener that is renamed twice hears labels through both of the maps. -/
theorem Listener.rename_rename {C R C' R' C'' R'' σ : Type} (L : Listener C'' R'' σ) (f : C' → C'')
    (g : R' → R'') (f' : C → C') (g' : R → R') :
    (L.rename f g).rename f' g' = L.rename (f ∘ f') (g ∘ g') := by
  have hhandle (e : Event C R) : (L.rename f g).handle (e.map f' g') =
      L.handle (e.map (f ∘ f') (g ∘ g')) := by
    cases e <;> simp [rename, Observer.ofEvents, Observer.handle, Event.map]
  unfold rename at hhandle ⊢
  simp only [hhandle]

namespace LabelledGrid

variable {C R C' R' σ : Type}

/-- The answers to some calls for the next solution, by labels, and the search after them. -/
def pull (G : LabelledGrid C R) (L : Listener C R σ) : (calls : Nat) → Search G.grid σ →
    List (Option (List R)) × Search G.grid σ
  | 0, s => ([], s)
  | calls + 1, s =>
    let (found, s) := s.next (L.rename G.columnAt G.rowAt)
    let (others, s) := pull G L calls s
    (found.map (List.map G.rowAt) :: others, s)

/-- What is seen of a search by labels, after the answers given. -/
def seen (G : LabelledGrid C R) (run : List (Option (List R)) × Search G.grid σ) :
    Course C R σ where
  answers := run.1
  statistics := run.2.statistics
  depth := run.2.depth
  isExhausted := run.2.isExhausted
  coverage := run.2.links.coverage.map fun (column, rows) => (G.columnAt column, rows.map G.rowAt)
  observed := run.2.observed

/-- Several calls are the first call and then the others. -/
theorem pull_succ (G : LabelledGrid C R) {L : Listener C R σ} {s t : Search G.grid σ}
    {found : Option (List (Fin G.grid.rows))}
    (h : s.next (L.rename G.columnAt G.rowAt) = (found, t)) (calls : Nat) :
    G.pull L (calls + 1) s =
      (found.map (List.map G.rowAt) :: (G.pull L calls t).1, (G.pull L calls t).2) := by
  rw [pull, h]

/-- A search is the same under other labels, and its answers go by them. -/
theorem pull_rename (G : LabelledGrid C R) (f : C → C') (g : R → R') (L : Listener C' R' σ)
    (calls : Nat) (s : Search G.grid σ) : (G.rename f g).pull L calls s =
      ((G.pull (L.rename f g) calls s).1.map (Option.map (List.map g)),
        (G.pull (L.rename f g) calls s).2) := by
  induction calls generalizing s with
  | zero => rfl
  | succ calls ih =>
    obtain ⟨found, t, hnext⟩ : ∃ found t,
        s.next ((L.rename f g).rename G.columnAt G.rowAt) = (found, t) := ⟨_, _, rfl⟩
    have hrenamed : s.next (L.rename (f ∘ G.columnAt) (g ∘ G.rowAt)) = (found, t) := by
      rw [← L.rename_rename, hnext]
    have hfound : found.map (List.map (g ∘ G.rowAt)) =
        (found.map (List.map G.rowAt)).map (List.map g) := by
      cases found <;> simp
    have hanswers := congrArg Prod.fst (ih t)
    have hsearch := congrArg Prod.snd (ih t)
    rw [pull_succ G hnext]
    exact (pull_succ (G.rename f g) hrenamed calls).trans
      (Prod.ext (congrArg₂ List.cons hfound hanswers) hsearch)

/-- What is seen of a search through other names is what is seen of it, renamed. -/
theorem seen_rename (G : LabelledGrid C R) (f : C → C') (g : R → R')
    (answers : List (Option (List R))) (s : Search G.grid σ) :
    (G.rename f g).seen (answers.map (Option.map (List.map g)), s) =
      (G.seen (answers, s)).rename f g := by
  have hcoverage : (s.links.coverage.map fun (column, rows) =>
        (f (G.columnAt column), rows.map (g ∘ G.rowAt))) =
      (s.links.coverage.map fun (column, rows) => (G.columnAt column, rows.map G.rowAt)).map
        fun (column, rows) => (f column, rows.map g) := by
    simp
  exact congrArg (Course.mk _ _ _ _ · _) hcoverage

/-- The course of a search on a labelled grid. -/
def course (G : LabelledGrid C R) (L : Listener C R σ) (state : σ) (calls : Nat) : Course C R σ :=
  G.seen (G.pull L calls (.start G.grid state))

/-- Under other labels a search takes the same course, told by these labels. -/
theorem course_rename (G : LabelledGrid C R) (f : C → C') (g : R → R') (L : Listener C' R' σ)
    (state : σ) (calls : Nat) :
    (G.rename f g).course L state calls = (G.course (L.rename f g) state calls).rename f g :=
  (congrArg (G.rename f g).seen (G.pull_rename f g L calls (.start G.grid state))).trans
    (G.seen_rename f g _ _)

end LabelledGrid

namespace Problem

variable {C R C' R' σ : Type} [Ord C]

/-- The calls to a solver are calls to the search of its grid, seen through its labels. -/
theorem pull_labelledGrid (p : Problem C R) (L : Listener C R σ) (calls : Nat)
    (s : Search p.grid σ) : Solver.pull calls ⟨p, L, s⟩ =
      ((p.labelledGrid.pull L calls s).1, ⟨p, L, (p.labelledGrid.pull L calls s).2⟩) := by
  induction calls generalizing s with
  | zero => rfl
  | succ calls ih =>
    rw [Solver.pull]
    simp only [Solver.next, ih]
    rfl

/-- The course of a search is that of its labelled grid. -/
theorem course_solve (p : Problem C R) (L : Listener C R σ) (state : σ) (calls : Nat) :
    (p.solve L state).course calls = p.labelledGrid.course L (L.hear p.starting state) calls := by
  rw [Solver.course, solve, pull_labelledGrid]
  rfl

variable [Ord C'] [Std.TransOrd C] [Std.LawfulEqOrd C] [Std.TransOrd C'] {f : C → C'}
  {p : Problem C R}

/-- A search under other names takes the same course, told by these names. -/
theorem course_rename (hf : StrictlyIncreasing f) (g : R → R') (p : Problem C R)
    (L : Listener C' R' σ) (state : σ) (calls : Nat) :
    ((p.rename f g).solve L state).course calls =
      ((p.solve (L.rename f g) state).course calls).rename f g := by
  have hstarting : L.hear (p.rename f g).starting state = (L.rename f g).hear p.starting state := by
    have hcolumns : (p.rename f g).targets.size = p.targets.size := p.targets.size_mapKeys f
    have hrows : (p.rename f g).rowCount = p.rowCount := p.size_rows_rename f g
    rw [starting, hcolumns, hrows, incidenceCount_rename]
    rfl
  rw [course_solve, labelledGrid_rename hf, hstarting, LabelledGrid.course_rename, course_solve]

/-- The log of a search under other names is its log with these names. -/
theorem eventLog_rename (hf : StrictlyIncreasing f) (g : R → R') (hp : p.grid.WellFormed)
    (calls : Nat) :
    (p.rename f g).eventLog calls = (p.eventLog calls).map (Event.map f g) := by
  obtain ⟨answers, notes, o, -, -, -, hlog, hpull⟩ := pull_solve hp calls
  have hcourse := congrArg (fun c => c.observed.toList) (course_rename hf g p .logging #[] calls)
  have hobserved : (Solver.pull calls (p.solve (Listener.logging.rename f g) #[])).2.observed =
      Listener.logging.hearAll ((p.starting :: p.labelled notes).map (Note.map f g)) #[] := by
    rw [hpull]
    exact Listener.logging.hearAll_rename f g _ #[]
  calc (p.rename f g).eventLog calls
    _ = (Solver.pull calls (p.solve (Listener.logging.rename f g) #[])).2.observed.toList := hcourse
    _ = Note.events ((p.starting :: p.labelled notes).map (Note.map f g)) := by
      rw [hobserved, Listener.hearAll_logging]
      exact List.nil_append _
    _ = (p.eventLog calls).map (Event.map f g) := by
      rw [Note.events_map, hlog, ← events_labelled]
      rfl

variable [Ord R] [Ord R'] [Std.TransOrd R] [Std.LawfulEqOrd R] [Std.LawfulEqOrd C']
  [Std.TransOrd R'] [Std.LawfulEqOrd R']

/-- The course of a search depends on labels through their order only. Under names of columns and
    rows that keep their order, of whatever type, the parts of a problem describe a problem whose
    search has, after any number of calls, the same answers, counters, depth, end and coverage, and
    sends the same events, all with the new names in the places of the old ones. -/
theorem Reachable.course_of_renamed (hp : p.Reachable) {g : R → R'} (hf : StrictlyIncreasing f)
    (hg : StrictlyIncreasing g) :
    ∃ q : Problem C' R', Problem.ofParts (p.toParts.rename f g) = .ok q ∧
      (∀ calls, q.eventLog calls = (p.eventLog calls).map (Event.map f g)) ∧
      ∀ {σ : Type} (L : Listener C' R' σ) (state : σ) (calls : Nat),
        (q.solve L state).course calls =
          ((p.solve (L.rename f g) state).course calls).rename f g := by
  have hwell := hp.wellFormed
  refine ⟨p.rename f g, ?_, eventLog_rename hf g hwell.grid, fun L state calls =>
    course_rename hf g p L state calls⟩
  rw [← toParts_rename]
  exact (hwell.rename hf hg).ofParts_toParts

/-- A problem whose columns and rows are renamed, the columns to labels of another type. -/
theorem Reachable.course_of_shifted : ∃ (p : Problem Nat Nat) (q : Problem Int Nat),
    Problem.ofParts (p.toParts.rename (fun c : Nat => 3 * (c : Int) - 4) fun r => r * r) = .ok q ∧
    p.eventLog 1 = [.select 7, .remove 1 7, .remove 2 7, .solution [7]] ∧
    q.eventLog 1 = [.select 49, .remove (-1) 49, .remove 2 49, .solution [49]] ∧
    (q.solve Observer.silent.listener ()).course 2 =
      ⟨[some [49], some [64, 81]], ⟨4, 3, 0, 2, 2⟩, 2, false, [], ()⟩ := by
  have hf : StrictlyIncreasing fun c : Nat => 3 * (c : Int) - 4 := fun x y h => by
    rw [Nat.compare_eq_lt] at h
    have hlt : 3 * (x : Int) - 4 < 3 * (y : Int) - 4 := by omega
    exact Int.compare_eq_lt.mpr hlt
  have hg : StrictlyIncreasing fun r : Nat => r * r := fun x y h => by
    rw [Nat.compare_eq_lt] at h ⊢
    exact Nat.mul_self_lt_mul_self h
  obtain ⟨p, hp, hlog, hcourse⟩ : ∃ p : Problem Nat Nat, p.Reachable ∧
      p.eventLog 1 = [.select 7, .remove 1 7, .remove 2 7, .solution [7]] ∧
      (p.solve (Observer.silent.listener.rename (fun c : Nat => 3 * (c : Int) - 4)
        fun r : Nat => r * r) ()).course 2 =
        ⟨[some [7], some [8, 9]], ⟨4, 3, 0, 2, 2⟩, 2, false, [], ()⟩ :=
    ⟨_, .attempt (.addUnitRow 9 [2]) (.attempt (.addUnitRow 8 [1])
        (.attempt (.addUnitRow 7 [1, 2]) (.ofColumns (rfl : Problem.ofColumns [1, 2] = .ok _)))),
      by decide +kernel, by decide +kernel⟩
  obtain ⟨q, hq, hevents, hcourses⟩ := hp.course_of_renamed hf hg
  refine ⟨p, q, hq, hlog, ?_, ?_⟩
  · rw [hevents, hlog]
    rfl
  · rw [hcourses, hcourse]
    rfl

end Problem

end ExactCover
