import ExactCover.Proofs.Arena.Selection
import ExactCover.Proofs.Search.Steps

namespace ExactCover.Search

variable {g : Grid} {C R σ : Type} {columnAt : Fin g.columns → C} {rowAt : Fin g.rows → R}
  {L : Listener C R σ} {s : Search g σ} {column : Fin g.columns} {row : Fin g.rows} {limit : Nat}

section Loops

theorem mem_cells_of_mem_rows {t : Stage g} {r : Fin g.rows} (hr : r ∈ t.rows column) :
    (column, r) ∈ g.cells := Grid.mem_cells.mpr (Stage.mem_rows.mp hr).1

/-- Nothing is smaller than zero. -/
theorem minOn?_cons_of_zero {α : Type} {f : α → Nat} {x : α} (h : f x = 0) (xs : List α) :
    (x :: xs).minOn? f = some x := by
  rw [List.minOn?_cons]
  cases xs.minOn? f with
  | none => rfl
  | some y => exact congrArg some (minOn_eq_left (h ▸ Nat.zero_le _))

theorem minOn?_cons_cons {α : Type} {f : α → Nat} (x y : α) (xs : List α) :
    (x :: y :: xs).minOn? f = ((if f y < f x then y else x) :: xs).minOn? f := by
  have hmin : minOn f x y = if f y < f x then y else x := by
    split
    · exact minOn_eq_right (by omega)
    · exact minOn_eq_left (by omega)
  rw [← hmin]
  rfl

variable (columnAt rowAt) in
/-- The loop that looks for the column with the fewest rows follows the list of active columns. -/
theorem bestFrom_arena {f : Fin g.columns → Nat} (hf : ∀ c, (s.links.rows c).size = f c)
    (us vs : List (Fin g.columns)) (hlists : s.links.active.Lists (us ++ vs))
    (best : Option (Fin g.columns)) (hlimit : vs.length ≤ limit) :
    (s.arena columnAt rowAt).bestFrom limit (slot vs.head?)
        (best.map fun c => (slot (some c), f c)) =
      .ok (((best.toList ++ vs).minOn? f).map fun c => slot (some c)) := by
  induction vs generalizing us limit best with
  | nil =>
    cases best <;> cases limit <;> rfl
  | cons c vs ih =>
    cases limit with
    | zero => simp at hlimit
    | succ limit =>
      have hlimit := Nat.le_of_succ_le_succ hlimit
      have hcut : s.links.active.Lists ((us ++ [c]) ++ vs) := by simpa using hlists
      have hright : (s.links.header c).right = slot vs.head? := congrArg slot hlists.after_of_cut
      have hsize : (s.links.header c).size = f c := hf c
      rw [List.head?_cons, slot_some, Arena.bestFrom, ← slot_some, fetch_header_arena, ok_bind,
        hright, hsize]
      cases best with
      | none =>
        rw [Option.map_none, Option.all_none, if_pos rfl, Option.toList_none, List.nil_append]
        by_cases hzero : f c = 0
        · rw [if_pos hzero, minOn?_cons_of_zero hzero]
          rfl
        · rw [if_neg hzero]
          exact ih (us ++ [c]) hcut (some c) hlimit
      | some b =>
        rw [Option.map_some, Option.all_some, Option.toList_some, List.singleton_append,
          minOn?_cons_cons]
        by_cases hless : f c < f b
        · rw [if_pos (decide_eq_true hless), if_pos hless]
          by_cases hzero : f c = 0
          · rw [if_pos hzero, minOn?_cons_of_zero hzero]
            rfl
          · rw [if_neg hzero]
            exact ih (us ++ [c]) hcut (some c) hlimit
        · rw [if_neg (by simpa using hless), if_neg hless]
          exact ih (us ++ [c]) hcut (some b) hlimit

variable (columnAt rowAt) in
/-- The loop over the rows of a column follows its list. -/
theorem rowsFrom_arena (us vs : List (Fin g.rows))
    (hlists : (s.links.rows column).Lists (us ++ vs)) (hcolumn : ∀ r ∈ vs, (column, r) ∈ g.cells)
    (hlimit : vs.length ≤ limit) :
    (s.arena columnAt rowAt).rowsFrom limit (Links.nodeIn column vs.head?) =
      .ok (vs.map rowAt) := by
  induction vs generalizing us limit with
  | nil => cases limit <;> rfl
  | cons r vs ih =>
    cases limit with
    | zero => simp at hlimit
    | succ limit =>
      have hcut : (s.links.rows column).Lists ((us ++ [r]) ++ vs) := by simpa using hlists
      have hnext : (s.links.rows column).after r = vs.head? := hlists.after_of_cut
      change (fetch _ (Grid.nodeAt (column, r)) >>= fun node => _) = _
      rw [fetch_node_arena s (hcolumn r List.mem_cons_self), ok_bind]
      dsimp only [Links.node]
      rw [rowLabel_arena, ok_bind, hnext,
        ih (us ++ [r]) hcut (fun r' hr' => hcolumn r' (List.mem_cons_of_mem _ hr'))
          (Nat.le_of_succ_le_succ hlimit)]
      rfl

variable (columnAt rowAt) in
/-- The loop over the active columns follows their list. -/
theorem coverageFrom_arena {t : Stage g} (h : s.links.Shows t) (us vs : List (Fin g.columns))
    (hlists : s.links.active.Lists (us ++ vs)) (hlimit : g.rows ≤ limit) {columns : Nat}
    (hcolumns : vs.length ≤ columns) :
    (s.arena columnAt rowAt).coverageFrom limit columns (slot vs.head?) =
      .ok (vs.map fun c => (columnAt c, ((s.links.rows c).forward).map rowAt)) := by
  induction vs generalizing us columns with
  | nil => cases columns <;> rfl
  | cons c vs ih =>
    cases columns with
    | zero => simp at hcolumns
    | succ columns =>
      have hcut : s.links.active.Lists ((us ++ [c]) ++ vs) := by simpa using hlists
      have hnext : s.links.active.after c = vs.head? := hlists.after_of_cut
      have hrows := rowsFrom_arena columnAt rowAt [] (t.rows c) (h.rows c)
        (fun r => mem_cells_of_mem_rows) ((h.rows c).length_le.trans hlimit)
      rw [← (h.rows c).first_eq] at hrows
      change (fetch _ (slot (some c)) >>= fun header => _) = _
      rw [fetch_header_arena, ok_bind]
      dsimp only [Links.header]
      rw [hrows, ok_bind, ← slot_some, columnLabel_arena, ok_bind, hnext,
        ih (us ++ [c]) hcut (Nat.le_of_succ_le_succ hcolumns), ← (h.rows c).forward_eq]
      rfl

theorem coverage_arena {t : Stage g} (h : s.links.Shows t) (hrows : g.rows ≤ limit)
    (hcolumns : g.columns ≤ limit) :
    (s.arena columnAt rowAt).coverage limit =
      .ok (s.links.coverage.map fun (column, rows) => (columnAt column, rows.map rowAt)) := by
  have hloop := coverageFrom_arena columnAt rowAt h [] t.active h.active hrows
    (h.active.length_le.trans hcolumns)
  rw [← h.active.first_eq] at hloop
  rw [Links.coverage, List.map_map, h.active.forward_eq]
  exact hloop

theorem bestColumn_arena {t : Stage g} (h : s.links.Shows t) (hcolumns : g.columns ≤ limit) :
    (s.arena columnAt rowAt).bestColumn limit =
      .ok (s.links.bestColumn.map fun c => slot (some c)) := by
  have hloop := bestFrom_arena columnAt rowAt (fun _ => rfl) [] t.active h.active none
    (h.active.length_le.trans hcolumns)
  rw [← h.active.first_eq] at hloop
  rw [Links.bestColumn, h.active.forward_eq]
  exact hloop

theorem reinstateAll_arena (hg : g.WellFormed) {tried : List (Fin g.rows)}
    (hclosed : s.links.Closed) :
    (tried.map (·.val)).foldlM (fun a row => a.reinstate L row) (s.arena columnAt rowAt) =
      .ok ((tried.foldl (fun s row => s.reinstate (L.rename columnAt rowAt) row) s).arena columnAt
        rowAt) := by
  induction tried generalizing s with
  | nil => rfl
  | cons row tried ih =>
    rw [List.map_cons, List.foldlM_cons, reinstate_arena hg hclosed, ok_bind]
    refine ih ?_
    rw [reinstate_eq, links_moved]
    refine hclosed.restoreAll fun cell hcell => ?_
    exact Grid.mem_cells_of_mem_rowCells (List.mem_reverse.mp hcell)

end Loops

section Steps

variable {outer : List (Frame g)} {tried : List (Fin g.rows)} {o : Outline g} {observed : σ}

theorem due_le_target (hg : g.WellFormed) (frames : List (Frame g)) (c : Fin g.columns) :
    (stageAt frames).due c ≤ g.target c := by
  rw [due_stageAt hg]
  omega

/-- Selecting the next row of a level over tables. The level itself is replaced, and the rows tried
    at it are on the stack. -/
theorem tryNode_arena (hg : g.WellFormed) (h : Path (⟨column, none, tried⟩ :: outer))
    (hs : s.links = linksAt (⟨column, none, tried⟩ :: outer)) {rest : List (Fin g.rows)}
    (hrows : (stageAt (⟨column, none, tried⟩ :: outer)).rows column = row :: rest)
    (hlimit : g.rows ≤ limit) (current : Option (Fin g.rows)) (inner : List Level) :
    { s.arena columnAt rowAt with
        levels := inner
        tried := (tried ++ triedAt outer).map Fin.val }.tryNode L limit
          (level column current outer)
          (levels outer) (Grid.nodeAt (column, row)) =
      .ok ((s.tryRow (L.rename columnAt rowAt) ⟨column, current, tried⟩ outer row).arena columnAt
        rowAt) := by
  have hcolumn : column ∈ g.columnsOf row :=
    (Stage.mem_rows.mp (hrows ▸ List.mem_cons_self : row ∈ _)).1
  have hshows := h.shows hg
  have hsettled := h.settled hg
  have hclosed := Links.closed_linksAt (⟨column, none, tried⟩ :: outer)
  rw [← hs] at hshows hclosed
  have hselect := select_arena columnAt rowAt (L := L)
    (s := { s with frames := ⟨column, some row, tried⟩ :: outer }) hg (hshows.sound hsettled)
    hclosed hcolumn
    (hshows.selectable hsettled (h.available_next hg hrows) (due_le_target hg _)) hlimit
  have hstart : { s.arena columnAt rowAt with
        levels := { level column current outer with
          current := some (Grid.nodeAt (column, row)) } :: levels outer
        tried := (tried ++ triedAt outer).map Fin.val } =
      { s with frames := ⟨column, some row, tried⟩ :: outer }.arena columnAt rowAt := rfl
  dsimp only at hstart
  rw [Arena.tryNode]
  dsimp only
  rw [hstart, hselect, ok_bind, tryRow]
  dsimp only
  generalize select (L.rename columnAt rowAt) row
    { s with frames := ⟨column, some row, tried⟩ :: outer } = u
  cases hfits : u.fits row with
  | true => rfl
  | false =>
    have hdepth : (u.arena columnAt rowAt).selected.length = u.depth := List.length_map _
    simp only [Bool.false_eq_true, if_false, hdepth]
    rfl

/-- Leaving a level over tables. -/
theorem leave_arena (hg : g.WellFormed) (hclosed : s.links.Closed) (current : Option (Fin g.rows))
    (inner : List Level) :
    { s.arena columnAt rowAt with
        levels := inner
        tried := (tried ++ triedAt outer).map Fin.val }.leave L
          (level column current outer) (levels outer) =
      .ok ((s.leave (L.rename columnAt rowAt) ⟨column, current, tried⟩ outer).arena columnAt
        rowAt) := by
  have hsplit : splitOff (tried.map Fin.val ++ (triedAt outer).map Fin.val)
      (level column current outer).tried =
        .ok (tried.map Fin.val, (triedAt outer).map Fin.val) := by
    have happend := splitOff_append (tried.map Fin.val) ((triedAt outer).map Fin.val)
    rwa [List.length_map] at happend
  rw [Arena.leave, List.map_append]
  dsimp only
  rw [hsplit, ok_bind]
  exact reinstateAll_arena (s := { s with frames := outer }) hg hclosed

variable (columnAt rowAt) in
/-- Going on to the next row of a level, or leaving the level, over tables. -/
theorem proceed_arena (hg : g.WellFormed) (h : Path (⟨column, none, tried⟩ :: outer))
    (hs : s.links = linksAt (⟨column, none, tried⟩ :: outer)) (hlimit : g.rows ≤ limit)
    (current : Option (Fin g.rows)) (inner : List Level) :
    { s.arena columnAt rowAt with
        levels := inner
        tried := (tried ++ triedAt outer).map Fin.val }.proceed L limit
          (level column current outer) (levels outer)
          (Links.nodeIn column ((stageAt (⟨column, none, tried⟩ :: outer)).rows column).head?) =
      .ok ((s.proceed (L.rename columnAt rowAt) ⟨column, current, tried⟩ outer
        ((stageAt (⟨column, none, tried⟩ :: outer)).rows column).head?).arena columnAt rowAt) := by
  cases hrows : (stageAt (⟨column, none, tried⟩ :: outer)).rows column with
  | nil => exact leave_arena hg (by rw [hs]; exact Links.closed_linksAt _) current inner
  | cons row rest => exact tryNode_arena hg h hs hrows hlimit current inner

/-- Going on at a level at which no row is selected. -/
theorem backtrack_none_arena (hg : g.WellFormed) (h : Path (⟨column, none, tried⟩ :: outer))
    (hs : s.links = linksAt (⟨column, none, tried⟩ :: outer))
    (hframes : s.frames = ⟨column, none, tried⟩ :: outer) (hlimit : g.rows ≤ limit) :
    (s.arena columnAt rowAt).backtrack L limit (level column none outer) (levels outer) =
      .ok ((s.proceed (L.rename columnAt rowAt) ⟨column, none, tried⟩ outer
        (s.links.rows column).first).arena columnAt rowAt) := by
  have hfirst : (s.links.rows column).first =
      ((stageAt (⟨column, none, tried⟩ :: outer)).rows column).head? := by
    rw [hs]
    exact ((h.shows hg).rows column).first_eq
  have htried : { s.arena columnAt rowAt with
      levels := levels s.frames
      tried := (tried ++ triedAt outer).map Fin.val } = s.arena columnAt rowAt := by
    rw [arena, hframes]
    rfl
  have hproceed := proceed_arena columnAt rowAt (L := L) hg h hs hlimit
    none (levels s.frames)
  rw [htried, ← hfirst] at hproceed
  rw [Arena.backtrack, level]
  dsimp only [Links.nodeIn, Option.map_none]
  rw [fetch_header_arena, ok_bind]
  exact hproceed

/-- Going on at a level at which a row is selected. -/
theorem backtrack_some_arena (hg : g.WellFormed) (h : Path (⟨column, some row, tried⟩ :: outer))
    (st : Statistics) (hlimit : g.rows ≤ limit) :
    (((⟨⟨column, some row, tried⟩ :: outer, .advance, st⟩ : Outline g).search observed).arena
        columnAt rowAt).backtrack L limit (level column (some row) outer) (levels outer) =
      .ok ((((⟨⟨column, some row, tried⟩ :: outer, .advance, st⟩ : Outline g).search
        observed).advance (L.rename columnAt rowAt)).arena columnAt rowAt) := by
  obtain ⟨hpath, rest, hrows⟩ := h.of_pick
  have hcolumn : column ∈ g.columnsOf row :=
    (Stage.mem_rows.mp (hrows ▸ List.mem_cons_self : row ∈ _)).1
  have hcell : (column, row) ∈ g.cells := Grid.mem_cells.mpr hcolumn
  have hshows := hpath.shows hg
  have hsettled := hpath.settled hg
  have hdeselect := deselect_arena columnAt rowAt (L := L)
    (s := (⟨⟨column, some row, tried⟩ :: outer, .advance, st⟩ : Outline g).search observed) hg
    (hshows.sound hsettled) (Links.closed_linksAt _) hcolumn
    (hshows.selectable hsettled (hpath.available_next hg hrows) (due_le_target hg _)) hlimit rfl rfl
  rw [Arena.backtrack, level]
  dsimp only [Links.nodeIn, Option.map_some]
  rw [hdeselect, ok_bind, fetch_node_arena _ hcell, ok_bind]
  change _ = Except.ok (((Outline.search _ observed).deselect _ row |>.proceed _
    ⟨column, some row, row :: tried⟩ outer
    (((Outline.search _ observed).deselect _ row).links.rows column |>.after row)).arena _ _)
  rw [deselect_current_eq hg h]
  dsimp only [Links.node]
  rw [after_deselected hg h]
  exact proceed_arena columnAt rowAt hg (hpath.pass hrows) rfl hlimit (some row) _

/-- A step back over tables, at a place of the search tree. -/
theorem advance_arena (hg : g.WellFormed) (ho : o.Valid) (hphase : o.phase = .advance)
    (hframes : o.frames ≠ []) (hlimit : g.rows ≤ limit) :
    ((o.search observed).arena columnAt rowAt).advance L limit =
      .ok (true, ((o.search observed).advance (L.rename columnAt rowAt)).arena columnAt rowAt) := by
  obtain ⟨frames, phase, st⟩ := o
  cases hphase
  match frames with
  | [] => exact absurd rfl hframes
  | ⟨column, none, tried⟩ :: outer =>
    have hlevels : (((⟨⟨column, none, tried⟩ :: outer, .advance, st⟩ : Outline g).search
        observed).arena columnAt rowAt).levels = level column none outer :: levels outer := rfl
    rw [Arena.advance, hlevels]
    dsimp only
    rw [backtrack_none_arena hg ho.path rfl rfl hlimit]
    rfl
  | ⟨column, some row, tried⟩ :: outer =>
    have hlevels : (((⟨⟨column, some row, tried⟩ :: outer, .advance, st⟩ : Outline g).search
        observed).arena columnAt rowAt).levels = level column (some row) outer :: levels outer :=
      rfl
    rw [Arena.advance, hlevels]
    dsimp only
    rw [backtrack_some_arena hg ho.path st hlimit]
    rfl

theorem mapM_rowLabel_arena (s : Search g σ) (rows : List (Fin g.rows)) :
    (rows.map Fin.val).mapM (s.arena columnAt rowAt).rowLabel = .ok (rows.map rowAt) := by
  rw [List.mapM_map]
  exact mapM_eq_ok fun row _ => s.rowLabel_arena row

theorem find_arena (s : Search g σ) :
    (s.arena columnAt rowAt).find L =
      .ok (some (s.selection.map rowAt), (({ s with
        statistics.solutions := s.statistics.solutions + 1 }.remark (L.rename columnAt rowAt)
          (.solutionFound s.depth)).notify (L.rename columnAt rowAt)
          (.solution s.selection)).arena columnAt rowAt) := by
  have hsolution : (s.arena columnAt rowAt).selected.reverse = s.selection.map Fin.val :=
    (List.map_reverse ..).symm
  have hlength : (s.selection.map rowAt).length = s.depth := by
    rw [List.length_map]
    exact List.length_reverse
  rw [Arena.find, hsolution, mapM_rowLabel_arena, ok_bind, hlength]
  rfl

theorem countNode_arena (s : Search g σ) : (s.arena columnAt rowAt).countNode =
    { s with phase := .advance, statistics.nodes := s.statistics.nodes + 1 }.arena columnAt rowAt :=
  rfl

/-- A step forward over tables. -/
theorem choose_arena {t : Stage g} (h : s.links.Shows t) (hcolumns : g.columns ≤ limit) :
    (s.arena columnAt rowAt).choose L limit =
      .ok ((s.choose (L.rename columnAt rowAt)).1.map fun rows => rows.map rowAt,
        (s.choose (L.rename columnAt rowAt)).2.arena columnAt rowAt) := by
  rw [Arena.choose, countNode_arena, bestColumn_arena (t := t) (by exact h) hcolumns, ok_bind,
    choose]
  dsimp only
  cases hcolumn : s.links.bestColumn with
  | some column =>
    have hlength : ((triedAt s.frames).map Fin.val).length = (triedAt s.frames).length :=
      List.length_map _
    simp only [Option.map_some, arena, hlength]
    rfl
  | none =>
    rw [Option.map_none]
    exact find_arena _

/-- A step over tables, at any place that the search reaches. -/
theorem step_arena (hg : g.WellFormed) (ho : o.Valid) (hrows : g.rows ≤ limit)
    (hcolumns : g.columns ≤ limit) :
    ((o.search observed).arena columnAt rowAt).step L limit =
      .ok (((o.search observed).step (L.rename columnAt rowAt)).1.map fun rows => rows.map rowAt,
        ((o.search observed).step (L.rename columnAt rowAt)).2.arena columnAt rowAt) := by
  obtain ⟨frames, phase, st⟩ := o
  cases phase with
  | choose => exact choose_arena (ho.path.shows hg) hcolumns
  | exhausted => rfl
  | advance =>
    cases frames with
    | nil => rfl
    | cons frame outer =>
      change (Arena.advance L limit _ >>= fun p => _) = _
      rw [advance_arena hg ho rfl (List.cons_ne_nil _ _) hrows]
      rfl

/-- The loop that looks for the next solution makes as many steps over tables as over lists. -/
theorem nextWithin_arena (hg : g.WellFormed) (hrows : g.rows ≤ limit) (hcolumns : g.columns ≤ limit)
    {steps steps' : Nat} (ho : o.Valid) (hsteps : o.stepsLeft < steps) (hle : steps ≤ steps') :
    ((o.search observed).arena columnAt rowAt).nextWithin L limit steps' =
      .ok (((o.search observed).nextWithin (L.rename columnAt rowAt) steps).1.map
          fun rows => rows.map rowAt,
        ((o.search observed).nextWithin (L.rename columnAt rowAt) steps).2.arena columnAt
          rowAt) := by
  -- A step leaves fewer steps to make, so neither limit is used up before the search is over.
  induction steps generalizing o steps' observed with
  | zero => omega
  | succ steps ih =>
    obtain ⟨steps', rfl⟩ : ∃ n, steps' = n + 1 := ⟨steps' - 1, by omega⟩
    have hphaseEq : ((o.search observed).arena columnAt rowAt).phase = o.phase := rfl
    rw [Arena.nextWithin, nextWithin, hphaseEq]
    by_cases hphase : o.phase = .exhausted
    · have hexhausted : (o.search observed).isExhausted = true := beq_iff_eq.mpr hphase
      rw [if_pos hexhausted, if_pos hphase]
      rfl
    · have hrunning : ¬ (o.search observed).isExhausted = true := mt beq_iff_eq.mp hphase
      obtain ⟨found, notes, o', hmoves, hless, -, -, hstep⟩ := step_spec hg ho hphase
      rw [if_neg hrunning, if_neg hphase, step_arena hg ho hrows hcolumns, ok_bind, hstep]
      cases found with
      | some rows => rfl
      | none => exact ih (hmoves.valid ho) (by omega) (by omega)

end Steps

end ExactCover.Search
