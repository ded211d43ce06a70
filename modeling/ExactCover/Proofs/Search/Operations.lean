import ExactCover.Proofs.Observer
import ExactCover.Proofs.Search.Path

namespace ExactCover

variable {g : Grid} {σ : Type} {L : Listener (Fin g.columns) (Fin g.rows) σ}

namespace Search

/-- A search with other lists, whose listener has heard some events. An operation is told apart into
    what it does to the lists and what the listener hears of it. -/
def moved (L : Listener (Fin g.columns) (Fin g.rows) σ) (s : Search g σ) (links : Links g)
    (events : List (Event (Fin g.columns) (Fin g.rows))) : Search g σ :=
  { s with
    links := links
    observed := L.hearAll (events.map .event) s.observed }

@[simp]
theorem links_moved (s : Search g σ) (links : Links g)
    (events : List (Event (Fin g.columns) (Fin g.rows))) :
    (s.moved L links events).links = links := rfl

theorem moved_moved (s : Search g σ) (links links' : Links g)
    (events events' : List (Event (Fin g.columns) (Fin g.rows))) :
    (s.moved L links events).moved L links' events' = s.moved L links' (events ++ events') := by
  simp only [moved, List.map_append, Listener.hearAll_append]

theorem removeCells_eq (s : Search g σ) (cells : List g.Cell) :
    s.removeCells L cells = s.moved L (s.links.removeAll cells) (Event.removals cells) := by
  induction cells generalizing s with
  | nil => rfl
  | cons cell cells ih =>
    change ({ s with links := s.links.removeCell cell }.notify L
      (.remove cell.1 cell.2)).removeCells L cells = _
    rw [ih]
    rfl

theorem restoreCells_eq (s : Search g σ) (cells : List g.Cell) :
    s.restoreCells L cells = s.moved L (s.links.restoreAll cells) (Event.restorals cells) := by
  induction cells generalizing s with
  | nil => rfl
  | cons cell cells ih =>
    change ({ s with links := s.links.restoreCell cell }.notify L
      (.restore cell.1 cell.2)).restoreCells L cells = _
    rw [ih]
    rfl

theorem withdraw_eq (s : Search g σ) (row : Fin g.rows) :
    s.withdraw L row =
      s.moved L (s.links.withdraw row) (Event.removals (g.rowCells row)) :=
  s.removeCells_eq _

theorem reinstate_eq (s : Search g σ) (row : Fin g.rows) :
    s.reinstate L row =
      s.moved L (s.links.reinstate row) (Event.restorals (g.rowCells row).reverse) :=
  s.restoreCells_eq _

theorem cover_eq (s : Search g σ) (column : Fin g.columns) :
    s.cover L column =
      s.moved L (s.links.cover column) (Event.removals (s.links.cellsHidden column)) := by
  rw [cover, removeCells_eq]
  rfl

theorem uncover_eq (s : Search g σ) (column : Fin g.columns) :
    s.uncover L column =
      s.moved L (s.links.uncover column) (Event.restorals (s.links.cellsRevealed column)) := by
  rw [uncover, restoreCells_eq]
  rfl

/-- A charge in the search is one of the lists, and the listener hears of the cells that are
    lost. -/
theorem charge_eq (s : Search g σ) (entry : Fin g.columns × Amount) :
    s.charge L entry =
      s.moved L (s.links.charge entry) (Event.removals (s.links.lost entry)) := by
  change (if (s.links.lessen entry).due entry.1 ≤ 0 then
      { s with links := s.links.lessen entry }.cover L entry.1
    else { s with links := s.links.lessen entry }) = _
  rw [Links.charge, Links.lost]
  split
  · exact cover_eq _ _
  · rfl

/-- A refund in the search is one of the lists, and the listener hears of the cells that come
    back. -/
theorem refund_eq (s : Search g σ) (entry : Fin g.columns × Amount) :
    s.refund L entry =
      s.moved L (s.links.refund entry) (Event.restorals (s.links.revealed entry)) := by
  simp only [refund, Links.refund, Links.revealed]
  split
  · rw [uncover_eq]
    rfl
  · rfl

/-- Operations that only move cells do so one after the other as well. -/
theorem exists_moved_foldl {α : Type} {f : Search g σ → α → Search g σ}
    {move : Links g → α → Links g}
    (hf : ∀ s x, ∃ events, f s x = s.moved L (move s.links x) events) (s : Search g σ)
    (xs : List α) : ∃ events, xs.foldl f s = s.moved L (xs.foldl move s.links) events := by
  induction xs generalizing s with
  | nil => exact ⟨[], rfl⟩
  | cons x xs ih =>
    obtain ⟨events, hfirst⟩ := hf s x
    obtain ⟨events', hrest⟩ := ih (f s x)
    refine ⟨events ++ events', ?_⟩
    rw [List.foldl_cons, hrest, hfirst, moved_moved]
    rfl

theorem exists_moved_chargeAll (s : Search g σ) (entries : List (Fin g.columns × Amount)) :
    ∃ events, entries.foldl (fun s entry => s.charge L entry) s =
      s.moved L (entries.foldl Links.charge s.links) events :=
  exists_moved_foldl (fun s entry => ⟨_, s.charge_eq entry⟩) s entries

theorem exists_moved_refundAll (s : Search g σ) (entries : List (Fin g.columns × Amount)) :
    ∃ events, entries.foldl (fun s entry => s.refund L entry) s =
      s.moved L (entries.foldl Links.refund s.links) events :=
  exists_moved_foldl (fun s entry => ⟨_, s.refund_eq entry⟩) s entries

/-- A selection changes the lists, the partial solution and the counters; all else are events. -/
theorem exists_moved_select (s : Search g σ) (row : Fin g.rows) :
    ∃ events, s.select L row = { s with
        selected := row :: s.selected
        statistics := s.statistics.addSelection (s.depth + 1) }.moved L (s.links.select row)
      (.select row :: events) := by
  rw [select, withdraw_eq]
  obtain ⟨events, hcharged⟩ := exists_moved_chargeAll (L := L) _ (g.cover row)
  rw [hcharged, moved_moved]
  exact ⟨_, rfl⟩

/-- A deselection changes the lists and the partial solution; all else are events. -/
theorem exists_moved_deselect (s : Search g σ) (row : Fin g.rows) :
    ∃ events, s.deselect L row =
      { s with selected := s.selected.tail }.moved L (s.links.deselect row)
        (events ++ [Event.deselect row]) := by
  obtain ⟨events, hrefunded⟩ := exists_moved_refundAll (L := L) s (g.cover row).reverse
  refine ⟨events, ?_⟩
  rw [deselect, hrefunded, ← moved_moved]
  rfl

theorem exists_moved_leave (s : Search g σ) (frame : Frame g) (outer : List (Frame g)) :
    ∃ events, s.leave L frame outer = { s with frames := outer }.moved L
      (frame.tried.foldl Links.reinstate s.links) events :=
  exists_moved_foldl (fun s row => ⟨_, s.reinstate_eq row⟩) _ frame.tried

/-- Charging one column after the other takes out the cells that the stage loses. -/
theorem chargeAll_eq (hg : g.WellFormed) {s : Search g σ} {t : Stage g} (h : s.links.Shows t)
    (ht : t.Settled) {entries : List (Fin g.columns × Amount)} (hnodup : (entries.map (·.1)).Nodup)
    (hopen : ∀ e ∈ entries, e.1 ∉ t.exhausted) :
    entries.foldl (fun s entry => s.charge L entry) s =
      s.moved L (entries.foldl Links.charge s.links) (Event.removals (t.lostAll entries)) := by
  induction entries generalizing s t with
  | nil => rfl
  | cons entry rest ih =>
    have hentry := hopen entry List.mem_cons_self
    obtain ⟨hrestNodup, hrestOpen⟩ := Stage.open_after_charge hnodup hopen
    obtain ⟨hlost, hshows, -, -⟩ := h.charge hg ht hentry
    rw [List.foldl_cons, charge_eq, ih hshows (ht.charge hentry) hrestNodup hrestOpen, moved_moved,
      links_moved, hlost, ← Event.removals_append]
    rfl

/-- Refunding the charges, last one first, puts the cells back in the opposite order and leaves the
    lists as they were before the first charge. -/
theorem refundAll_eq (hg : g.WellFormed) {l : Links g} {t : Stage g} (h : l.Shows t)
    (ht : t.Settled) {entries : List (Fin g.columns × Amount)} (hnodup : (entries.map (·.1)).Nodup)
    (hopen : ∀ e ∈ entries, e.1 ∉ t.exhausted) {s : Search g σ}
    (hs : s.links = entries.foldl Links.charge l) :
    entries.reverse.foldl (fun s entry => s.refund L entry) s =
      s.moved L l (Event.restorals (t.lostAll entries).reverse) := by
  induction entries generalizing l t with
  | nil =>
    rw [List.foldl_nil] at hs
    rw [← hs]
    rfl
  | cons entry rest ih =>
    have hentry := hopen entry List.mem_cons_self
    obtain ⟨hrestNodup, hrestOpen⟩ := Stage.open_after_charge hnodup hopen
    obtain ⟨-, hshows, hrevealed, hback⟩ := h.charge hg ht hentry
    -- The other columns are refunded first, which leads back to the lists after the first charge.
    have hinner := ih hshows (ht.charge hentry) hrestNodup hrestOpen hs
    rw [List.reverse_cons, List.foldl_append, hinner, List.foldl_cons, List.foldl_nil, refund_eq,
      links_moved, hback, hrevealed, moved_moved, ← Event.restorals_append, ← List.reverse_append]
    rfl

/-- What a selection does: the row loses its cells, and then other rows lose theirs. -/
theorem select_eq (hg : g.WellFormed) {s : Search g σ} {t : Stage g} (h : s.links.Shows t)
    (ht : t.Settled) {row : Fin g.rows} (hrow : t.Available row) :
    s.select L row = { s with
        selected := row :: s.selected
        statistics := s.statistics.addSelection (s.depth + 1) }.moved L (s.links.select row)
      (.select row :: Event.removals (g.rowCells row ++ t.hidden row)) := by
  rw [select, withdraw_eq]
  rw [chargeAll_eq hg (t := t.withdraw row) (h.withdraw hg hrow).1 ht (hg.columns_nodup row)
    hrow.open_withdraw, moved_moved, ← Event.removals_append]
  rfl

/-- A selected row fits if none of its columns has less to receive than the row gives to it. -/
theorem fits_select (hg : g.WellFormed) (s : Search g σ) (row : Fin g.rows) :
    (s.select L row).fits row =
      (g.cover row).all fun e => decide (0 ≤ s.links.due e.1 - e.2.toNat) := by
  obtain ⟨events, hselect⟩ := s.exists_moved_select (L := L) row
  rw [hselect, fits, Bool.eq_iff_iff, List.all_eq_true, List.all_eq_true]
  refine forall₂_congr fun e he => ?_
  rw [links_moved, Links.due_select hg, hg.amount_of_mem he]

/-- A deselection puts back the cells of the other rows; the row itself stays out. -/
theorem deselect_eq (hg : g.WellFormed) {l : Links g} {t : Stage g} (h : l.Shows t)
    (ht : t.Settled) {row : Fin g.rows} (hrow : t.Available row) {s : Search g σ}
    (hs : s.links = l.select row) :
    s.deselect L row = { s with selected := s.selected.tail }.moved L (l.withdraw row)
      (Event.restorals (t.hidden row).reverse ++ [Event.deselect row]) := by
  rw [deselect, refundAll_eq hg (t := t.withdraw row) (h.withdraw hg hrow).1 ht
    (hg.columns_nodup row) hrow.open_withdraw hs]
  simp only [moved, notify, List.map_append, Listener.hearAll_append]
  rfl

/-- Reinstating the rows tried at a level, latest first, leaves the lists of the level outside. -/
theorem reinstateAll_eq (hg : g.WellFormed) {outer : List (Frame g)} {column : Fin g.columns}
    {tried : List (Fin g.rows)} (h : Path (⟨column, none, tried⟩ :: outer)) {s : Search g σ}
    (hs : s.links = linksAt (⟨column, none, tried⟩ :: outer)) :
    tried.foldl (fun s row => s.reinstate L row) s =
      s.moved L (linksAt outer)
        (tried.flatMap fun row => Event.restorals (g.rowCells row).reverse) := by
  induction tried generalizing s with
  | nil =>
    rw [linksAt_enter] at hs
    rw [← hs]
    rfl
  | cons row tried ih =>
    obtain ⟨hpath, rest, hrows⟩ := h.of_pass
    have hback := ((hpath.shows hg).withdraw hg (hpath.available_next hg hrows)).2
    rw [linksAt_pass] at hs
    rw [List.foldl_cons, reinstate_eq, hs, hback, ih hpath rfl, moved_moved]
    rfl

end Search

end ExactCover
