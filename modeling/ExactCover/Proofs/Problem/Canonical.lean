import ExactCover.Proofs.Problem.History
import ExactCover.Proofs.Problem.Views
import ExactCover.Solver

namespace ExactCover

/-- A problem as three lists: the columns in ascending order, their targets in the same order, and
    the rows in ascending order, each with the positions of its columns and its amounts. -/
structure Problem.Listing (C R : Type) where
  columns : List C
  targets : List Amount
  rows : List (R × List (Nat × Amount))
deriving DecidableEq, Repr

namespace Problem

variable {C R : Type} [Ord C]

def listing (p : Problem C R) : Listing C R where
  columns := p.columns
  targets := p.targets.entries.map (·.2)
  rows := p.rows.entries.map fun (row, cover) => (row, p.numbered cover)

variable [Ord R] [Std.TransOrd C] [Std.LawfulEqOrd C] {p q : Problem C R}

/-- Covers with the same positions and amounts are equal. -/
theorem WellFormed.numbered_inj (hp : p.WellFormed) (hq : q.WellFormed)
    (htargets : p.targets = q.targets) {e f : R × Cover C} (he : e ∈ p.rows.entries)
    (hf : f ∈ q.rows.entries) (h : p.numbered e.2 = q.numbered f.2) : e.2 = f.2 := by
  obtain ⟨targets, rows⟩ := p
  obtain ⟨targets', rows'⟩ := q
  obtain rfl : targets = targets' := htargets
  have hpositions : positions (⟨targets, rows⟩ : Problem C R) e.2 =
      positions (⟨targets, rows'⟩ : Problem C R) f.2 := by
    refine List.map_injective_iff.mpr (fun x y hxy => ?_) h
    obtain ⟨hcolumn, hamount⟩ := Prod.mk.inj hxy
    exact Prod.ext (Fin.ext hcolumn) hamount
  have hentries : e.2.entries = f.2.entries := by
    rw [← hp.positions_labels he, ← hq.positions_labels hf, hpositions]
    rfl
  exact congrArg SortedMap.mk hentries

/-- A problem is known from its lists. -/
theorem WellFormed.listing_inj (hp : p.WellFormed) (hq : q.WellFormed) :
    p.listing = q.listing ↔ p = q := by
  refine ⟨fun h => ?_, fun h => h ▸ rfl⟩
  obtain ⟨hcolumns, hamounts, hrows⟩ := (Listing.mk.injEq ..).mp h
  have htargets : p.targets = q.targets := congrArg SortedMap.mk
    ((List.zip_of_prod hcolumns hamounts).trans (List.zip_of_prod rfl rfl).symm)
  have hlength : p.rows.entries.length = q.rows.entries.length := by
    simpa using congrArg List.length hrows
  have hentries : p.rows.entries = q.rows.entries := by
    refine List.ext_getElem hlength fun i hi hi' => ?_
    have hrow := List.getElem_of_eq hrows (by simpa using hi)
    rw [List.getElem_map, List.getElem_map] at hrow
    obtain ⟨hlabel, hnumbered⟩ := Prod.mk.inj hrow
    exact Prod.ext hlabel (hp.numbered_inj hq htargets (List.getElem_mem hi) (List.getElem_mem hi')
      hnumbered)
  obtain ⟨targets, rows⟩ := p
  obtain ⟨targets', rows'⟩ := q
  exact (Problem.mk.injEq ..).mpr ⟨htargets, congrArg SortedMap.mk hentries⟩

variable [Std.TransOrd R] [Std.LawfulEqOrd R]

/-- A row covers a column, so whether there is a row shows in the amounts. -/
theorem WellFormed.row?_eq_of_amount? (hp : p.WellFormed) (hq : q.WellFormed) {row : R}
    (h : ∀ column, p.amount? row column = q.amount? row column) : p.row? row = q.row? row := by
  have hsome {p q : Problem C R} (hp : p.WellFormed) {cover : Cover C}
      (h : ∀ column, p.amount? row column = q.amount? row column) (hrow : p.row? row = some cover) :
      ∃ cover', q.row? row = some cover' := by
    have hentry := hp.row?_eq_some_iff.mp hrow
    obtain ⟨x, hx⟩ := List.exists_mem_of_ne_nil _ (hp.cover_ne_nil _ hentry)
    have hamount := hp.amount?_eq_some_iff.mpr ⟨cover, hrow, hx⟩
    rw [h, amount?, Option.bind_eq_some_iff] at hamount
    obtain ⟨cover', hcover', -⟩ := hamount
    exact ⟨cover', hcover'⟩
  cases hrow : p.row? row with
  | none =>
    cases hrow' : q.row? row with
    | none => rfl
    | some cover' =>
      obtain ⟨cover, hcover⟩ := hsome hq (fun column => (h column).symm) hrow'
      rw [hrow] at hcover
      cases hcover
  | some cover =>
    obtain ⟨cover', hrow'⟩ := hsome hp h hrow
    have hascending := (hp.cover _ (hp.row?_eq_some_iff.mp hrow)).ascending
    have hascending' := (hq.cover _ (hq.row?_eq_some_iff.mp hrow')).ascending
    rw [hrow']
    refine congrArg some (hascending.ext_get? hascending' fun column => ?_)
    have hget := h column
    rwa [amount?, amount?, hrow, hrow'] at hget

/-- What the look-ups find determines a problem. -/
theorem WellFormed.eq_iff_views (hp : p.WellFormed) (hq : q.WellFormed) :
    p = q ↔ (∀ column, p.target? column = q.target? column) ∧
      ∀ row column, p.amount? row column = q.amount? row column := by
  refine ⟨fun h => h ▸ ⟨fun _ => rfl, fun _ _ => rfl⟩, fun ⟨htargets, hamounts⟩ => ?_⟩
  have htargets := hp.targets_ascending.ext_get? hq.targets_ascending htargets
  have hrows := hp.rows_ascending.ext_get? hq.rows_ascending fun row =>
    hp.row?_eq_of_amount? hq (hamounts row)
  obtain ⟨targets, rows⟩ := p
  obtain ⟨targets', rows'⟩ := q
  exact (Problem.mk.injEq ..).mpr ⟨htargets, hrows⟩

/-- The same columns, the same final targets, and rows of the same names that list for every column
    the same in total, in whatever order all of it is put in. -/
structure SameContents (columns columns' : List C) (edits edits' : List (Edit C R)) : Prop where
  columns_perm : columns.Perm columns'
  target_eq : ∀ column ∈ columns, lastTarget edits column = lastTarget edits' column
  name_iff : ∀ row, row ∈ (rowsAdded edits).map (·.1) ↔ row ∈ (rowsAdded edits').map (·.1)
  listed_eq : ∀ added ∈ rowsAdded edits, ∀ added' ∈ rowsAdded edits', added.1 = added'.1 →
    ∀ column, listed added.2 column = listed added'.2 column

variable {columns columns' : List C} {edits edits' : List (Edit C R)}

omit [Std.TransOrd C] [Std.LawfulEqOrd C] in
theorem Holds.row?_eq_none (hp : Holds columns edits p) {row : R}
    (h : row ∉ (rowsAdded edits).map (·.1)) : p.row? row = none :=
  (SortedMap.get?_eq_none_iff hp.wellFormed.rows_ascending).mpr fun hmem =>
    h ((hp.mem_rows row).mp hmem)

/-- Problems that hold the same are equal. -/
theorem Holds.eq_of_sameContents (hp : Holds columns edits p) (hq : Holds columns' edits' q)
    (h : SameContents columns columns' edits edits') : p = q := by
  refine (hp.wellFormed.eq_iff_views hq.wellFormed).mpr ⟨fun column => ?_, fun row column => ?_⟩
  · by_cases hcolumn : column ∈ columns
    · rw [hp.target?_eq column hcolumn, h.target_eq column hcolumn,
        hq.target?_eq column (h.columns_perm.mem_iff.mp hcolumn)]
    · have hcolumn' : column ∉ columns' := mt h.columns_perm.mem_iff.mpr hcolumn
      rw [target?, target?, (SortedMap.get?_eq_none_iff hp.wellFormed.targets_ascending).mpr
        (mt hp.columns_perm.mem_iff.mp hcolumn),
        (SortedMap.get?_eq_none_iff hq.wellFormed.targets_ascending).mpr
          (mt hq.columns_perm.mem_iff.mp hcolumn')]
  · by_cases hrow : row ∈ (rowsAdded edits).map (·.1)
    · obtain ⟨added, hadded, rfl⟩ := List.mem_map.mp hrow
      obtain ⟨added', hadded', hname⟩ := List.mem_map.mp ((h.name_iff _).mp hrow)
      obtain ⟨cover, hcover, hweight⟩ := hp.weight_eq added hadded
      obtain ⟨cover', hcover', hweight'⟩ := hq.weight_eq added' hadded'
      rw [hname] at hcover'
      have hwell := hp.wellFormed.cover _ (hp.wellFormed.row?_eq_some_iff.mp hcover)
      have hwell' := hq.wellFormed.cover _ (hq.wellFormed.row?_eq_some_iff.mp hcover')
      rw [amount?, amount?, hcover, hcover']
      refine hwell.get?_eq_of_weight_eq hwell' ?_
      rw [hweight, hweight', h.listed_eq added hadded added' hadded' hname.symm]
    · rw [amount?, amount?, hp.row?_eq_none hrow, hq.row?_eq_none (mt (h.name_iff row).mpr hrow)]

/-- Problems are canonical, however they came about. They are equal just if their lists are, and
    just if every target and every amount is the same in both. Each has a history of accepted edits,
    which for parts are their targets and rows, and problems with histories that put in the same, in
    any order, are equal: they have the same parts, and their searches have the same solutions in
    the same order and send the same events. -/
theorem Reachable.canonical (hp : p.Reachable) (hq : q.Reachable) :
    (p.listing = q.listing ↔ p = q) ∧
    (p = q ↔ (∀ column, p.target? column = q.target? column) ∧
      ∀ row column, p.amount? row column = q.amount? row column) ∧
    (∃ (columns : List C) (edits : List (Edit C R)), Built columns edits p) ∧
    (∀ parts : Parts C R, Problem.ofParts parts = .ok p →
      Built parts.columns (editsOfParts parts) p) ∧
    ∀ (columns columns' : List C) (edits edits' : List (Edit C R)),
      Built columns edits p → Built columns' edits' q →
      SameContents columns columns' edits edits' →
      p = q ∧ p.toParts = q.toParts ∧
      ∀ {σ : Type} (L : Listener C R σ) (state : σ),
        (p.solve L state).rest.1 = (q.solve L state).rest.1 ∧
        (p.solve L state).rest.2.observed = (q.solve L state).rest.2.observed := by
  refine ⟨hp.wellFormed.listing_inj hq.wellFormed, hp.wellFormed.eq_iff_views hq.wellFormed,
    hp.exists_built, fun parts => built_ofParts,
    fun columns columns' edits edits' hbuilt hbuilt' hsame => ?_⟩
  obtain rfl := hbuilt.holds.eq_of_sameContents hbuilt'.holds hsame
  exact ⟨rfl, rfl, fun L state => ⟨rfl, rfl⟩⟩

/-- One problem from edits and from parts: the columns, the rows and the entries of a row come in
    different orders, and one of the edits sets a target that is set again. -/
theorem Reachable.canonical_two_histories : ∃ p q : Problem Nat Nat,
    Built [2, 1] [.setTarget 1 3, .addRow 7 [(1, 2), (2, 1)], .setTarget 1 2, .addUnitRow 8 [2]] p ∧
    Problem.ofParts ⟨[1, 2], [(8, [2]), (7, [2, 1])], [(1, 2)], [(7, [(1, 2)])]⟩ = .ok q ∧
    p.toParts = q.toParts ∧ p.listing = q.listing ∧ p.amount? 7 1 = some 2 := by
  obtain ⟨p, hbuilt, hamount⟩ : ∃ p : Problem Nat Nat,
      Built [2, 1] [.setTarget 1 3, .addRow 7 [(1, 2), (2, 1)], .setTarget 1 2, .addUnitRow 8 [2]]
        p ∧ p.amount? 7 1 = some 2 :=
    ⟨_, ((((Built.blank rfl).accept rfl).accept rfl).accept rfl).accept rfl, rfl⟩
  obtain ⟨q, hparts⟩ : ∃ q : Problem Nat Nat,
      Problem.ofParts ⟨[1, 2], [(8, [2]), (7, [2, 1])], [(1, 2)], [(7, [(1, 2)])]⟩ = .ok q :=
    ⟨_, rfl⟩
  have hq : q.Reachable := .ofParts hparts
  have hnames : [7, 8].Perm [8, 7] := by decide
  have hrows : ∀ added ∈ [(7, [((1 : Nat), (2 : Amount)), (2, 1)]), (8, [(2, 1)])],
      ∀ added' ∈ [(8, [(2, 1)]), (7, [(1, 2), (2, 1)])],
        added.1 = added'.1 → added.2.Perm added'.2 := by decide
  obtain ⟨-, -, -, hhistory, -⟩ := hq.canonical hq
  obtain ⟨hlisting, -, -, -, hequal⟩ := hbuilt.reachable.canonical hq
  obtain ⟨heq, hsame, -⟩ := hequal _ _ _ _ hbuilt (hhistory _ hparts) {
    columns_perm := by decide
    target_eq := by decide
    name_iff := fun row => hnames.mem_iff
    listed_eq := fun added hadded added' hadded' hname column =>
      listed_perm (hrows added hadded added' hadded' hname) column }
  exact ⟨p, q, hbuilt, hparts, hsame, hlisting.mpr heq, hamount⟩

end Problem

end ExactCover
