import ExactCover.Codec
import ExactCover.Problem.Edit
import ExactCover.Proofs.SortedMap
import ExactCover.Table

namespace ExactCover

namespace Problem

variable {C R : Type} [Ord C]

/-- A cover names columns of the universe in ascending order, each with a positive amount. -/
structure CoverWellFormed (p : Problem C R) (cover : Cover C) : Prop where
  ascending : cover.Ascending
  mem_columns : ∀ x ∈ cover.entries, x.1 ∈ p.columns
  amount_ne_zero : ∀ x ∈ cover.entries, x.2 ≠ 0

theorem setTarget_eq_ok {p q : Problem C R} {column : C} {target : Amount}
    (h : p.setTarget column target = .ok q) :
    p.targets.contains column = true ∧ target ≠ 0 ∧
      q = { p with targets := p.targets.insert column target } := by
  unfold setTarget at h
  split at h
  · cases h
  · rename_i hcontains
    split at h
    · cases h
    · rename_i hzero
      cases h
      exact ⟨by simpa using hcontains, hzero, rfl⟩

/-- What an accepted entry tells, and what it does. -/
theorem extendCover_eq_ok {p : Problem C R} {row : R} {cover cover' : Cover C}
    {entry : C × Amount} (h : p.extendCover row cover entry = .ok cover') :
    p.targets.contains entry.1 = true ∧ entry.2 ≠ 0 ∧
      ((cover.get? entry.1).getD 0).toNat + entry.2.toNat < UInt32.size ∧
      cover' = cover.insert entry.1 ((cover.get? entry.1).getD 0 + entry.2) := by
  unfold extendCover at h
  dsimp only at h
  split at h
  · cases h
  · rename_i hcontains
    split at h
    · cases h
    · rename_i hzero
      split at h
      · rename_i hfits
        cases h
        exact ⟨by simpa using hcontains, hzero, hfits, rfl⟩
      · cases h

variable [Ord R]

/-- The problems that can be built. Reading link texts and tables leads to no others, and a refused
    edit changes nothing. -/
inductive Reachable : Problem C R → Prop where
  | ofColumns {columns : List C} {p : Problem C R} (h : ofColumns columns = .ok p) : Reachable p
  | ofParts {parts : Parts C R} {p : Problem C R} (h : ofParts parts = .ok p) : Reachable p
  | attempt {p : Problem C R} (e : Edit C R) (h : Reachable p) : Reachable (p.attempt e)

/-- Columns and rows are ascending, targets and amounts are positive and no row is empty. -/
structure WellFormed (p : Problem C R) : Prop where
  targets_ascending : p.targets.Ascending
  target_ne_zero : ∀ x ∈ p.targets.entries, x.2 ≠ 0
  rows_ascending : p.rows.Ascending
  cover_ne_nil : ∀ x ∈ p.rows.entries, x.2.entries ≠ []
  cover : ∀ x ∈ p.rows.entries, p.CoverWellFormed x.2

theorem amount_pos_iff {amount : Amount} : 0 < amount.toNat ↔ amount ≠ 0 :=
  UInt32.lt_iff_toNat_lt.symm.trans UInt32.pos_iff_ne_zero

theorem map_toNat_injective : Function.Injective (Option.map UInt32.toNat : Option Amount → _) :=
  Option.map_injective fun _ _ => UInt32.toNat_inj.mp

theorem bind_eq_ok_iff {ε α β : Type} {x : Except ε α} {f : α → Except ε β} {y : β} :
    x >>= f = .ok y ↔ ∃ a, x = .ok a ∧ f a = .ok y := by
  cases x <;> simp [bind, Except.bind]

/-- A fold that may fail keeps what each of its steps keeps. -/
theorem foldlM_keeps {ε α β : Type} {P : β → Prop} {f : β → α → Except ε β} {xs : List α}
    {start result : β} (hstart : P start) (hstep : ∀ b x b', P b → f b x = .ok b' → P b')
    (hrun : xs.foldlM f start = .ok result) : P result := by
  induction xs generalizing start with
  | nil =>
    cases hrun
    exact hstart
  | cons x xs ih =>
    rw [List.foldlM_cons, bind_eq_ok_iff] at hrun
    obtain ⟨next, hfirst, hrest⟩ := hrun
    exact ih (hstep start x next hstart hfirst) hrest

theorem addRow_eq_ok {p q : Problem C R} {row : R} {entries : List (C × Amount)}
    (h : p.addRow row entries = .ok q) :
    p.rows.contains row = false ∧ ∃ cover, entries.foldlM (p.extendCover row) ∅ = .ok cover ∧
      cover.entries ≠ [] ∧ q = { p with rows := p.rows.insert row cover } := by
  unfold addRow at h
  cases hcontains : p.rows.contains row with
  | true =>
    rw [hcontains] at h
    cases h
  | false =>
    rw [hcontains] at h
    cases hcover : entries.foldlM (p.extendCover row) ∅ with
    | error e =>
      rw [hcover] at h
      cases h
    | ok cover =>
      rw [hcover] at h
      cases hempty : cover.isEmpty with
      | true =>
        simp [hempty, bind, Except.bind, throw, throwThe, MonadExceptOf.throw] at h
      | false =>
        simp [hempty, bind, Except.bind, pure, Except.pure] at h
        exact ⟨rfl, cover, rfl, by simpa [SortedMap.isEmpty] using hempty, h.symm⟩

section

variable [Std.TransOrd C] [Std.LawfulEqOrd C]

theorem wellFormed_ofColumns {columns : List C} {p : Problem C R}
    (h : ofColumns columns = .ok p) : p.WellFormed := by
  unfold ofColumns at h
  dsimp only at h
  split at h
  · cases h
  · cases h
    refine ⟨(SortedMap.ascending_tally columns).mapValues _, ?_, SortedMap.ascending_empty, ?_, ?_⟩
    · intro x hx
      simp only [SortedMap.mapValues, List.mem_map] at hx
      obtain ⟨_, _, rfl⟩ := hx
      exact (by decide : (1 : Amount) ≠ 0)
    · intro x hx
      cases hx
    · intro x hx
      cases hx

theorem WellFormed.setTarget {p q : Problem C R} (hp : p.WellFormed) {column : C}
    {target : Amount} (h : p.setTarget column target = .ok q) : q.WellFormed := by
  obtain ⟨hcontains, hzero, rfl⟩ := setTarget_eq_ok h
  have hinsert {e : C × Amount} := SortedMap.mem_insert hp.targets_ascending (k := column)
    (v := target) (e := e)
  have hcolumns : ∀ c ∈ p.columns, c ∈ (p.targets.insert column target).keys := by
    intro c hc
    obtain ⟨v, hv⟩ := SortedMap.mem_keys_iff.mp hc
    rw [SortedMap.mem_keys_iff]
    by_cases heq : c = column
    · exact ⟨target, hinsert.mpr (.inl (by rw [heq]))⟩
    · exact ⟨v, hinsert.mpr (.inr ⟨hv, heq⟩)⟩
  refine ⟨hp.targets_ascending.insert column target, ?_, hp.rows_ascending, hp.cover_ne_nil, ?_⟩
  · intro x hx
    obtain rfl | ⟨hx, _⟩ := hinsert.mp hx
    · exact hzero
    · exact hp.target_ne_zero x hx
  · intro x hx
    obtain ⟨hascending, hmem, hpos⟩ := hp.cover x hx
    exact ⟨hascending, fun y hy => hcolumns y.1 (hmem y hy), hpos⟩

omit [Ord R] in
/-- An accepted entry keeps a cover in order. -/
theorem CoverWellFormed.extendCover {p : Problem C R} {row : R} {cover cover' : Cover C}
    {entry : C × Amount} (hp : p.targets.Ascending) (hcover : p.CoverWellFormed cover)
    (h : p.extendCover row cover entry = .ok cover') : p.CoverWellFormed cover' := by
  obtain ⟨hcontains, hzero, hfits, rfl⟩ := extendCover_eq_ok h
  refine ⟨hcover.ascending.insert _ _, ?_, ?_⟩
  · intro x hx
    obtain rfl | ⟨hx, _⟩ := (SortedMap.mem_insert hcover.ascending).mp hx
    · exact (SortedMap.contains_iff hp).mp hcontains
    · exact hcover.mem_columns x hx
  · intro x hx
    obtain rfl | ⟨hx, _⟩ := (SortedMap.mem_insert hcover.ascending).mp hx
    · intro hsum
      have hamount := amount_pos_iff.mpr hzero
      have hnat := congrArg UInt32.toNat hsum
      rw [UInt32.toNat_add, Nat.mod_eq_of_lt hfits] at hnat
      change _ = 0 at hnat
      omega
    · exact hcover.amount_ne_zero x hx

variable [Std.TransOrd R] [Std.LawfulEqOrd R]

theorem WellFormed.addRow {p q : Problem C R} (hp : p.WellFormed) {row : R}
    {entries : List (C × Amount)} (h : p.addRow row entries = .ok q) : q.WellFormed := by
  obtain ⟨_, cover, hfold, hne, rfl⟩ := addRow_eq_ok h
  have hcover : p.CoverWellFormed cover :=
    foldlM_keeps ⟨SortedMap.ascending_empty, by simp [EmptyCollection.emptyCollection,
      SortedMap.empty], by simp [EmptyCollection.emptyCollection, SortedMap.empty]⟩
      (fun _ _ _ hcover h => hcover.extendCover hp.targets_ascending h) hfold
  refine ⟨hp.targets_ascending, hp.target_ne_zero, hp.rows_ascending.insert row cover, ?_, ?_⟩
  · intro x hx
    obtain rfl | ⟨hx, _⟩ := (SortedMap.mem_insert hp.rows_ascending).mp hx
    · exact hne
    · exact hp.cover_ne_nil x hx
  · intro x hx
    obtain rfl | ⟨hx, _⟩ := (SortedMap.mem_insert hp.rows_ascending).mp hx
    · exact ⟨hcover.ascending, hcover.mem_columns, hcover.amount_ne_zero⟩
    · obtain ⟨hascending, hmem, hpos⟩ := hp.cover x hx
      exact ⟨hascending, hmem, hpos⟩

/-- An accepted edit leads to a problem in order. -/
theorem WellFormed.edit {p q : Problem C R} (hp : p.WellFormed) {e : Edit C R}
    (h : p.edit e = .ok q) : q.WellFormed := by
  cases e with
  | setTarget column target => exact hp.setTarget h
  | addRow row entries => exact hp.addRow h
  | addUnitRow row columns => exact hp.addRow h

/-- Parts lead to a problem in order. -/
theorem wellFormed_ofParts {parts : Parts C R} {p : Problem C R} (h : ofParts parts = .ok p) :
    p.WellFormed := by
  unfold ofParts at h
  obtain ⟨blank, hblank, h⟩ := bind_eq_ok_iff.mp h
  obtain ⟨withTargets, htargets, h⟩ := bind_eq_ok_iff.mp h
  have hmiddle : withTargets.WellFormed :=
    foldlM_keeps (wellFormed_ofColumns hblank) (fun _ _ _ hp h => hp.setTarget h) htargets
  exact foldlM_keeps hmiddle (fun _ _ _ hp h => hp.addRow h) h

/-- Everything that can be built is well-formed. -/
theorem Reachable.wellFormed {p : Problem C R} (h : p.Reachable) : p.WellFormed := by
  induction h with
  | ofColumns h => exact wellFormed_ofColumns h
  | ofParts h => exact wellFormed_ofParts h
  | @attempt p e _ ih =>
    unfold Problem.attempt
    cases hedit : p.edit e with
    | ok q => exact ih.edit hedit
    | error cause => exact ih

end

/-- An edit that is accepted leads on to a problem that can be built. -/
theorem Reachable.edit {p q : Problem C R} (hp : p.Reachable) {e : Edit C R}
    (h : p.edit e = .ok q) : q.Reachable := by
  have hattempt : p.attempt e = q := by rw [Problem.attempt, h]
  rw [← hattempt]
  exact hp.attempt e

namespace InPlace

variable {C R : Type} [Ord C] [Ord R] (p : Problem C R)

/-- A target that is refused is not written. -/
theorem run_setTarget (column : C) (target : Amount) :
    (setTarget column target).run p = match p.setTarget column target with
      | .ok q => .ok () q
      | .error cause => .error cause p := by
  rw [Problem.setTarget]
  cases hcolumn : p.targets.contains column with
  | false => simp [setTarget, hcolumn]
  | true => by_cases hzero : target = 0 <;> simp [setTarget, hcolumn, hzero]

/-- Summing up an entry of a row reads the problem and does not write it. -/
theorem run_extendCover (row : R) (cover : Cover C) (entry : C × Amount) :
    (extendCover row cover entry).run p = match p.extendCover row cover entry with
      | .ok cover => .ok cover p
      | .error cause => .error cause p := by
  obtain ⟨column, amount⟩ := entry
  rw [Problem.extendCover]
  dsimp only
  cases hcolumn : p.targets.contains column with
  | false => simp [extendCover, hcolumn]
  | true =>
    by_cases hzero : amount = 0
    · simp [extendCover, hcolumn, hzero]
    · obtain hfits | hover :=
        Nat.lt_or_ge (((cover.get? column).getD 0).toNat + amount.toNat) UInt32.size
      · simp [extendCover, hcolumn, hzero, hfits, Nat.not_le.mpr hfits]
      · simp [extendCover, hcolumn, hzero, hover, Nat.not_lt.mpr hover, -bind_pure_comp]

/-- The entries of a row are summed up beside the problem, which is not written yet. -/
theorem run_extendAll (row : R) (cover : Cover C) (entries : List (C × Amount)) :
    (entries.foldlM (extendCover row) cover).run p =
      match entries.foldlM (p.extendCover row) cover with
      | .ok cover => .ok cover p
      | .error cause => .error cause p := by
  induction entries generalizing cover with
  | nil => rfl
  | cons entry entries ih =>
    rw [List.foldlM_cons, List.foldlM_cons, EStateM.run_bind, run_extendCover]
    cases p.extendCover row cover entry with
    | ok cover => exact ih cover
    | error cause => rfl

/-- A row that is refused is not written, whichever of its entries is at fault. -/
theorem run_addRow (row : R) (entries : List (C × Amount)) :
    (addRow row entries).run p = match p.addRow row entries with
      | .ok q => .ok () q
      | .error cause => .error cause p := by
  have hcover := run_extendAll p row ∅ entries
  cases hrow : p.rows.contains row with
  | true =>
    have hadd : p.addRow row entries = .error (.duplicateRow row) := by
      rw [Problem.addRow, hrow]
      rfl
    simp [addRow, hrow, hadd]
  | false =>
    cases hentries : entries.foldlM (p.extendCover row) ∅ with
    | error cause =>
      have hadd : p.addRow row entries = .error cause := by
        rw [Problem.addRow, hrow, hentries]
        rfl
      simp [addRow, hrow, hcover, hentries, hadd]
    | ok cover =>
      cases hempty : cover.isEmpty with
      | true =>
        have hadd : p.addRow row entries = .error (.emptyRow row) := by
          rw [Problem.addRow, hrow, hentries]
          exact if_pos hempty
        simp [addRow, hrow, hcover, hentries, hempty, hadd]
      | false =>
        have hadd : p.addRow row entries = .ok { p with rows := p.rows.insert row cover } := by
          rw [Problem.addRow, hrow, hentries]
          exact if_neg (Bool.eq_false_iff.mp hempty)
        simp [addRow, hrow, hcover, hentries, hempty, hadd]

/-- An edit in place leads to the problem that `Problem.edit` tells, or fails with the same error
    and leaves the problem as it was. -/
theorem run_edit (e : Edit C R) :
    (edit e).run p = match p.edit e with
      | .ok q => .ok () q
      | .error cause => .error cause p := by
  cases e with
  | setTarget column target => exact run_setTarget p column target
  | addRow row entries => exact run_addRow p row entries
  | addUnitRow row columns => exact run_addRow p row _

/-- Made in place an edit leads to the problem after an attempt at it. In particular a refused edit,
    which may have summed up some entries of a row already, leaves the problem as it was. -/
theorem after_edit (e : Edit C R) : (edit e).after p = p.attempt e := by
  rw [after, run_edit, attempt]
  cases p.edit e <;> rfl

end InPlace

end Problem

/-- A link text that can be read gives a problem that can be built. -/
theorem Codec.reachable_of_decode {C R : Type} [Ord C] [Ord R] [Json.Coded C] [Json.Coded R]
    {text : String} {p : Problem C R} (h : decode text = .ok p) : p.Reachable := by
  obtain ⟨bytes, _, h⟩ := Problem.bind_eq_ok_iff.mp h
  obtain ⟨parts, _, h⟩ := Problem.bind_eq_ok_iff.mp h
  cases hparts : (Problem.ofParts parts : Except (Problem.Error C R) (Problem C R)) with
  | error e =>
    rw [hparts] at h
    cases h
  | ok q =>
    rw [hparts] at h
    cases h
    exact .ofParts hparts

namespace Table

theorem reachable_of_readTargets {headings : List Heading} {p q : Problem String String}
    (hp : p.Reachable) (h : readTargets headings p = .ok q) : q.Reachable := by
  refine Problem.foldlM_keeps hp (fun p heading q hp h => ?_) h
  cases htarget : heading.target with
  | none =>
    rw [htarget] at h
    cases h
    exact hp
  | some cell =>
    rw [htarget] at h
    exact hp.edit (e := .setTarget heading.name (count cell)) h

theorem reachable_of_readRows {headings : List Heading}
    {rows : List (String × List (Option String))} {p q : Problem String String}
    (hp : p.Reachable) (h : (readRows headings p rows).problem = .ok q) : q.Reachable := by
  induction rows generalizing p with
  | nil =>
    cases h
    exact hp
  | cons row rows ih =>
    rw [readRows] at h
    split at h
    · exact ih hp h
    · split at h
      · rename_i hrow
        exact ih (hp.edit (e := .addRow _ _) hrow) h
      · cases h

/-- A table that can be read gives a problem that can be built. -/
theorem reachable_of_toProblem {t : Table} {p : Problem String String}
    (h : t.toProblem = .ok p) : p.Reachable := by
  unfold toProblem read at h
  split at h
  · rename_i hread
    obtain ⟨blank, hblank, htargets⟩ := Problem.bind_eq_ok_iff.mp hread
    exact reachable_of_readRows (reachable_of_readTargets (.ofColumns hblank) htargets) h
  · cases h

end Table

end ExactCover
