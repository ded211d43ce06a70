import ExactCover.Proofs.Search.Operations

namespace ExactCover.Search

variable {g : Grid} {σ : Type} (L : Listener (Fin g.columns) (Fin g.rows) σ)

@[simp]
theorem frames_select (s : Search g σ) (row : Fin g.rows) :
    (s.select L row).frames = s.frames := by
  obtain ⟨events, hselected⟩ := s.exists_moved_select (L := L) row
  rw [hselected]
  rfl

@[simp]
theorem frames_leave (s : Search g σ) (frame : Frame g) (outer : List (Frame g)) :
    (s.leave L frame outer).frames = outer := by
  obtain ⟨events, hleft⟩ := s.exists_moved_leave (L := L) frame outer
  rw [hleft]
  rfl

theorem frames_proceed (s : Search g σ) (frame : Frame g) (outer : List (Frame g))
    (row : Option (Fin g.rows)) :
    (∃ frame', (s.proceed L frame outer row).frames = frame' :: outer) ∨
      (s.proceed L frame outer row).frames = outer := by
  cases row with
  | none => exact .inr (s.frames_leave L frame outer)
  | some row =>
    refine .inl ⟨{ frame with current := some row }, ?_⟩
    rw [proceed, tryRow]
    split <;> exact frames_select L _ row

/-- How the open levels change in a step. -/
theorem frames_step (s : Search g σ) :
    (s.phase = .choose ∧ ∃ column, (s.step L).2.frames = ⟨column, none, []⟩ :: s.frames) ∨
      (s.step L).2.frames = s.frames ∨
      ∃ frame outer, s.frames = frame :: outer ∧
        ((∃ frame', (s.step L).2.frames = frame' :: outer) ∨ (s.step L).2.frames = outer) := by
  rw [step]
  cases hphase : s.phase with
  | exhausted => exact .inr (.inl rfl)
  | choose =>
    dsimp only [choose]
    split
    · exact .inl ⟨rfl, _, rfl⟩
    · exact .inr (.inl rfl)
  | advance =>
    dsimp only [advance]
    split
    · exact .inr (.inl rfl)
    · rename_i frame outer hframes
      refine .inr (.inr ⟨frame, outer, hframes, ?_⟩)
      split
      · exact frames_proceed L s frame outer _
      · exact frames_proceed L _ _ outer _

/-- A level that is open after a step was entered in it, or it was open before. -/
theorem suffix_of_suffix_step {s : Search g σ} {frame : Frame g} {outer : List (Frame g)}
    (h : frame :: outer <:+ (s.step L).2.frames) :
    (s.phase = .choose ∧ s.frames = outer ∧
        ∃ column, (s.step L).2.frames = ⟨column, none, []⟩ :: s.frames) ∨
      ∃ frame', frame' :: outer <:+ s.frames := by
  obtain ⟨hphase, column, hframes⟩ | hframes | ⟨last, rest, hold, ⟨last', hframes⟩ | hframes⟩ :=
    s.frames_step L
  · have hsuffix := h
    rw [hframes] at hsuffix
    obtain heq | hsuffix := List.suffix_cons_iff.mp hsuffix
    · exact .inl ⟨hphase, (List.cons.inj heq).2.symm, column, hframes⟩
    · exact .inr ⟨frame, hsuffix⟩
  · rw [hframes] at h
    exact .inr ⟨frame, h⟩
  · rw [hframes] at h
    rw [hold]
    obtain heq | hsuffix := List.suffix_cons_iff.mp h
    · obtain ⟨-, rfl⟩ := List.cons.inj heq
      exact .inr ⟨last, List.suffix_refl _⟩
    · exact .inr ⟨frame, hsuffix.trans (List.suffix_cons _ _)⟩
  · rw [hframes] at h
    rw [hold]
    exact .inr ⟨frame, h.trans (List.suffix_cons _ _)⟩

/-- A step that leaves fewer levels open leaves the deepest one. -/
theorem frames_eq_of_leaves {s : Search g σ}
    (h : (s.step L).2.frames.length < s.frames.length) :
    ∃ frame, s.frames = frame :: (s.step L).2.frames := by
  obtain ⟨-, column, hframes⟩ | hframes | ⟨last, rest, hold, ⟨last', hframes⟩ | hframes⟩ :=
    s.frames_step L
  · rw [hframes, List.length_cons] at h
    omega
  · rw [hframes] at h
    omega
  · rw [hframes, hold, List.length_cons, List.length_cons] at h
    omega
  · exact ⟨last, by rw [hold, hframes]⟩

/-- The search after some steps. -/
def after (s : Search g σ) : Nat → Search g σ
  | 0 => s
  | n + 1 => ((s.after n).step L).2

theorem after_step (s : Search g σ) (n : Nat) : (s.step L).2.after L n = s.after L (n + 1) := by
  induction n with
  | zero => rfl
  | succ n ih =>
    rw [after, ih]
    rfl

theorem after_after (s : Search g σ) (m n : Nat) : (s.after L m).after L n = s.after L (m + n) := by
  induction n with
  | zero => rfl
  | succ n ih =>
    rw [after, ih]
    rfl

/-- Looking for the next solution is some number of steps. -/
theorem nextWithin_eq_after (s : Search g σ) (limit : Nat) :
    ∃ n, (s.nextWithin L limit).2 = s.after L n := by
  induction limit generalizing s with
  | zero => exact ⟨0, rfl⟩
  | succ limit ih =>
    rw [nextWithin]
    by_cases hover : s.isExhausted = true
    · rw [if_pos hover]
      exact ⟨0, rfl⟩
    · rw [if_neg hover]
      rcases hstep : s.step L with ⟨found, t⟩
      have ht : t = (s.step L).2 := by rw [hstep]
      cases found with
      | some rows => exact ⟨1, ht⟩
      | none =>
        obtain ⟨n, hn⟩ := ih t
        refine ⟨n + 1, ?_⟩
        rw [← after_step, ← ht]
        exact hn

/-- In a search that starts without open levels, every level that is open was entered in an earlier
    step and has been open since. The induction is on the steps: each of them keeps all levels but
    the deepest one. -/
theorem entered_of_suffix {s : Search g σ} (hs : s.frames = []) (n : Nat) {frame : Frame g}
    {outer : List (Frame g)} (h : frame :: outer <:+ (s.after L n).frames) :
    ∃ m < n, (s.after L m).phase = .choose ∧ (s.after L m).frames = outer ∧
      (∃ column, (s.after L (m + 1)).frames = ⟨column, none, []⟩ :: outer) ∧
      ∀ k, m < k → k ≤ n → outer.length < (s.after L k).frames.length := by
  induction n generalizing frame with
  | zero =>
    rw [after, hs, List.suffix_nil] at h
    cases h
  | succ n ih =>
    have hopen : outer.length < (s.after L (n + 1)).frames.length := by
      have hlength := h.length_le
      rw [List.length_cons] at hlength
      omega
    obtain ⟨hphase, houter, column, hframes⟩ | ⟨frame', hsuffix⟩ := suffix_of_suffix_step L h
    · refine ⟨n, Nat.lt_succ_self n, hphase, houter, ⟨column, ?_⟩, fun k hlo hhi => ?_⟩
      · rw [after, hframes, houter]
      · obtain rfl : k = n + 1 := by omega
        exact hopen
    · obtain ⟨m, hm, hphase, houter, hentered, hsince⟩ := ih hsuffix
      refine ⟨m, by omega, hphase, houter, hentered, fun k hlo hhi => ?_⟩
      obtain hk | rfl : k ≤ n ∨ k = n + 1 := by omega
      · exact hsince k hlo hk
      · exact hopen

end ExactCover.Search
