import ExactCover.Proofs.Search.Moves
import Mathlib.Data.Fintype.Card

namespace ExactCover

variable {g : Grid} {o o' : Outline g} {notes : List (Note (Fin g.columns) (Fin g.rows))}

/-- The counters agree with the place at which a search stands. -/
structure Outline.Counted (o : Outline g) : Prop where
  /-- A selection that fits waits for its node to be entered. -/
  nodes : o.statistics.nodes + o.statistics.overshoots + (if o.phase = .choose then 1 else 0) =
    o.statistics.selections + 1
  depth_le : (selectedAt o.frames).length ≤ o.statistics.maxDepth
  maxDepth_le : o.statistics.maxDepth ≤ g.rows

theorem Outline.counted_start (g : Grid) : (start g).Counted := ⟨rfl, Nat.le_refl 0, Nat.zero_le _⟩

theorem Path.length_selected_le (hg : g.WellFormed) {frames : List (Frame g)} (h : Path frames) :
    (selectedAt frames).length ≤ g.rows := by
  have hlength := (h.selected_nodup hg).length_le_card
  rwa [Fintype.card_fin] at hlength

theorem Move.counted (hg : g.WellFormed) (h : Move o notes o') (ho : o.Valid) (hc : o.Counted) :
    o'.Counted := by
  obtain ⟨hnodes, hdepth, hmax⟩ := hc
  cases h with
  | enter hbest =>
    refine ⟨?_, hdepth, hmax⟩
    simp only [if_pos, reduceCtorEq, if_false] at hnodes ⊢
    omega
  | find hbest =>
    refine ⟨?_, hdepth, hmax⟩
    simp only [if_pos, reduceCtorEq, if_false] at hnodes ⊢
    omega
  | pick hrows hfits =>
    have hlength := (ho.path.pick hrows).length_selected_le hg
    refine ⟨?_, Nat.le_max_right _ _, Nat.max_le.mpr ⟨hmax, hlength⟩⟩
    simp only [Statistics.addSelection, if_pos, reduceCtorEq, if_false] at hnodes ⊢
    omega
  | overshoot hrows hfits =>
    have hlength := (ho.path.pick hrows).length_selected_le hg
    refine ⟨?_, Nat.le_max_right _ _, Nat.max_le.mpr ⟨hmax, hlength⟩⟩
    simp only [Statistics.addSelection, reduceCtorEq, if_false] at hnodes ⊢
    omega
  | drop => exact ⟨hnodes, (Nat.le_succ _).trans hdepth, hmax⟩
  | leave hrows => exact ⟨hnodes, hdepth, hmax⟩
  | finish => exact ⟨hnodes, hdepth, hmax⟩

theorem Moves.counted (hg : g.WellFormed) (h : Moves o notes o') (ho : o.Valid) (hc : o.Counted) :
    o'.Counted := by
  induction h with
  | refl => exact hc
  | tail hmoves hlast ih => exact hlast.counted hg (hmoves.valid ho) ih

end ExactCover
