import ExactCover.Proofs.Text
import ExactCover.Table
import Mathlib.Data.List.Induction
import Mathlib.Data.Nat.Digits.Defs

namespace ExactCover

namespace Decimal

theorem toNat_digitChar : ∀ d < 10, (digitChar d).toNat = '0'.toNat + d := by decide

/-- A character stands for a digit if it is the character of that digit. -/
theorem digit?_eq_some_iff {c : Char} {d : Nat} : digit? c = some d ↔ d < 10 ∧ c = digitChar d := by
  have hbounds : ('0' ≤ c ∧ c ≤ '9') ↔ 48 ≤ c.toNat ∧ c.toNat ≤ 57 := Iff.rfl
  have hzero : '0'.toNat = 48 := rfl
  rw [digit?]
  constructor
  · intro h
    split at h
    · rename_i hrange
      rw [hbounds] at hrange
      obtain rfl := Option.some.inj h
      refine ⟨by omega, Char.toNat_inj.mp ?_⟩
      rw [toNat_digitChar _ (by omega)]
      omega
    · cases h
  · rintro ⟨hd, rfl⟩
    have hnat := toNat_digitChar d hd
    rw [if_pos (hbounds.mpr (by omega)), hnat, Nat.add_sub_cancel_left]

theorem mapM_digit?_eq_some_iff {cs : List Char} {ds : List Nat} :
    cs.mapM digit? = some ds ↔ (∀ d ∈ ds, d < 10) ∧ cs = ds.map digitChar := by
  induction cs generalizing ds with
  | nil => cases ds <;> simp
  | cons c cs ih =>
    simp only [List.mapM_cons, Option.bind_eq_bind, Option.bind_eq_some_iff, Option.pure_def,
      Option.some.injEq, digit?_eq_some_iff, ih]
    constructor
    · rintro ⟨d, ⟨hd, rfl⟩, ds, ⟨hds, rfl⟩, rfl⟩
      exact ⟨List.forall_mem_cons.mpr ⟨hd, hds⟩, rfl⟩
    · rintro ⟨hds, hcs⟩
      cases ds with
      | nil => cases hcs
      | cons d ds =>
        obtain ⟨rfl, rfl⟩ := List.cons.inj hcs
        obtain ⟨hd, hds⟩ := List.forall_mem_cons.mp hds
        exact ⟨d, ⟨hd, rfl⟩, ds, ⟨hds, rfl⟩, rfl⟩

/-- The value of digits is that of their numeral in base ten. -/
theorem value_eq_ofDigits (ds : List Nat) : value ds = Nat.ofDigits 10 ds.reverse := by
  induction ds using List.reverseRecOn with
  | nil => rfl
  | append_singleton ds d ih =>
    rw [List.reverse_append, List.reverse_singleton, List.singleton_append, Nat.ofDigits_cons, ← ih,
      value, List.foldl_append]
    exact Nat.add_comm _ _

end Decimal

namespace Table

/-- Whether a cell holds a numeral of a value: digits, perhaps behind one plus sign, between white
    space. -/
def Denotes (cell : String) (value : Nat) : Prop :=
  ∃ (before sign : List Char) (ds : List Nat) (after : List Char),
    cell.toList = before ++ (sign ++ ds.map Decimal.digitChar) ++ after ∧
    (∀ c ∈ before, Text.isBlank c = true) ∧ (∀ c ∈ after, Text.isBlank c = true) ∧
    (sign = [] ∨ sign = ['+']) ∧ ds ≠ [] ∧ (∀ d ∈ ds, d < 10) ∧
    value = Nat.ofDigits 10 ds.reverse

theorem isBlank_digitChar : ∀ d < 10, Text.isBlank (Decimal.digitChar d) = false := by decide

theorem digitChar_ne_plus : ∀ d < 10, Decimal.digitChar d ≠ '+' := by decide

/-- Digits without a sign. -/
theorem unsigned_eq_some_iff {cs : List Char} {value : Nat} :
    (if cs.isEmpty then none else (cs.mapM Decimal.digit?).map Decimal.value) = some value ↔
      ∃ ds, cs = ds.map Decimal.digitChar ∧ ds ≠ [] ∧ (∀ d ∈ ds, d < 10) ∧
        value = Nat.ofDigits 10 ds.reverse := by
  cases cs with
  | nil => simp
  | cons c cs =>
    simp only [List.isEmpty_cons, Bool.false_eq_true, if_false, Option.map_eq_some_iff,
      Decimal.mapM_digit?_eq_some_iff, Decimal.value_eq_ofDigits]
    constructor
    · rintro ⟨ds, ⟨hds, hcs⟩, rfl⟩
      refine ⟨ds, hcs, ?_, hds, rfl⟩
      rintro rfl
      cases hcs
    · rintro ⟨ds, hcs, -, hds, rfl⟩
      exact ⟨ds, ⟨hds, hcs⟩, rfl⟩

/-- A numeral has digits only, with at most one plus sign in front of them. -/
theorem numeral?_eq_some_iff {cs : List Char} {value : Nat} :
    numeral? cs = some value ↔ ∃ sign ds, cs = sign ++ ds.map Decimal.digitChar ∧
      (sign = [] ∨ sign = ['+']) ∧ ds ≠ [] ∧ (∀ d ∈ ds, d < 10) ∧
      value = Nat.ofDigits 10 ds.reverse := by
  unfold numeral?
  dsimp only
  split
  · rename_i rest
    rw [unsigned_eq_some_iff]
    constructor
    · rintro ⟨ds, rfl, hds⟩
      exact ⟨['+'], ds, rfl, .inr rfl, hds⟩
    · rintro ⟨sign, ds, hcs, rfl | rfl, hne, hdigits, hvalue⟩
      · -- A digit is no plus sign.
        obtain ⟨d, ds, rfl⟩ := List.exists_cons_of_ne_nil hne
        have hplus : '+' = Decimal.digitChar d := (List.cons.inj hcs).1
        exact absurd hplus.symm (digitChar_ne_plus d (hdigits d List.mem_cons_self))
      · exact ⟨ds, (List.cons.inj hcs).2, hne, hdigits, hvalue⟩
  · rename_i hplus
    rw [unsigned_eq_some_iff]
    constructor
    · rintro ⟨ds, rfl, hds⟩
      exact ⟨[], ds, rfl, .inl rfl, hds⟩
    · rintro ⟨sign, ds, rfl, rfl | rfl, hds⟩
      · exact ⟨ds, rfl, hds⟩
      · exact absurd rfl (hplus _)

/-- What is read in a cell is the numeral that it holds. -/
theorem numeral?_trim {cell : String} {value : Nat} :
    numeral? (Text.trim cell).toList = some value ↔ Denotes cell value := by
  rw [Text.trim, String.toList_ofList, numeral?_eq_some_iff]
  constructor
  · rintro ⟨sign, ds, htrimmed, hds⟩
    obtain ⟨before, after, hcell, hbefore, hafter⟩ := Text.exists_trimmed cell.toList
    exact ⟨before, sign, ds, after, htrimmed ▸ hcell, hbefore, hafter, hds⟩
  · rintro ⟨before, sign, ds, after, hcell, hbefore, hafter, hsign, hne, hdigits, hvalue⟩
    refine ⟨sign, ds, ?_, hsign, hne, hdigits, hvalue⟩
    rw [hcell]
    refine Text.trimmed_append hbefore hafter fun c hc => ?_
    obtain hc | hc := List.mem_append.mp hc
    · obtain rfl | rfl := hsign
      · cases hc
      · obtain rfl := List.mem_singleton.mp hc
        rfl
    · obtain ⟨d, hd, rfl⟩ := List.mem_map.mp hc
      exact isBlank_digitChar d (hdigits d hd)

/-- A numeral of a positive number below `2 ^ 32` counts as that number. -/
theorem toNat_count_of_denotes {cell : String} {value : Nat} (h : Denotes cell value)
    (hpos : 1 ≤ value) (hle : value ≤ 2 ^ 32 - 1) : (count cell).toNat = value := by
  have hlt : value < UInt32.size := by
    have hsize : UInt32.size = 2 ^ 32 := rfl
    omega
  simp only [count, numeral?_trim.mpr h]
  rw [if_pos ⟨hpos, hlt⟩]
  exact UInt32.toNat_ofNat_of_lt' hlt

/-- Any other text counts as 1. -/
theorem count_of_not_denotes {cell : String}
    (h : ∀ value, 1 ≤ value → value ≤ 2 ^ 32 - 1 → ¬ Denotes cell value) : count cell = 1 := by
  unfold count
  split
  · rename_i value hvalue
    rw [if_neg]
    rintro ⟨hpos, hlt⟩
    have hsize : UInt32.size = 2 ^ 32 := rfl
    exact h value hpos (by omega) (numeral?_trim.mp hvalue)
  · rfl

/-- What a cell counts as: the positive number below `2 ^ 32` whose numeral it holds, or 1 if it
    holds no such numeral. -/
def CountsAs (cell : String) (value : Nat) : Prop :=
  (Denotes cell value ∧ 1 ≤ value ∧ value ≤ 2 ^ 32 - 1) ∨
    (value = 1 ∧ ∀ n, 1 ≤ n → n ≤ 2 ^ 32 - 1 → ¬ Denotes cell n)

/-- What a cell counts as is what its text says. -/
theorem countsAs_count (cell : String) : CountsAs cell (count cell).toNat := by
  by_cases h : ∃ n, 1 ≤ n ∧ n ≤ 2 ^ 32 - 1 ∧ Denotes cell n
  · obtain ⟨n, hpos, hle, hdenotes⟩ := h
    rw [toNat_count_of_denotes hdenotes hpos hle]
    exact .inl ⟨hdenotes, hpos, hle⟩
  · have hnone : ∀ n, 1 ≤ n → n ≤ 2 ^ 32 - 1 → ¬ Denotes cell n := fun n hpos hle hdenotes =>
      h ⟨n, hpos, hle, hdenotes⟩
    rw [count_of_not_denotes hnone]
    exact .inr ⟨rfl, hnone⟩

theorem count_pos (cell : String) : 0 < (count cell).toNat := by
  obtain ⟨-, hpos, -⟩ | ⟨hone, -⟩ := countsAs_count cell
  · exact hpos
  · rw [hone]
    exact Nat.one_pos

end Table

end ExactCover
