import ExactCover.Json.Coded
import ExactCover.Proofs.Json.Grammar
import ExactCover.Proofs.Text

namespace ExactCover

namespace Decimal

theorem digits_of_lt {n : Nat} (h : n < 10) : digits n = [n] := by
  rw [digits, if_pos h]

theorem digits_of_ge {n : Nat} (h : ¬ n < 10) : digits n = digits (n / 10) ++ [n % 10] := by
  rw [digits, if_neg h]

theorem digits_ne_nil (n : Nat) : digits n ≠ [] := by
  rw [digits]
  split <;> simp

theorem digits_lt (n : Nat) : ∀ d ∈ digits n, d < 10 := by
  induction n using digits.induct with
  | case1 n h => simpa [digits_of_lt h] using h
  | case2 n h ih =>
    rw [digits_of_ge h]
    intro d hd
    obtain hd | hd := List.mem_append.mp hd
    · exact ih d hd
    · obtain rfl := List.mem_singleton.mp hd
      exact Nat.mod_lt n (by decide)

/-- The digits of a number stand for it. -/
theorem value_digits (n : Nat) : value (digits n) = n := by
  induction n using digits.induct with
  | case1 n h => simp [digits_of_lt h, value]
  | case2 n h ih =>
    rw [digits_of_ge h, value, List.foldl_append]
    change 10 * value (digits (n / 10)) + n % 10 = n
    rw [ih, Nat.div_add_mod]

/-- Only zero begins with the digit zero. -/
theorem eq_zero_of_head?_digits {n : Nat} (h : (digits n).head? = some 0) : n = 0 := by
  induction n using digits.induct with
  | case1 n hn => simpa [digits_of_lt hn] using h
  | case2 n hn ih =>
    obtain ⟨d, ds, hdigits⟩ := List.exists_cons_of_ne_nil (digits_ne_nil (n / 10))
    rw [digits_of_ge hn, hdigits] at h
    rw [hdigits] at ih
    have hzero := ih h
    omega

end Decimal

namespace Json

variable {bs rest : Bytes}

theorem toNat_digitChar_lt : ∀ d < 10, (Decimal.digitChar d).toNat < 128 := by decide

theorem digitValue_digitByte : ∀ d < 10, digitValue (digitByte d) = d := by decide

theorem ofString_ofNat (n : Nat) :
    Bytes.ofString (Decimal.ofNat n) = (Decimal.digits n).map digitByte := by
  rw [Decimal.ofNat, Bytes.ofString_of_forall_lt, List.map_map]
  · rfl
  · rw [List.forall_mem_map]
    exact fun d hd => toNat_digitChar_lt d (Decimal.digits_lt n d hd)

section Numeral

variable {ds : List Nat}

/-- Digits are read up to the first byte that is none. -/
theorem RendersDigits.digitsOne (h : RendersDigits ds bs)
    (hrest : ∀ b ∈ rest.head?, isDigit b = false) :
    Numeral.digitsOne (bs ++ rest) = .ok (ds, rest) := by
  obtain ⟨hne, hlt⟩ := h
  have hdigits : ∀ b ∈ ds.map digitByte, isDigit b = true := by
    rw [List.forall_mem_map]
    exact fun d hd => isDigit_digitByte d (hlt d hd)
  have hstop : rest.takeWhile isDigit = [] ∧ rest.dropWhile isDigit = rest := by
    cases rest with
    | nil => exact ⟨rfl, rfl⟩
    | cons b bs =>
      have hb := hrest b rfl
      simp [hb]
  have hvalues : (ds.map digitByte).map digitValue = ds := by
    rw [List.map_map]
    refine Eq.trans (List.map_congr_left fun d hd => ?_) (List.map_id ds)
    exact digitValue_digitByte d (hlt d hd)
  obtain ⟨d, ds', hcons⟩ := List.exists_cons_of_ne_nil hne
  rw [Numeral.digitsOne, Numeral.digits, List.takeWhile_append_of_pos hdigits,
    List.dropWhile_append_of_pos hdigits, hstop.1, hstop.2, List.append_nil, hvalues, hcons]

/-- The digits in front of the point are read, unless there is a zero too many. -/
theorem RendersDigits.readWhole (h : RendersDigits ds bs) (hzero : ds.head? = some 0 → ds = [0])
    (hrest : ∀ b ∈ rest.head?, isDigit b = false) :
    Numeral.readWhole (bs ++ rest) = .ok (ds, rest) := by
  rw [Numeral.readWhole, h.digitsOne hrest]
  simp only [bind, Except.bind]
  split
  · simp at hzero
  · rfl

/-- The digits behind the point are read, if there is a point. -/
theorem RendersFraction.readFraction (h : RendersFraction ds bs)
    (hrest : ∀ b ∈ rest.head?, isDigit b = false ∧ b ≠ ascii '.') :
    Numeral.readFraction (bs ++ rest) = .ok (ds, rest) := by
  cases h with
  | none =>
    cases rest with
    | nil => rfl
    | cons b bs => rw [List.nil_append, Numeral.readFraction, if_neg (hrest b rfl).2]
  | some h =>
    rw [List.cons_append, Numeral.readFraction, if_pos rfl, h.digitsOne fun b hb => (hrest b hb).1]

/-- A sign is read in front of digits, and none where there is none. -/
theorem RendersSign.readSign {negative : Bool} (h : RendersSign negative bs)
    (hdigits : ∃ b bs', rest = b :: bs' ∧ isDigit b = true) :
    Numeral.readSign (bs ++ rest) = (negative, rest) := by
  cases h with
  | none =>
    obtain ⟨b, rest, rfl, hdigit⟩ := hdigits
    have hne (sign : UInt8) (hsign : isDigit sign = false) : b ≠ sign := by
      rintro rfl
      rw [hdigit] at hsign
      cases hsign
    rw [List.nil_append, Numeral.readSign, if_neg (hne _ (by decide)), if_neg (hne _ (by decide))]
  | plus => rfl
  | minus => rfl

/-- A power of ten is read in all its spellings. -/
theorem RendersPower.readPower {power : Option (Bool × List Nat)} (h : RendersPower power bs)
    (hrest : ∀ b ∈ rest.head?, isDigit b = false ∧ b ≠ ascii 'e' ∧ b ≠ ascii 'E') :
    Numeral.readPower (bs ++ rest) = .ok (power, rest) := by
  cases h with
  | none =>
    cases rest with
    | nil => rfl
    | cons b bs =>
      obtain ⟨-, hlower, hupper⟩ := hrest b rfl
      rw [List.nil_append, Numeral.readPower, if_neg (by simp [hlower, hupper])]
  | some hletter hsign h =>
    rw [List.cons_append, Numeral.readPower, if_pos hletter, List.append_assoc,
      hsign.readSign (h.exists_eq_cons rest)]
    simp only [h.digitsOne fun b hb => (hrest b hb).1, bind, Except.bind, pure, Except.pure]

/-- Behind the digits of a number stands no other digit, and behind those of a fraction no point. -/
theorem RendersPower.stops {power : Option (Bool × List Nat)} (h : RendersPower power bs)
    (hrest : Ends rest) : ∀ b ∈ (bs ++ rest).head?, isDigit b = false ∧ b ≠ ascii '.' := by
  cases h with
  | none => exact fun b hb => ⟨(hrest.not_numeral b hb).1, (hrest.not_numeral b hb).2.1⟩
  | some hletter _ _ =>
    rintro b hb
    obtain rfl := Option.some.inj hb
    obtain rfl | rfl := hletter <;> decide

theorem RendersFraction.stops (h : RendersFraction ds bs)
    (hrest : ∀ b ∈ rest.head?, isDigit b = false) :
    ∀ b ∈ (bs ++ rest).head?, isDigit b = false := by
  cases h with
  | none => exact hrest
  | some _ =>
    rintro b hb
    obtain rfl := Option.some.inj hb
    decide

/-- A number is read from any of its texts, up to where it ends. -/
theorem RendersNumeral.read {x : Numeral} (h : RendersNumeral x bs) (hrest : Ends rest) :
    Numeral.read (bs ++ rest) = .ok (x, rest) := by
  obtain ⟨hwhole, hzero, hfraction, hpower⟩ := h
  have hbehind := hpower.stops hrest
  have hdigits := hfraction.stops fun b hb => (hbehind b hb).1
  have hend : ∀ b ∈ rest.head?, isDigit b = false ∧ b ≠ ascii 'e' ∧ b ≠ ascii 'E' := fun b hb =>
    ⟨(hrest.not_numeral b hb).1, (hrest.not_numeral b hb).2.2⟩
  rw [List.append_assoc, List.append_assoc]
  simp only [Numeral.read, hwhole.readWhole hzero hdigits, hfraction.readFraction hbehind,
    hpower.readPower hend, bind, Except.bind, pure, Except.pure]

/-- A number without a sign is passed over. -/
theorem RendersNumeral.skipNumber {x : Numeral} (h : RendersNumeral x bs) (hrest : Ends rest) :
    skipNumber (bs ++ rest) = .ok rest := by
  have hread := h.read hrest
  obtain ⟨b, bs, rfl, hdigit⟩ := h.exists_eq_cons
  have hne : b ≠ ascii '-' := by
    rintro rfl
    exact absurd hdigit (by decide)
  rw [List.cons_append] at hread ⊢
  rw [Json.skipNumber, if_neg hne, hread]

theorem RendersNumeral.skipNumber_minus {x : Numeral} (h : RendersNumeral x bs)
    (hrest : Ends rest) : Json.skipNumber (ascii '-' :: (bs ++ rest)) = .ok rest := by
  rw [Json.skipNumber, if_pos rfl, h.read hrest]

end Numeral

section Integer

/-- The value of an integer: the zero has no minus sign. -/
def Value.integer (n : Int) : Value := .number (n < 0) ⟨Decimal.digits n.natAbs, [], none⟩

/-- The digits of a number are a numeral of it. -/
theorem rendersNumeral_digits (n : Nat) :
    RendersNumeral ⟨Decimal.digits n, [], none⟩ ((Decimal.digits n).map digitByte) := by
  have hwhole : RendersDigits (Decimal.digits n) _ :=
    ⟨Decimal.digits_ne_nil n, Decimal.digits_lt n⟩
  have hzero : (Decimal.digits n).head? = some 0 → Decimal.digits n = [0] := by
    intro hhead
    rw [Decimal.eq_zero_of_head?_digits hhead, Decimal.digits_of_lt (by decide)]
  have hnumeral : RendersNumeral ⟨Decimal.digits n, [], none⟩ _ := .mk hwhole hzero .none .none
  rwa [List.append_nil, List.append_nil] at hnumeral

/-- What is written of an integer is its text. -/
theorem renders_writeInteger (n : Int) : Renders (.integer n) (writeInteger n) := by
  cases n with
  | ofNat n =>
    rw [writeInteger, Decimal.ofInt, ofString_ofNat]
    exact .number (rendersNumeral_digits n)
  | negSucc n =>
    have hvalue : Value.integer (.negSucc n) =
        .number true ⟨Decimal.digits (n + 1), [], none⟩ := by simp [Value.integer]
    rw [hvalue, writeInteger, Decimal.ofInt, Bytes.ofString_append, ofString_ofNat]
    exact .negative (rendersNumeral_digits (n + 1))

/-- An integer of 64 bits is read from its text. -/
theorem Renders.readNumber {n : Int} (h : Renders (.integer n) bs)
    (hleast : -(UInt64.size : Int) ≤ 2 * n) (hgreatest : n < UInt64.size) (hrest : Ends rest) :
    readNumber (bs ++ rest) = .ok (.integer n, rest) := by
  rw [Value.integer] at h
  generalize hnegative : decide (n < 0) = negative at h
  cases h with
  | number h =>
    have hn : (n.natAbs : Int) = n := Int.natAbs_of_nonneg (by simpa using hnegative)
    have hlt : n.natAbs < UInt64.size := by omega
    have hfound : Numeral.found? false ⟨Decimal.digits n.natAbs, [], none⟩ =
        some (.integer n) := by
      simp [Numeral.found?, Decimal.value_digits, hlt, hn]
    have hread := h.read hrest
    obtain ⟨b, bs, rfl, hdigit⟩ := h.exists_eq_cons
    have hplus : (b == ascii '-') = false := by
      rw [beq_eq_false_iff_ne]
      rintro rfl
      exact absurd hdigit (by decide)
    rw [List.cons_append] at hread ⊢
    simp only [Json.readNumber, hplus, Bool.false_eq_true, if_false, hread, hfound, bind,
      Except.bind]
  | negative h =>
    have hlt : n < 0 := of_decide_eq_true hnegative
    have hn : -(n.natAbs : Int) = n := by omega
    have hpos : 0 < n.natAbs := by omega
    have hle : 2 * n.natAbs ≤ UInt64.size := by omega
    have hfound : Numeral.found? true ⟨Decimal.digits n.natAbs, [], none⟩ =
        some (.integer n) := by
      generalize n.natAbs = m at hn hpos hle ⊢
      simp [Numeral.found?, Decimal.value_digits, hpos, hle, hn]
    rw [List.cons_append]
    simp only [Json.readNumber, beq_self_eq_true, if_true, h.read hrest, hfound, bind, Except.bind]

/-- An integer within bounds is read from its text, with white space in front of it or not. -/
theorem Renders.readInteger {n : Int} (h : Renders (.integer n) bs) (wanted : Shape)
    {least greatest : Int} (hleast : least ≤ n) (hgreatest : n ≤ greatest)
    (hlow : -(UInt64.size : Int) ≤ 2 * least) (hhigh : greatest < UInt64.size) {before : Bytes}
    (hbefore : Blank before) (hrest : Ends rest) :
    readInteger wanted least greatest (before ++ (bs ++ rest)) = .ok (n, rest) := by
  have hread := h.readNumber (by omega) (Int.lt_of_le_of_lt hgreatest hhigh) hrest
  obtain ⟨b, bs', rfl, hb, hspace⟩ := h.number_begins
  rw [List.cons_append] at hread ⊢
  rw [Json.readInteger, hbefore.skipSpace_cons hspace]
  simp only [hb, if_true, hread, bind, Except.bind, hleast, hgreatest, and_self]

end Integer

end Json

end ExactCover
