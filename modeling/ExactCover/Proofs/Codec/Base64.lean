import ExactCover.Codec.Base64
import ExactCover.Proofs.Text

namespace ExactCover.Base64

theorem value?_symbol : ∀ v < 64, value? (symbol v) = some v := by decide

theorem symbol_ne_pad : ∀ v < 64, symbol v ≠ pad := by decide

/-- The characters of a text in base64: ASCII letters, digits, `-` and `_`. -/
def IsSymbol (c : Char) : Prop :=
  ('A' ≤ c ∧ c ≤ 'Z') ∨ ('a' ≤ c ∧ c ≤ 'z') ∨ ('0' ≤ c ∧ c ≤ '9') ∨ c = '-' ∨ c = '_'

instance : DecidablePred IsSymbol := fun c =>
  inferInstanceAs (Decidable (('A' ≤ c ∧ c ≤ 'Z') ∨ ('a' ≤ c ∧ c ≤ 'z') ∨ ('0' ≤ c ∧ c ≤ '9') ∨
    c = '-' ∨ c = '_'))

theorem isSymbol_ofNat : ∀ v < 64, IsSymbol (Char.ofNat (symbol v).toNat) := by decide

theorem toNat_ofNat_lt : ∀ v < 64, (Char.ofNat (symbol v).toNat).toNat < 128 := by decide

theorem isBlank_ofNat : ∀ v < 64, Text.isBlank (Char.ofNat (symbol v).toNat) = false := by decide

theorem ascii_ofNat : ∀ v < 64, ascii (Char.ofNat (symbol v).toNat) = symbol v := by decide

theorem read_symbol {v : Nat} (h : v < 64) (offset : Nat) : read (symbol v) offset = .ok v := by
  rw [read, value?_symbol v h]
  rfl

/-- Three bytes come back from the numbers of their four symbols. -/
theorem quad_split (a b c : UInt8) : quad (a.toNat / 4) (a.toNat % 4 * 16 + b.toNat / 16)
    (b.toNat % 16 * 4 + c.toNat / 64) (c.toNat % 64) = [a, b, c] := by
  have ha := a.toNat_lt
  have hb := b.toNat_lt
  have hc := c.toNat_lt
  have hfirst : a.toNat / 4 * 4 + (a.toNat % 4 * 16 + b.toNat / 16) / 16 = a.toNat := by omega
  have hsecond : (a.toNat % 4 * 16 + b.toNat / 16) % 16 * 16 +
      (b.toNat % 16 * 4 + c.toNat / 64) / 4 = b.toNat := by omega
  have hthird : (b.toNat % 16 * 4 + c.toNat / 64) % 4 * 64 + c.toNat % 64 = c.toNat := by omega
  rw [quad, hfirst, hsecond, hthird, UInt8.ofNat_toNat, UInt8.ofNat_toNat, UInt8.ofNat_toNat]

/-- The numbers whose symbols encode some bytes. -/
def numbers : Bytes → List Nat
  | a :: b :: c :: rest =>
    a.toNat / 4 :: (a.toNat % 4 * 16 + b.toNat / 16)
      :: (b.toNat % 16 * 4 + c.toNat / 64) :: c.toNat % 64 :: numbers rest
  | [a, b] => [a.toNat / 4, a.toNat % 4 * 16 + b.toNat / 16, b.toNat % 16 * 4]
  | [a] => [a.toNat / 4, a.toNat % 4 * 16]
  | [] => []

/-- The encoded bytes are the symbols of their numbers. -/
theorem encode_eq (bs : Bytes) : encode bs = (numbers bs).map symbol := by
  induction bs using numbers.induct with
  | case1 a b c rest ih => rw [encode, numbers, ih]; rfl
  | case2 a b => rfl
  | case3 a => rfl
  | case4 => rfl

theorem numbers_lt (bs : Bytes) : ∀ v ∈ numbers bs, v < 64 := by
  induction bs using numbers.induct with
  | case1 a b c rest ih =>
    have ha := a.toNat_lt
    have hb := b.toNat_lt
    have hc := c.toNat_lt
    simp only [numbers, List.forall_mem_cons]
    exact ⟨by omega, by omega, by omega, by omega, ih⟩
  | case2 a b =>
    have ha := a.toNat_lt
    have hb := b.toNat_lt
    simp only [numbers, List.forall_mem_cons]
    exact ⟨by omega, by omega, by omega, by simp⟩
  | case3 a =>
    have ha := a.toNat_lt
    simp only [numbers, List.forall_mem_cons]
    exact ⟨by omega, by omega, by simp⟩
  | case4 => simp [numbers]

/-- The symbols of the last chunk are read in order, and there is no padding. -/
theorem readLast_symbols (start i : Nat) {vs : List Nat} (h : ∀ v ∈ vs, v < 64) :
    readLast start i (vs.map symbol) = .ok (vs, false) := by
  induction vs generalizing i with
  | nil => rfl
  | cons v vs ih =>
    obtain ⟨hv, hvs⟩ := List.forall_mem_cons.mp h
    rw [List.map_cons, readLast, if_neg (symbol_ne_pad v hv), read_symbol hv, ih (i + 1) hvs]
    rfl

/-- Two symbols at the end give one byte, if the second one has no bits left over. -/
theorem decodeLast_two (start : Nat) {a b : Nat} (ha : a < 64) (hb : b < 64)
    (hunused : b % 16 = 0) :
    decodeLast start [symbol a, symbol b] = .ok [UInt8.ofNat (a * 4 + b / 16)] := by
  have hlt : ∀ v ∈ [a, b], v < 64 := by simp [ha, hb]
  have hread : readLast start 0 [symbol a, symbol b] = .ok ([a, b], false) :=
    readLast_symbols start 0 hlt
  rw [decodeLast, hread]
  simp [bind, Except.bind, pure, Except.pure, hunused]

/-- Three symbols at the end give two bytes, if the third one has no bits left over. -/
theorem decodeLast_three (start : Nat) {a b c : Nat} (ha : a < 64) (hb : b < 64) (hc : c < 64)
    (hunused : c % 4 = 0) : decodeLast start [symbol a, symbol b, symbol c] =
      .ok [UInt8.ofNat (a * 4 + b / 16), UInt8.ofNat (b % 16 * 16 + c / 4)] := by
  have hlt : ∀ v ∈ [a, b, c], v < 64 := by simp [ha, hb, hc]
  have hread : readLast start 0 [symbol a, symbol b, symbol c] = .ok ([a, b, c], false) :=
    readLast_symbols start 0 hlt
  rw [decodeLast, hread]
  simp [bind, Except.bind, pure, Except.pure, hunused]

/-- A last chunk of four symbols stands for three bytes. -/
theorem decodeLast_four (start : Nat) {a b c d : Nat} (ha : a < 64) (hb : b < 64) (hc : c < 64)
    (hd : d < 64) :
    decodeLast start [symbol a, symbol b, symbol c, symbol d] = .ok (quad a b c d) := by
  have hlt : ∀ v ∈ [a, b, c, d], v < 64 := by simp [ha, hb, hc, hd]
  have hread : readLast start 0 [symbol a, symbol b, symbol c, symbol d] =
      .ok ([a, b, c, d], false) := readLast_symbols start 0 hlt
  rw [decodeLast, hread]
  rfl

/-- Four symbols in front of others give three bytes. -/
theorem decodeFrom_cons (start : Nat) {a b c d : Nat} (ha : a < 64) (hb : b < 64) (hc : c < 64)
    (hd : d < 64) {rest decoded : Bytes} (hrest : rest ≠ [])
    (hdecode : decodeFrom (start + 4) rest = .ok decoded) :
    decodeFrom start (symbol a :: symbol b :: symbol c :: symbol d :: rest) =
      .ok (quad a b c d ++ decoded) := by
  obtain ⟨e, rest, rfl⟩ := List.exists_cons_of_ne_nil hrest
  rw [decodeFrom, read_symbol ha, read_symbol hb, read_symbol hc, read_symbol hd, hdecode]
  rfl

theorem encode_ne_nil {bs : Bytes} (h : bs ≠ []) : encode bs ≠ [] := by
  cases bs using encode.induct <;> simp_all [encode]

theorem decodeFrom_encode (start : Nat) (bs : Bytes) : decodeFrom start (encode bs) = .ok bs := by
  induction bs using numbers.induct generalizing start with
  | case1 a b c rest ih =>
    have hlt := numbers_lt (a :: b :: c :: rest)
    simp only [numbers, List.forall_mem_cons] at hlt
    obtain ⟨hfirst, hsecond, hthird, hfourth, -⟩ := hlt
    rw [encode]
    by_cases hrest : rest = []
    · subst hrest
      exact (decodeLast_four start hfirst hsecond hthird hfourth).trans
        (congrArg Except.ok (quad_split a b c))
    · rw [decodeFrom_cons start hfirst hsecond hthird hfourth (encode_ne_nil hrest) (ih _),
        quad_split]
      rfl
  | case2 a b =>
    have ha := a.toNat_lt
    have hb := b.toNat_lt
    have hfirst : a.toNat / 4 * 4 + (a.toNat % 4 * 16 + b.toNat / 16) / 16 = a.toNat := by omega
    have hsecond : (a.toNat % 4 * 16 + b.toNat / 16) % 16 * 16 + b.toNat % 16 * 4 / 4 =
        b.toNat := by omega
    have hlast := decodeLast_three start (a := a.toNat / 4)
      (b := a.toNat % 4 * 16 + b.toNat / 16) (c := b.toNat % 16 * 4) (by omega) (by omega)
      (by omega) (by omega)
    rwa [hfirst, hsecond, UInt8.ofNat_toNat, UInt8.ofNat_toNat] at hlast
  | case3 a =>
    have ha := a.toNat_lt
    have hfirst : a.toNat / 4 * 4 + a.toNat % 4 * 16 / 16 = a.toNat := by omega
    have hlast := decodeLast_two start (a := a.toNat / 4) (b := a.toNat % 4 * 16) (by omega)
      (by omega) (by omega)
    rwa [hfirst, UInt8.ofNat_toNat] at hlast
  | case4 => rfl

/-- No symbol is alone in the last chunk without standing for a number. -/
theorem checkLone_encode (bs : Bytes) : checkLone (encode bs) = .ok () := by
  rw [checkLone, encode_eq]
  cases hlast : ((numbers bs).map symbol).getLast? with
  | none => rfl
  | some s =>
    obtain ⟨v, hv, rfl⟩ := List.mem_map.mp (List.mem_of_getLast? hlast)
    simp [value?_symbol v (numbers_lt bs v hv)]

/-- Bytes come back from their text. -/
theorem decode_encode (bs : Bytes) : decode (encode bs) = .ok bs := by
  rw [decode, checkLone_encode]
  exact decodeFrom_encode 0 bs

theorem toList_text (bs : Bytes) :
    (text bs).toList = (numbers bs).map fun v => Char.ofNat (symbol v).toNat := by
  rw [text, encode_eq, List.map_map, String.toList_ofList]
  rfl

/-- A text holds nothing but letters, digits, `-` and `_`. -/
theorem isSymbol_of_mem_text {bs : Bytes} : ∀ c ∈ (text bs).toList, IsSymbol c := by
  rw [toList_text, List.forall_mem_map]
  exact fun v hv => isSymbol_ofNat v (numbers_lt bs v hv)

theorem isBlank_of_mem_text {bs : Bytes} : ∀ c ∈ (text bs).toList, Text.isBlank c = false := by
  rw [toList_text, List.forall_mem_map]
  exact fun v hv => isBlank_ofNat v (numbers_lt bs v hv)

/-- The bytes of a text are its symbols. -/
theorem ofString_text (bs : Bytes) : Bytes.ofString (text bs) = encode bs := by
  have hsmall : ∀ c ∈ (text bs).toList, c.toNat < 128 := by
    rw [toList_text, List.forall_mem_map]
    exact fun v hv => toNat_ofNat_lt v (numbers_lt bs v hv)
  rw [← String.ofList_toList (s := text bs), Bytes.ofString_of_forall_lt hsmall, toList_text,
    List.map_map, encode_eq]
  exact List.map_congr_left fun v hv => ascii_ofNat v (numbers_lt bs v hv)

end ExactCover.Base64
