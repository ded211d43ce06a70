import ExactCover.Codec
import ExactCover.Proofs.Codec.Base64
import ExactCover.Proofs.Problem.WellFormed

namespace ExactCover

theorem Bytes.ofString_inj {s t : String} : ofString s = ofString t ↔ s = t := by
  refine ⟨fun h => ?_, congrArg ofString⟩
  have heq := congrArg toString? h
  rwa [toString?_ofString, toString?_ofString, Option.some.injEq] at heq

namespace Text

/-- Whether a text is another one with white space around it. -/
def Surrounds (text core : String) : Prop :=
  ∃ before after : String, text = before ++ core ++ after ∧
    (∀ c ∈ before.toList, isBlank c = true) ∧ ∀ c ∈ after.toList, isBlank c = true

theorem surrounds_trim (text : String) : Surrounds text (trim text) := by
  obtain ⟨before, after, htext, hbefore, hafter⟩ := exists_trimmed text.toList
  refine ⟨.ofList before, .ofList after, String.toList_inj.mp ?_, by simpa, by simpa⟩
  simpa [trim] using htext

end Text

namespace Base64

theorem symbol_of_value? : ∀ n < 256, ∀ v ∈ value? (UInt8.ofNat n),
    v < 64 ∧ symbol v = UInt8.ofNat n := by decide +kernel

/-- A byte stands for a number if it is the symbol of that number. -/
theorem value?_eq_some_iff {b : UInt8} {v : Nat} : value? b = some v ↔ v < 64 ∧ b = symbol v := by
  constructor
  · intro h
    have hsymbol := symbol_of_value? b.toNat b.toNat_lt v (by rwa [UInt8.ofNat_toNat])
    rw [UInt8.ofNat_toNat] at hsymbol
    exact ⟨hsymbol.1, hsymbol.2.symm⟩
  · rintro ⟨hv, rfl⟩
    exact value?_symbol v hv

theorem read_eq_ok_iff {b : UInt8} {offset v : Nat} :
    read b offset = .ok v ↔ v < 64 ∧ b = symbol v := by
  rw [read, ← value?_eq_some_iff]
  cases value? b <;> simp

/-- The last chunk of a text without padding has symbols only. -/
theorem readLast_eq_ok {start i : Nat} {chunk : Bytes} {vs : List Nat}
    (h : readLast start i chunk = .ok (vs, false)) :
    chunk = vs.map symbol ∧ ∀ v ∈ vs, v < 64 := by
  induction chunk generalizing i vs with
  | nil =>
    cases h
    simp
  | cons b chunk ih =>
    rw [readLast] at h
    split at h
    · split at h <;> cases h
    · obtain ⟨v, hv, h⟩ := Problem.bind_eq_ok_iff.mp h
      obtain ⟨⟨others, padded⟩, hothers, h⟩ := Problem.bind_eq_ok_iff.mp h
      cases h
      obtain ⟨hlt, rfl⟩ := read_eq_ok_iff.mp hv
      obtain ⟨rfl, hall⟩ := ih hothers
      exact ⟨rfl, List.forall_mem_cons.mpr ⟨hlt, hall⟩⟩

theorem encode_one {a b : Nat} (ha : a < 64) (hb : b < 64) (hunused : b % 16 = 0) :
    encode [UInt8.ofNat (a * 4 + b / 16)] = [symbol a, symbol b] := by
  have hbyte : (UInt8.ofNat (a * 4 + b / 16)).toNat = a * 4 + b / 16 :=
    UInt8.toNat_ofNat_of_lt' (by change _ < 256; omega)
  have hfirst : (a * 4 + b / 16) / 4 = a := by omega
  have hsecond : (a * 4 + b / 16) % 4 * 16 = b := by omega
  rw [encode, hbyte, hfirst, hsecond]

theorem encode_two {a b c : Nat} (ha : a < 64) (hb : b < 64) (hc : c < 64) (hunused : c % 4 = 0) :
    encode [UInt8.ofNat (a * 4 + b / 16), UInt8.ofNat (b % 16 * 16 + c / 4)] =
      [symbol a, symbol b, symbol c] := by
  have hbyte : (UInt8.ofNat (a * 4 + b / 16)).toNat = a * 4 + b / 16 :=
    UInt8.toNat_ofNat_of_lt' (by change _ < 256; omega)
  have hbyte' : (UInt8.ofNat (b % 16 * 16 + c / 4)).toNat = b % 16 * 16 + c / 4 :=
    UInt8.toNat_ofNat_of_lt' (by change _ < 256; omega)
  have hfirst : (a * 4 + b / 16) / 4 = a := by omega
  have hsecond : (a * 4 + b / 16) % 4 * 16 + (b % 16 * 16 + c / 4) / 16 = b := by omega
  have hthird : (b % 16 * 16 + c / 4) % 16 * 4 = c := by omega
  rw [encode, hbyte, hbyte', hfirst, hsecond, hthird]

/-- Three bytes have the four symbols they were made of, whatever follows. -/
theorem encode_quad {a b c d : Nat} (ha : a < 64) (hb : b < 64) (hc : c < 64) (hd : d < 64)
    (rest : Bytes) : encode (quad a b c d ++ rest) =
      symbol a :: symbol b :: symbol c :: symbol d :: encode rest := by
  have hbyte : (UInt8.ofNat (a * 4 + b / 16)).toNat = a * 4 + b / 16 :=
    UInt8.toNat_ofNat_of_lt' (by change _ < 256; omega)
  have hbyte' : (UInt8.ofNat (b % 16 * 16 + c / 4)).toNat = b % 16 * 16 + c / 4 :=
    UInt8.toNat_ofNat_of_lt' (by change _ < 256; omega)
  have hbyte'' : (UInt8.ofNat (c % 4 * 64 + d)).toNat = c % 4 * 64 + d :=
    UInt8.toNat_ofNat_of_lt' (by change _ < 256; omega)
  have hfirst : (a * 4 + b / 16) / 4 = a := by omega
  have hsecond : (a * 4 + b / 16) % 4 * 16 + (b % 16 * 16 + c / 4) / 16 = b := by omega
  have hthird : (b % 16 * 16 + c / 4) % 16 * 4 + (c % 4 * 64 + d) / 64 = c := by omega
  have hfourth : (c % 4 * 64 + d) % 64 = d := by omega
  rw [quad]
  change encode (_ :: _ :: _ :: rest) = _
  rw [encode, hbyte, hbyte', hbyte'', hfirst, hsecond, hthird, hfourth]

/-- The last chunk of a text is what its bytes encode to. -/
theorem decodeLast_eq_ok {start : Nat} {chunk bs : Bytes} (hlength : chunk.length ≤ 4)
    (h : decodeLast start chunk = .ok bs) : encode bs = chunk := by
  obtain ⟨⟨vs, padded⟩, hread, hlast⟩ := Problem.bind_eq_ok_iff.mp h
  clear h
  dsimp only at hlast
  split at hlast
  · cases hlast
  · rename_i hlone
    cases padded with
    | true => cases hlast
    | false =>
      obtain ⟨rfl, hlt⟩ := readLast_eq_ok hread
      match vs with
      | [] =>
        cases hlast
        rfl
      | [a] => simp at hlone
      | [a, b] =>
        simp only [List.forall_mem_cons] at hlt
        by_cases hunused : b % 16 = 0
        · simp only [hunused, ne_eq, not_true_eq_false, if_false] at hlast
          cases hlast
          exact encode_one hlt.1 hlt.2.1 hunused
        · simp only [hunused, ne_eq, not_false_eq_true, if_true] at hlast
          cases hlast
      | [a, b, c] =>
        simp only [List.forall_mem_cons] at hlt
        by_cases hunused : c % 4 = 0
        · simp only [hunused, ne_eq, not_true_eq_false, if_false] at hlast
          cases hlast
          exact encode_two hlt.1 hlt.2.1 hlt.2.2.1 hunused
        · simp only [hunused, ne_eq, not_false_eq_true, if_true] at hlast
          cases hlast
      | [a, b, c, d] =>
        simp only [List.forall_mem_cons] at hlt
        cases hlast
        exact encode_quad hlt.1 hlt.2.1 hlt.2.2.1 hlt.2.2.2.1 []
      | _ :: _ :: _ :: _ :: _ :: _ =>
        simp only [List.length_map, List.length_cons] at hlength
        omega

theorem decodeFrom_eq_ok {start : Nat} {text bs : Bytes} (h : decodeFrom start text = .ok bs) :
    encode bs = text := by
  induction start, text using decodeFrom.induct generalizing bs with
  | case1 start a b c d e rest ih =>
    rw [decodeFrom] at h
    obtain ⟨a', ha, h₁⟩ := Problem.bind_eq_ok_iff.mp h
    obtain ⟨b', hb, h₂⟩ := Problem.bind_eq_ok_iff.mp h₁
    obtain ⟨c', hc, h₃⟩ := Problem.bind_eq_ok_iff.mp h₂
    obtain ⟨d', hd, h₄⟩ := Problem.bind_eq_ok_iff.mp h₃
    obtain ⟨others, hothers, h₅⟩ := Problem.bind_eq_ok_iff.mp h₄
    obtain ⟨hlt, rfl⟩ := read_eq_ok_iff.mp ha
    obtain ⟨hlt', rfl⟩ := read_eq_ok_iff.mp hb
    obtain ⟨hlt₂, rfl⟩ := read_eq_ok_iff.mp hc
    obtain ⟨hlt₃, rfl⟩ := read_eq_ok_iff.mp hd
    cases h₅
    rw [encode_quad hlt hlt' hlt₂ hlt₃, ih hothers]
  | case2 start chunk hshort =>
    rw [decodeFrom] at h
    · refine decodeLast_eq_ok ?_ h
      rcases chunk with _ | ⟨a, _ | ⟨b, _ | ⟨c, _ | ⟨d, _ | ⟨e, rest⟩⟩⟩⟩⟩
      case cons.cons.cons.cons.cons => exact absurd rfl (hshort a b c d e rest)
      all_goals simp
    · exact hshort

/-- Decoding accepts the text that bytes encode to, and no other one. -/
theorem decode_eq_ok_iff {text bs : Bytes} : decode text = .ok bs ↔ encode bs = text := by
  constructor
  · intro h
    obtain ⟨_, -, h⟩ := Problem.bind_eq_ok_iff.mp h
    exact decodeFrom_eq_ok h
  · rintro rfl
    exact decode_encode bs

/-- Why a text without white space around it is not that of any bytes. -/
inductive Irregular (s : String) : Prop where
  /-- It has a character that is no symbol, such as padding. -/
  | foreign {c : Char} (hc : c ∈ s.toList) (h : ¬ IsSymbol c) : Irregular s
  /-- A symbol is left over behind groups of four, and it cannot encode a byte. -/
  | lone (h : s.length % 4 = 1) : Irregular s
  /-- The last symbol has bits that belong to no byte. -/
  | unused {c : Char} {v : Nat} (hlast : s.toList.getLast? = some c)
      (hv : value? (ascii c) = some v)
      (hbits : s.length % 4 = 2 ∧ v % 16 ≠ 0 ∨ s.length % 4 = 3 ∧ v % 4 ≠ 0) : Irregular s

/-- Symbols of other alphabets and padding are no symbols. -/
example : ¬ IsSymbol '=' ∧ ¬ IsSymbol '+' ∧ ¬ IsSymbol '/' := by decide

/-- The numbers of the symbols of bytes: never is one of them left over, and the last one uses its
    bits up. -/
theorem numbers_regular (bs : Bytes) : (numbers bs).length % 4 ≠ 1 ∧
    ∀ v ∈ (numbers bs).getLast?, ((numbers bs).length % 4 = 2 → v % 16 = 0) ∧
      ((numbers bs).length % 4 = 3 → v % 4 = 0) := by
  induction bs using numbers.induct with
  | case1 a b c rest ih =>
    obtain ⟨hlength, hlast⟩ := ih
    simp only [numbers, List.length_cons, Nat.add_assoc, Nat.reduceAdd, Nat.add_mod_right]
    refine ⟨hlength, ?_⟩
    -- The last number is that of the bytes behind, and without any there are four numbers.
    cases hrest : numbers rest with
    | nil => simp
    | cons v vs =>
      rw [hrest] at hlast
      simpa only [List.getLast?_cons_cons] using hlast
  | case2 a b =>
    have hbits : b.toNat % 16 * 4 % 4 = 0 := by omega
    simp [numbers, hbits]
  | case3 a =>
    have hbits : a.toNat % 4 * 16 % 16 = 0 := by omega
    simp [numbers, hbits]
  | case4 => simp [numbers]

theorem not_irregular_text (bs : Bytes) : ¬ Irregular (text bs) := by
  obtain ⟨hlength, hlast⟩ := numbers_regular bs
  have hchars : (text bs).length = (numbers bs).length := by
    rw [← String.length_toList, toList_text, List.length_map]
  rintro (⟨hc, h⟩ | h | ⟨hc, hv, hbits⟩)
  · exact h (isSymbol_of_mem_text _ hc)
  · exact hlength (hchars ▸ h)
  · rw [toList_text, List.getLast?_map, Option.map_eq_some_iff] at hc
    obtain ⟨v, hmem, rfl⟩ := hc
    have hlt := numbers_lt bs v (List.mem_of_getLast? hmem)
    rw [ascii_ofNat v hlt, value?_symbol v hlt, Option.some.injEq] at hv
    subst hv
    obtain ⟨htwo, hthree⟩ := hlast v hmem
    rw [hchars] at hbits
    obtain ⟨hlen, hbits⟩ | ⟨hlen, hbits⟩ := hbits
    · exact hbits (htwo hlen)
    · exact hbits (hthree hlen)

end Base64

namespace Codec

/-- The bytes of a text are those whose text it is, but for the white space around it. -/
theorem payload_eq_ok_iff {t : String} {bs : Bytes} :
    payload t = .ok bs ↔ Base64.text bs = Text.trim t := by
  rw [payload, Base64.decode_eq_ok_iff, ← Base64.ofString_text, Bytes.ofString_inj]

theorem trim_text (bs : Bytes) : Text.trim (Base64.text bs) = Base64.text bs := by
  have hblank : ∀ c ∈ "".toList, Text.isBlank c = true := by simp
  have htext : ∀ c ∈ (Base64.text bs).toList, Text.isBlank c = false :=
    Base64.isBlank_of_mem_text
  simpa using Text.trim_append hblank hblank htext

section Stages

variable {C R : Type} [Ord C] [Ord R] [Json.Coded C] [Json.Coded R]

/-- Decoding fails for the base64 of a text just if the text has no bytes. -/
theorem decode_eq_base64_iff {t : String} {cause : Base64.Error} :
    (decode t : Except (Error C R) (Problem C R)) = .error (.base64 cause) ↔
      payload t = .error cause := by
  rw [decode]
  cases payload t with
  | error e => simp [Except.mapError, bind, Except.bind]
  | ok bs =>
    simp only [Except.mapError, bind, Except.bind, reduceCtorEq, iff_false]
    cases Json.readAll (Json.Coded.read (α := Parts C R)) bs with
    | error e => simp
    | ok parts => cases hparts : Problem.ofParts parts <;> simp [hparts]

variable (C R) in
/-- Decoding stops at the base64 of a text just if no bytes are found, and the bytes it goes on with
    are those whose text is the given one without the white space around it. All bytes come back
    from their text. So texts of no such form are refused at this stage, whatever is wrong with
    them, and links to the same bytes differ only in the white space around them. -/
theorem payload_canonical :
    (∀ t cause, (decode t : Except (Error C R) (Problem C R)) = .error (.base64 cause) ↔
      payload t = .error cause) ∧
    (∀ t bs, payload t = .ok bs → Base64.text bs = Text.trim t) ∧
    (∀ bs, payload (Base64.text bs) = .ok bs) ∧
    (∀ t, Base64.Irregular (Text.trim t) →
      ∃ cause, (decode t : Except (Error C R) (Problem C R)) = .error (.base64 cause)) ∧
    ∀ t u bs, payload t = .ok bs → payload u = .ok bs →
      ∃ core, Text.Surrounds t core ∧ Text.Surrounds u core := by
  refine ⟨fun t cause => decode_eq_base64_iff, fun t bs => payload_eq_ok_iff.mp,
    fun bs => payload_eq_ok_iff.mpr (trim_text bs).symm, fun t hirregular => ?_,
    fun t u bs ht hu => ⟨Base64.text bs, ?_, ?_⟩⟩
  · cases hpayload : payload t with
    | error cause => exact ⟨cause, decode_eq_base64_iff.mpr hpayload⟩
    | ok bs =>
      rw [← payload_eq_ok_iff.mp hpayload] at hirregular
      exact absurd hirregular (Base64.not_irregular_text bs)
  · rw [payload_eq_ok_iff.mp ht]
    exact Text.surrounds_trim t
  · rw [payload_eq_ok_iff.mp hu]
    exact Text.surrounds_trim u

/-- Three symbols, with white space around them or not, give two bytes. With one more bit in the
    last symbol, with padding, in another alphabet or with two symbols more they are refused. -/
theorem payload_of_three_symbols :
    (∃ core, Text.Surrounds "\u3000_-8\n" core ∧ Text.Surrounds "_-8" core) ∧
    Base64.text [255, 239] = Text.trim "\u3000_-8\n" ∧
    ∀ t ∈ ["_-9", " _-8=", "/+8", "_-8AA"],
      ∃ cause, (decode t : Except (Error String Int64) (Problem String Int64)) =
        .error (.base64 cause) := by
  obtain ⟨-, htext, -, hrefused, hlinks⟩ := payload_canonical String Int64
  have hspaced : payload "\u3000_-8\n" = .ok [255, 239] := by decide +kernel
  have hplain : payload "_-8" = .ok [255, 239] := by decide +kernel
  refine ⟨hlinks _ _ _ hspaced hplain, htext _ _ hspaced, ?_⟩
  have htrim : ["_-9", " _-8=", "/+8", "_-8AA"].map Text.trim =
      ["_-9", "_-8=", "/+8", "_-8AA"] := by
    decide +kernel
  simp only [List.map_cons, List.map_nil, List.cons.injEq] at htrim
  obtain ⟨hbits, hpadded, hforeign, hlone, -⟩ := htrim
  simp only [List.forall_mem_cons]
  refine ⟨hrefused _ ?_, hrefused _ ?_, hrefused _ ?_, hrefused _ ?_, by simp⟩
  · rw [hbits]
    exact .unused (c := '9') (v := 61) (by decide +kernel) (by decide) (by decide +kernel)
  · rw [hpadded]
    exact .foreign (c := '=') (by decide +kernel) (by decide)
  · rw [hforeign]
    exact .foreign (c := '/') (by decide +kernel) (by decide)
  · rw [hlone]
    exact .lone (by decide +kernel)

end Stages

end Codec

end ExactCover
