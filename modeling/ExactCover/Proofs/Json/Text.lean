import ExactCover.Proofs.Json.Grammar
import ExactCover.Proofs.Text
import Mathlib.Data.List.Basic

namespace ExactCover.Json

variable {bs rest : Bytes}

section Reading

theorem ofEscape?_of_mem : ∀ e ∈ shortEscapes, ofEscape? e.1 = some e.2 := by
  simp only [shortEscapes, List.forall_mem_cons, List.not_mem_nil, false_imp_iff, implies_true,
    and_true]
  decide

theorem ofEscape?_u : ofEscape? (ascii 'u') = none := by decide

theorem shortEscapes_lt : ∀ e ∈ shortEscapes, e.2.toNat < 128 := by
  simp only [shortEscapes, List.forall_mem_cons, List.not_mem_nil, false_imp_iff, implies_true,
    and_true]
  decide

/-- Four hexadecimal digits are read, in either case. -/
theorem RendersHex.readHex {n : Nat} {hex : Bytes} (h : RendersHex n hex) (rest : Bytes) :
    readHex (hex ++ rest) = .ok (n, rest) := by
  cases h with
  | mk ha hb hc hd => simp [Json.readHex, ha, hb, hc, hd]

/-- The bytes of a character that stands for itself are no quotation marks, backslashes or control
    characters. -/
theorem plain_of_mem {c : Char} (hcontrol : 32 ≤ c.toNat) (hquote : c ≠ '"')
    (hbackslash : c ≠ '\\') {b : UInt8} (hb : b ∈ String.utf8EncodeChar c) :
    b ≠ quote ∧ b ≠ backslash ∧ ¬ b < 32 := by
  have hascii (d : Char) (hd : d.toNat < 128) (hne : c ≠ d) : b ≠ ascii d := by
    rintro rfl
    have hdNat := Bytes.toNat_ascii hd
    by_cases hc : c.toNat < 128
    · rw [Bytes.utf8EncodeChar_of_lt hc, List.mem_singleton] at hb
      rw [hb, Bytes.toNat_ascii hc] at hdNat
      exact hne (Char.toNat_inj.mp hdNat)
    · have hle := Bytes.le_of_mem_utf8EncodeChar (Nat.not_lt.mp hc) hb
      omega
  refine ⟨hascii '"' (by decide) hquote, hascii '\\' (by decide) hbackslash, ?_⟩
  rw [UInt8.lt_iff_toNat_lt]
  by_cases hc : c.toNat < 128
  · rw [Bytes.utf8EncodeChar_of_lt hc, List.mem_singleton] at hb
    rw [hb, Bytes.toNat_ascii hc]
    exact Nat.not_lt.mpr hcontrol
  · have hle := Bytes.le_of_mem_utf8EncodeChar (Nat.not_lt.mp hc) hb
    exact Nat.not_lt.mpr (Nat.le_trans (by decide) hle)

theorem readBody_quote (bs : Bytes) : readBody (quote :: bs) = .ok ([], bs) := by
  rw [readBody, if_pos rfl]

theorem readBody_plain {plain body : Bytes}
    (hplain : ∀ b ∈ plain, b ≠ quote ∧ b ≠ backslash ∧ ¬ b < 32)
    (h : readBody bs = .ok (body, rest)) :
    readBody (plain ++ bs) = .ok (plain ++ body, rest) := by
  induction plain with
  | nil => exact h
  | cons b plain ih =>
    obtain ⟨hquote, hbackslash, hcontrol⟩ := hplain b List.mem_cons_self
    rw [List.cons_append, readBody, if_neg hquote, if_neg hbackslash, if_neg hcontrol,
      ih fun b hb => hplain b (List.mem_cons_of_mem _ hb)]
    rfl

/-- An escape in front of the body of a string is read first. -/
theorem readBody_escaped {bs' out body : Bytes} (hescape : readEscape bs = .ok (out, bs'))
    (h : readBody bs' = .ok (body, rest)) :
    readBody (backslash :: bs) = .ok (out ++ body, rest) := by
  rw [readBody, if_neg (by decide), if_pos rfl]
  split
  · rename_i herror
    rw [hescape] at herror
    cases herror
  · rename_i hok
    rw [hescape] at hok
    cases hok
    rw [h]
    rfl

/-- A character below U+10000 given by its number. -/
theorem readEscape_number {c : Char} {hex : Bytes} (hhex : RendersHex c.toNat hex) (bs : Bytes) :
    readEscape (ascii 'u' :: (hex ++ bs)) = .ok (String.utf8EncodeChar c, bs) := by
  have hvalid : ¬ (0xD800 ≤ c.toNat ∧ c.toNat ≤ 0xDFFF) := by
    have hvalid : c.toNat < 0xD800 ∨ 0xDFFF < c.toNat ∧ c.toNat < 0x110000 := c.valid
    omega
  have hpoint : readCodePoint (hex ++ bs) = .ok (String.utf8EncodeChar c, bs) := by
    rw [readCodePoint, hhex.readHex]
    dsimp only
    rw [if_neg (by omega), if_neg (by omega), codePoint, Char.ofNat_toNat]
  rw [readEscape, ofEscape?_u]
  exact hpoint

/-- A character from U+10000 on, given by two numbers. -/
theorem readEscape_pair {c : Char} {leading trailing : Nat} {hex hex' : Bytes}
    (hleading : 0xD800 ≤ leading ∧ leading ≤ 0xDBFF)
    (htrailing : 0xDC00 ≤ trailing ∧ trailing ≤ 0xDFFF) (hhex : RendersHex leading hex)
    (hhex' : RendersHex trailing hex')
    (hc : c.toNat = 0x10000 + (leading - 0xD800) * 0x400 + (trailing - 0xDC00)) (bs : Bytes) :
    readEscape (ascii 'u' :: (hex ++ backslash :: ascii 'u' :: (hex' ++ bs))) =
      .ok (String.utf8EncodeChar c, bs) := by
  have hpoint : readCodePoint (hex ++ backslash :: ascii 'u' :: (hex' ++ bs)) =
      .ok (String.utf8EncodeChar c, bs) := by
    rw [readCodePoint, hhex.readHex]
    dsimp only
    rw [if_neg (by omega), if_pos hleading, readTrailing, if_neg (by simp), if_neg (by simp),
      hhex'.readHex]
    dsimp only
    rw [if_pos htrailing, ← hc, codePoint, Char.ofNat_toNat]
  rw [readEscape, ofEscape?_u]
  exact hpoint

/-- The characters of a string are read from any of their spellings. -/
theorem RendersText.readBody {cs : List Char} (h : RendersText (cs.map Char.toNat) bs)
    (rest : Bytes) :
    readBody (bs ++ quote :: rest) = .ok (cs.flatMap String.utf8EncodeChar, rest) := by
  generalize hcodes : cs.map Char.toNat = ns at h
  -- Each spelling of the first code point is one of the first character.
  induction h generalizing cs with
  | nil =>
    rw [List.map_eq_nil_iff.mp hcodes]
    exact readBody_quote rest
  | @plain c ns bs hcontrol hquote hbackslash _ ih =>
    obtain ⟨c', cs, rfl, hc, hrest⟩ := List.map_eq_cons_iff.mp hcodes
    obtain rfl := Char.toNat_inj.mp hc
    rw [List.append_assoc]
    exact readBody_plain (fun b => plain_of_mem hcontrol hquote hbackslash) (ih hrest)
  | @letter letter b ns bs hletter _ ih =>
    obtain ⟨c, cs, rfl, hc, hrest⟩ := List.map_eq_cons_iff.mp hcodes
    have hlt := shortEscapes_lt _ hletter
    have hbytes : String.utf8EncodeChar c = [b] := by
      rw [Bytes.utf8EncodeChar_of_lt (hc ▸ hlt), List.singleton_inj, ← UInt8.toNat_inj,
        Bytes.toNat_ascii (hc ▸ hlt), hc]
    rw [List.flatMap_cons, hbytes]
    refine readBody_escaped ?_ (ih hrest)
    rw [List.append_eq, List.cons_append, readEscape, ofEscape?_of_mem _ hletter]
  | @number n ns hex bs hhex _ ih =>
    obtain ⟨c, cs, rfl, rfl, hrest⟩ := List.map_eq_cons_iff.mp hcodes
    refine readBody_escaped ?_ (ih hrest)
    rw [List.append_eq, List.cons_append, List.append_assoc]
    exact readEscape_number hhex _
  | @pair leading trailing ns hex hex' bs hleading htrailing hhex hhex' _ ih =>
    obtain ⟨c, cs, rfl, hc, hrest⟩ := List.map_eq_cons_iff.mp hcodes
    refine readBody_escaped ?_ (ih hrest)
    rw [List.append_eq, List.cons_append, List.append_assoc, List.cons_append, List.cons_append,
      List.append_assoc]
    exact readEscape_pair hleading htrailing hhex hhex' hc _

/-- A string is read from any of its spellings, behind its opening quotation mark. -/
theorem RendersText.readString {s : String} (h : RendersText (codes s) bs) (rest : Bytes) :
    readString (bs ++ quote :: rest) = .ok (s, rest) := by
  have hbytes : s.toList.flatMap String.utf8EncodeChar = Bytes.ofString s := by
    rw [← Bytes.ofString_ofList, String.ofList_toList]
  simp only [Json.readString, RendersText.readBody h, hbytes, bind, Except.bind,
    Bytes.toString?_ofString]

end Reading

section Skipping

theorem skipString_quote (bs : Bytes) : skipString (quote :: bs) = .ok bs := by
  rw [skipString.eq_def]
  exact if_pos rfl

theorem skipString_plain {plain : Bytes}
    (hplain : ∀ b ∈ plain, b ≠ quote ∧ b ≠ backslash ∧ ¬ b < 32) (bs : Bytes) :
    skipString (plain ++ bs) = skipString bs := by
  induction plain with
  | nil => rfl
  | cons b plain ih =>
    obtain ⟨hquote, hbackslash, hcontrol⟩ := hplain b List.mem_cons_self
    rw [List.cons_append, skipString.eq_def]
    dsimp only
    rw [if_neg hquote, if_neg hbackslash, if_neg hcontrol,
      ih fun b hb => hplain b (List.mem_cons_of_mem _ hb)]

theorem skipString_letter {letter b : UInt8} (hletter : (letter, b) ∈ shortEscapes) (bs : Bytes) :
    skipString (backslash :: letter :: bs) = skipString bs := by
  have hsome : (ofEscape? letter).isSome = true := by rw [ofEscape?_of_mem _ hletter]; rfl
  rw [skipString.eq_def]
  dsimp only
  rw [if_neg (by decide), if_pos rfl, if_pos hsome]

theorem skipString_number {n : Nat} {hex : Bytes} (hhex : RendersHex n hex) (bs : Bytes) :
    skipString (backslash :: ascii 'u' :: (hex ++ bs)) = skipString bs := by
  cases hhex with
  | mk ha hb hc hd =>
    rw [skipString.eq_def]
    dsimp only [List.cons_append, List.nil_append]
    rw [if_neg (by decide), if_pos rfl, ofEscape?_u, if_neg (by decide), if_pos rfl]
    simp [ha, hb, hc, hd]

/-- A string is passed over whatever its code points are. -/
theorem RendersText.skipString {ns : List Nat} (h : RendersText ns bs) (rest : Bytes) :
    skipString (bs ++ quote :: rest) = .ok rest := by
  induction h with
  | nil => exact skipString_quote rest
  | plain hcontrol hquote hbackslash _ ih =>
    rw [List.append_assoc, skipString_plain fun b => plain_of_mem hcontrol hquote hbackslash, ih]
  | letter hletter _ ih => rw [List.cons_append, List.cons_append, skipString_letter hletter, ih]
  | number hhex _ ih =>
    rw [List.cons_append, List.cons_append, List.append_assoc, skipString_number hhex, ih]
  | pair _ _ hhex hhex' _ ih =>
    rw [List.cons_append, List.cons_append, List.append_assoc, skipString_number hhex,
      List.cons_append, List.cons_append, List.append_assoc, skipString_number hhex', ih]

end Skipping

section Writing

theorem hexValue?_hexDigit : ∀ n < 16, hexValue? (hexDigit n) = some n := by decide

/-- The byte of an ASCII character is written as one of the spellings of the character. -/
theorem RendersText.escape {c : Char} (hc : c.toNat < 128) {ns : List Nat}
    (h : RendersText ns bs) : RendersText (c.toNat :: ns) (escape (ascii c) ++ bs) := by
  have hbytes := Bytes.utf8EncodeChar_of_lt hc
  rw [← Bytes.toNat_ascii hc]
  generalize hb : ascii c = b at hbytes
  have hletter {letter byte : UInt8} (hbyte : b = byte) (hmem : (letter, byte) ∈ shortEscapes) :
      RendersText (b.toNat :: ns) ([backslash, letter] ++ bs) := hbyte ▸ h.letter hmem
  unfold Json.escape
  split_ifs with hquote hbackslash h8 h12 h10 h13 h9 hcontrol
  · exact hletter hquote (by decide)
  · exact hletter hbackslash (by decide)
  · exact hletter h8 (by decide)
  · exact hletter h12 (by decide)
  · exact hletter h10 (by decide)
  · exact hletter h13 (by decide)
  · exact hletter h9 (by decide)
  · have hlt : b.toNat < 32 := hcontrol
    have hhex := RendersHex.mk (hexValue?_hexDigit 0 (by decide)) (hexValue?_hexDigit 0 (by decide))
      (hexValue?_hexDigit (b.toNat / 16) (by omega)) (hexValue?_hexDigit (b.toNat % 16) (by omega))
    have hvalue : 16 * (16 * (16 * 0 + 0) + b.toNat / 16) + b.toNat % 16 = b.toNat := by omega
    rw [hvalue] at hhex
    exact h.number hhex
  · subst hb
    have hle : 32 ≤ c.toNat := by
      rw [UInt8.lt_iff_toNat_lt, Bytes.toNat_ascii hc] at hcontrol
      exact Nat.not_lt.mp hcontrol
    have hplain := h.plain hle (fun heq => hquote (congrArg ascii heq))
      (fun heq => hbackslash (congrArg ascii heq))
    rwa [hbytes, ← Bytes.toNat_ascii hc] at hplain

theorem escape_of_plain {b : UInt8} (h : b ≠ quote ∧ b ≠ backslash ∧ ¬ b < 32) :
    escape b = [b] := by
  obtain ⟨hquote, hbackslash, hcontrol⟩ := h
  have hne (control : UInt8) (hlt : control < 32) : b ≠ control := by
    rintro rfl
    exact hcontrol hlt
  rw [escape, if_neg hquote, if_neg hbackslash, if_neg (hne 8 (by decide)),
    if_neg (hne 12 (by decide)), if_neg (hne 10 (by decide)), if_neg (hne 13 (by decide)),
    if_neg (hne 9 (by decide)), if_neg hcontrol]

/-- What is written of a string is one of its spellings. -/
theorem rendersText_escape (s : String) :
    RendersText (codes s) ((Bytes.ofString s).flatMap escape) := by
  have hbytes : Bytes.ofString s = s.toList.flatMap String.utf8EncodeChar := by
    rw [← Bytes.ofString_ofList, String.ofList_toList]
  rw [hbytes, codes]
  induction s.toList with
  | nil => exact .nil
  | cons c cs ih =>
    rw [List.flatMap_cons, List.flatMap_append, List.map_cons]
    by_cases hc : c.toNat < 128
    · rw [Bytes.utf8EncodeChar_of_lt hc, List.flatMap_singleton]
      exact ih.escape hc
    · -- The bytes of a longer character stand for themselves.
      have hne (d : Char) (hd : d.toNat < 128) : c ≠ d := by
        rintro rfl
        exact hc hd
      have hquote := hne '"' (by decide)
      have hbackslash := hne '\\' (by decide)
      have hself : (String.utf8EncodeChar c).flatMap escape = String.utf8EncodeChar c := by
        refine (List.flatMap_congr fun b hb => ?_).trans (List.flatMap_singleton' _)
        exact escape_of_plain (plain_of_mem (by omega) hquote hbackslash hb)
      rw [hself]
      exact ih.plain (by omega) hquote hbackslash

end Writing

end ExactCover.Json
