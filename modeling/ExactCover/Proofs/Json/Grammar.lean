import ExactCover.Json.Numeral
import ExactCover.Json.Text
import Mathlib.Data.List.TakeWhile

namespace ExactCover.Json

/-- A JSON value. Numbers are told by their digits and so may have any size. Strings are told by
    their code points, among which may be surrogates that belong to no character. -/
inductive Value where
  | null
  | boolean (value : Bool)
  | number (negative : Bool) (digits : Numeral)
  | string (codes : List Nat)
  | array (elements : List Value)
  | object (members : List (List Nat × Value))

/-- The code points of a string. -/
def codes (s : String) : List Nat := s.toList.map Char.toNat

/-- Whether bytes are white space. -/
def Blank (bs : Bytes) : Prop := ∀ b ∈ bs, isSpace b = true

/-- The byte of a digit. -/
def digitByte (d : Nat) : UInt8 := ascii (Decimal.digitChar d)

/-- One digit or more. -/
inductive RendersDigits : List Nat → Bytes → Prop where
  | mk {ds : List Nat} (hne : ds ≠ []) (hlt : ∀ d ∈ ds, d < 10) :
      RendersDigits ds (ds.map digitByte)

/-- The digits after the point, if there is one. -/
inductive RendersFraction : List Nat → Bytes → Prop where
  | none : RendersFraction [] []
  | some {ds : List Nat} {bs : Bytes} (h : RendersDigits ds bs) :
      RendersFraction ds (ascii '.' :: bs)

/-- The sign of a power of ten. -/
inductive RendersSign : Bool → Bytes → Prop where
  | none : RendersSign false []
  | plus : RendersSign false [ascii '+']
  | minus : RendersSign true [ascii '-']

/-- The power of ten, if there is one. -/
inductive RendersPower : Option (Bool × List Nat) → Bytes → Prop where
  | none : RendersPower .none []
  | some {letter : UInt8} {negative : Bool} {sign bs : Bytes} {ds : List Nat}
      (hletter : letter = ascii 'e' ∨ letter = ascii 'E') (hsign : RendersSign negative sign)
      (h : RendersDigits ds bs) : RendersPower (.some (negative, ds)) (letter :: (sign ++ bs))

/-- A number without its sign. A zero in front of the point is followed by no other digit there. -/
inductive RendersNumeral : Numeral → Bytes → Prop where
  | mk {x : Numeral} {whole fraction power : Bytes} (hwhole : RendersDigits x.whole whole)
      (hzero : x.whole.head? = some 0 → x.whole = [0])
      (hfraction : RendersFraction x.fraction fraction) (hpower : RendersPower x.power power) :
      RendersNumeral x (whole ++ (fraction ++ power))

/-- Four hexadecimal digits, each in upper or lower case. -/
inductive RendersHex : Nat → Bytes → Prop where
  | mk {a b c d : UInt8} {w x y z : Nat} (ha : hexValue? a = some w) (hb : hexValue? b = some x)
      (hc : hexValue? c = some y) (hd : hexValue? d = some z) :
      RendersHex (16 * (16 * (16 * w + x) + y) + z) [a, b, c, d]

/-- Code points between quotation marks. -/
inductive RendersText : List Nat → Bytes → Prop where
  | nil : RendersText [] []
  /-- A character as it is; control characters, quotation marks and backslashes are escaped. -/
  | plain {c : Char} {cs : List Nat} {bs : Bytes} (hcontrol : 32 ≤ c.toNat) (hquote : c ≠ '"')
      (hbackslash : c ≠ '\\') (h : RendersText cs bs) :
      RendersText (c.toNat :: cs) (String.utf8EncodeChar c ++ bs)
  /-- An escape by letter. -/
  | letter {letter b : UInt8} {cs : List Nat} {bs : Bytes} (hletter : (letter, b) ∈ shortEscapes)
      (h : RendersText cs bs) : RendersText (b.toNat :: cs) (backslash :: letter :: bs)
  /-- An escape by number, below U+10000. -/
  | number {n : Nat} {cs : List Nat} {hex bs : Bytes} (hhex : RendersHex n hex)
      (h : RendersText cs bs) : RendersText (n :: cs) (backslash :: ascii 'u' :: (hex ++ bs))
  /-- Two escapes by number for one code point from U+10000 on. -/
  | pair {leading trailing : Nat} {cs : List Nat} {hex hex' bs : Bytes}
      (hleading : 0xD800 ≤ leading ∧ leading ≤ 0xDBFF)
      (htrailing : 0xDC00 ≤ trailing ∧ trailing ≤ 0xDFFF) (hhex : RendersHex leading hex)
      (hhex' : RendersHex trailing hex') (h : RendersText cs bs) :
      RendersText ((0x10000 + (leading - 0xD800) * 0x400 + (trailing - 0xDC00)) :: cs)
        (backslash :: ascii 'u' :: (hex ++ backslash :: ascii 'u' :: (hex' ++ bs)))

/-- A name in a map, between white space. -/
inductive RendersName : List Nat → Bytes → Prop where
  | mk {name : List Nat} {before bs after : Bytes} (hbefore : Blank before)
      (h : RendersText name bs) (hafter : Blank after) :
      RendersName name (before ++ (quote :: (bs ++ (quote :: after))))

mutual

/-- The texts of a value, from its first byte to its last one. White space, the spelling of strings
    and the form of a power of ten are free; everything else follows from the value. -/
inductive Renders : Value → Bytes → Prop where
  | null : Renders .null (Bytes.ofString "null")
  | boolean (value : Bool) :
      Renders (.boolean value) (Bytes.ofString (if value then "true" else "false"))
  | number {x : Numeral} {bs : Bytes} (h : RendersNumeral x bs) : Renders (.number false x) bs
  | negative {x : Numeral} {bs : Bytes} (h : RendersNumeral x bs) :
      Renders (.number true x) (ascii '-' :: bs)
  | string {codes : List Nat} {bs : Bytes} (h : RendersText codes bs) :
      Renders (.string codes) (quote :: (bs ++ [quote]))
  | emptyArray {bs : Bytes} (h : Blank bs) :
      Renders (.array []) (ascii '[' :: (bs ++ [ascii ']']))
  | array {elements : List Value} {bs : Bytes} (h : RendersElements elements bs) :
      Renders (.array elements) (ascii '[' :: (bs ++ [ascii ']']))
  | emptyObject {bs : Bytes} (h : Blank bs) :
      Renders (.object []) (ascii '\x7b' :: (bs ++ [ascii '\x7d']))
  | object {members : List (List Nat × Value)} {bs : Bytes} (h : RendersMembers members bs) :
      Renders (.object members) (ascii '\x7b' :: (bs ++ [ascii '\x7d']))

/-- The texts of a value between white space. -/
inductive RendersPadded : Value → Bytes → Prop where
  | mk {v : Value} {before bs after : Bytes} (hbefore : Blank before) (h : Renders v bs)
      (hafter : Blank after) : RendersPadded v (before ++ (bs ++ after))

/-- One element or more, with commas between them. -/
inductive RendersElements : List Value → Bytes → Prop where
  | last {v : Value} {bs : Bytes} (h : RendersPadded v bs) : RendersElements [v] bs
  | cons {v : Value} {vs : List Value} {bs rest : Bytes} (h : RendersPadded v bs)
      (hrest : RendersElements vs rest) : RendersElements (v :: vs) (bs ++ (ascii ',' :: rest))

/-- One member or more, with commas between them. -/
inductive RendersMembers : List (List Nat × Value) → Bytes → Prop where
  | last {name : List Nat} {v : Value} {label bs : Bytes} (hname : RendersName name label)
      (h : RendersPadded v bs) : RendersMembers [(name, v)] (label ++ (ascii ':' :: bs))
  | cons {name : List Nat} {v : Value} {members : List (List Nat × Value)} {label bs rest : Bytes}
      (hname : RendersName name label) (h : RendersPadded v bs)
      (hrest : RendersMembers members rest) :
      RendersMembers ((name, v) :: members)
        (label ++ (ascii ':' :: (bs ++ (ascii ',' :: rest))))

end

/-- Whether bytes begin like a value: not with white space, and not where a sequence closes. -/
def Begins (bs : Bytes) : Prop :=
  ∃ b rest, bs = b :: rest ∧ isSpace b = false ∧ b ≠ ascii ']'

/-- What may follow a value: the end, white space, or a byte that is part of no value. -/
def Ends (rest : Bytes) : Prop :=
  ∀ b ∈ rest.head?, isSpace b = true ∨ b = ascii ',' ∨ b = ascii ']' ∨ b = ascii '\x7d'

variable {bs rest : Bytes}

theorem blank_nil : Blank [] := fun _ hb => absurd hb List.not_mem_nil

theorem skipSpace_cons {b : UInt8} (h : isSpace b = false) (bs : Bytes) :
    skipSpace (b :: bs) = b :: bs := by
  rw [skipSpace, List.dropWhile_cons_of_neg (by simp [h])]

theorem Blank.skipSpace_append (h : Blank bs) (rest : Bytes) :
    skipSpace (bs ++ rest) = skipSpace rest := List.dropWhile_append_of_pos h

/-- White space is passed over up to the first other byte. -/
theorem Blank.skipSpace_cons (h : Blank bs) {b : UInt8} (hb : isSpace b = false) (rest : Bytes) :
    skipSpace (bs ++ b :: rest) = b :: rest :=
  (h.skipSpace_append _).trans (Json.skipSpace_cons hb rest)

theorem Begins.append (h : Begins bs) (rest : Bytes) : Begins (bs ++ rest) := by
  obtain ⟨b, bs, rfl, hb⟩ := h
  exact ⟨b, bs ++ rest, rfl, hb⟩

theorem ends_comma (rest : Bytes) : Ends (ascii ',' :: rest) := by simp [Ends]

theorem ends_bracket (rest : Bytes) : Ends (ascii ']' :: rest) := by simp [Ends]

theorem ends_brace (rest : Bytes) : Ends (ascii '\x7d' :: rest) := by simp [Ends]

/-- White space in front of an end is an end too. -/
theorem Ends.blank_append (h : Ends rest) (hblank : Blank bs) : Ends (bs ++ rest) := by
  cases bs with
  | nil => exact h
  | cons b bs =>
    intro c hc
    obtain rfl : b = c := by simpa using hc
    exact .inl (hblank b List.mem_cons_self)

/-- A byte behind a value goes on with no number. -/
theorem Ends.not_numeral (h : Ends rest) : ∀ b ∈ rest.head?,
    isDigit b = false ∧ b ≠ ascii '.' ∧ b ≠ ascii 'e' ∧ b ≠ ascii 'E' := by
  intro b hb
  obtain hspace | rfl | rfl | rfl := h b hb
  · simp only [isSpace, Bool.or_eq_true, beq_iff_eq, or_assoc] at hspace
    obtain rfl | rfl | rfl | rfl := hspace <;> decide
  all_goals decide

theorem isDigit_digitByte : ∀ d < 10, isDigit (digitByte d) = true := by decide

theorem isSpace_of_isDigit {b : UInt8} (h : isDigit b = true) : isSpace b = false := by
  cases hspace : isSpace b with
  | false => rfl
  | true =>
    simp only [isSpace, Bool.or_eq_true, beq_iff_eq, or_assoc] at hspace
    obtain rfl | rfl | rfl | rfl := hspace <;> exact absurd h (by decide)

theorem RendersDigits.exists_eq_cons {ds : List Nat} (h : RendersDigits ds bs) (rest : Bytes) :
    ∃ b bs', bs ++ rest = b :: bs' ∧ isDigit b = true := by
  obtain ⟨hne, hlt⟩ := h
  obtain ⟨d, ds, rfl⟩ := List.exists_cons_of_ne_nil hne
  exact ⟨_, _, rfl, isDigit_digitByte d (hlt d List.mem_cons_self)⟩

theorem RendersNumeral.exists_eq_cons {x : Numeral} (h : RendersNumeral x bs) :
    ∃ b bs', bs = b :: bs' ∧ isDigit b = true := by
  obtain ⟨hwhole, -, -, -⟩ := h
  exact hwhole.exists_eq_cons _

theorem Renders.number_begins {negative : Bool} {x : Numeral}
    (h : Renders (.number negative x) bs) :
    ∃ b bs', bs = b :: bs' ∧ (b = ascii '-' ∨ isDigit b = true) ∧ isSpace b = false := by
  cases h with
  | number h =>
    obtain ⟨b, bs, rfl, hdigit⟩ := h.exists_eq_cons
    exact ⟨b, bs, rfl, .inr hdigit, isSpace_of_isDigit hdigit⟩
  | negative => exact ⟨_, _, rfl, .inl rfl, by decide⟩

/-- A text of a value begins with what begins a value. -/
theorem Renders.begins {v : Value} (h : Renders v bs) : Begins bs := by
  cases h with
  | null => exact ⟨_, _, rfl, by decide, by decide⟩
  | boolean value => cases value <;> exact ⟨_, _, rfl, by decide, by decide⟩
  | number h =>
    obtain ⟨b, rest, rfl, hdigit⟩ := h.exists_eq_cons
    refine ⟨b, rest, rfl, isSpace_of_isDigit hdigit, ?_⟩
    rintro rfl
    exact absurd hdigit (by decide)
  | negative => exact ⟨_, _, rfl, by decide, by decide⟩
  | string => exact ⟨_, _, rfl, by decide, by decide⟩
  | emptyArray => exact ⟨_, _, rfl, by decide, by decide⟩
  | array => exact ⟨_, _, rfl, by decide, by decide⟩
  | emptyObject => exact ⟨_, _, rfl, by decide, by decide⟩
  | object => exact ⟨_, _, rfl, by decide, by decide⟩

end ExactCover.Json
