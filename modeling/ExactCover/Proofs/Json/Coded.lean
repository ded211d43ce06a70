import ExactCover.Json.Coded
import ExactCover.Proofs.Json.Numeral
import ExactCover.Proofs.Json.Text

namespace ExactCover.Json

/-- A type whose values stand for JSON values. -/
class Valued (α : Type) where
  value : α → Value

namespace Valued

/-- A string stands for the code points of its characters. -/
instance : Valued String := ⟨fun s => .string (codes s)⟩

/-- A character stands for a string of one code point. -/
instance : Valued Char := ⟨fun c => .string [c.toNat]⟩

/-- An integer stands for itself. -/
instance : Valued Int64 := ⟨fun n => .integer n.toInt⟩

instance : Valued UInt8 := ⟨fun n => .integer n.toNat⟩

instance : Valued UInt32 := ⟨fun n => .integer n.toNat⟩

/-- A pair stands for a sequence of two values. -/
instance {α β : Type} [Valued α] [Valued β] : Valued (α × β) :=
  ⟨fun pair => .array [value pair.1, value pair.2]⟩

/-- A list stands for the sequence of its values. -/
instance {α : Type} [Valued α] : Valued (List α) := ⟨fun xs => .array (xs.map value)⟩

end Valued

/-- A type whose values are read from any of their texts, with white space in front and up to where
    the text ends, and written as one of them. -/
class Legible (α : Type) [Coded α] [Valued α] : Prop where
  read_renders : ∀ {x : α} {before bs rest : Bytes}, Blank before →
    Renders (Valued.value x) bs → Ends rest → Coded.read (before ++ (bs ++ rest)) = .ok (x, rest)
  renders_write : ∀ x : α, Renders (Valued.value x) (Coded.write x)

variable {before bs rest : Bytes}

section Sequences

/-- What stands in front of an element or a member, apart from its own white space: nothing if it is
    the first one, else the comma. -/
inductive Leads : Bool → Bytes → Prop where
  | first : Leads true []
  | comma {after : Bytes} (hafter : Blank after) : Leads false (after ++ [ascii ','])

/-- A sequence is entered at its opening bracket. -/
theorem openSequence_bracket (hbefore : Blank before) (wanted : Shape) (bs : Bytes) :
    openSequence wanted (before ++ ascii '[' :: bs) = .ok bs := by
  rw [openSequence, hbefore.skipSpace_cons (by decide)]
  rfl

theorem closeSequence_bracket (hbefore : Blank before) (bs : Bytes) :
    closeSequence (before ++ ascii ']' :: bs) = .ok bs := by
  rw [closeSequence, hbefore.skipSpace_cons (by decide)]
  rfl

/-- At the closing bracket there are no more elements. -/
theorem nextElement_bracket (hbefore : Blank before) (first : Bool) (bs : Bytes) :
    nextElement first (before ++ ascii ']' :: bs) = .ok none := by
  rw [nextElement, hbefore.skipSpace_cons (by decide)]
  rfl

/-- The next element is found behind its comma, and the first one without a comma. -/
theorem nextElement_of_leads {first : Bool} {lead : Bytes} (hlead : Leads first lead)
    (hbefore : Blank before) (hbs : Begins bs) :
    nextElement first (lead ++ (before ++ bs)) = .ok (some bs) := by
  obtain ⟨b, bs, rfl, hspace, hclose⟩ := hbs
  cases hlead with
  | first =>
    rw [List.nil_append, nextElement, hbefore.skipSpace_cons hspace]
    simp only [hclose, if_false, if_true]
  | comma hafter =>
    have hne : ascii ',' ≠ ascii ']' := by decide
    rw [List.append_assoc, List.singleton_append, nextElement,
      hafter.skipSpace_cons (by decide)]
    simp only [hbefore.skipSpace_cons hspace, hclose, hne, if_false, if_true, Bool.false_eq_true]

/-- Every element is followed by a byte, be it that of the closing bracket. -/
theorem RendersElements.length_le {vs : List Value} (h : RendersElements vs bs) :
    vs.length ≤ bs.length + 1 := by
  induction vs generalizing bs with
  | nil => exact Nat.zero_le _
  | cons v vs ih =>
    cases h with
    | last => simp
    | cons _ hrest =>
      have hle := ih hrest
      simp only [List.length_append, List.length_cons]
      omega

variable {α β : Type} [Coded α] [Coded β] [Valued α] [Valued β] [Legible α] [Legible β]

/-- A value is read up to the white space behind it. -/
theorem RendersPadded.read {x : α} (h : RendersPadded (Valued.value x) bs) (hrest : Ends rest) :
    ∃ after, Blank after ∧ Coded.read (bs ++ rest) = .ok (x, after ++ rest) := by
  obtain ⟨hbefore, hbs, hafter⟩ := h
  refine ⟨_, hafter, ?_⟩
  rw [List.append_assoc, List.append_assoc]
  exact Legible.read_renders hbefore hbs (hrest.blank_append hafter)

/-- The next element is found behind what leads to it and read up to the white space behind it. -/
theorem RendersPadded.exists_next {x : α} (h : RendersPadded (Valued.value x) bs) {first : Bool}
    {lead : Bytes} (hlead : Leads first lead) (hrest : Ends rest) :
    ∃ element after, Blank after ∧
      nextElement first (lead ++ (bs ++ rest)) = .ok (some element) ∧
      Coded.read element = .ok (x, after ++ rest) := by
  obtain ⟨hbefore, hbs, hafter⟩ := h
  refine ⟨_, _, hafter, ?_, Legible.read_renders blank_nil hbs (hrest.blank_append hafter)⟩
  rw [List.append_assoc, List.append_assoc]
  exact nextElement_of_leads hlead hbefore (hbs.begins.append _)

/-- An element of a sequence is read from any text of it, up to the white space behind it. -/
theorem RendersPadded.readElement {x : α} (h : RendersPadded (Valued.value x) bs)
    (wanted : Shape) (index : Nat) {lead : Bytes} (hlead : Leads (index == 0) lead)
    (hrest : Ends rest) : ∃ after, Blank after ∧
      readElement wanted index Coded.read (lead ++ (bs ++ rest)) = .ok (x, after ++ rest) := by
  obtain ⟨element, after, hafter, hnext, hread⟩ := h.exists_next hlead hrest
  refine ⟨after, hafter, ?_⟩
  simp only [Json.readElement, hnext, hread, bind, Except.bind]

/-- The elements of a sequence are read up to the white space behind the last one. -/
theorem RendersElements.readElements {xs : List α} (h : RendersElements (xs.map Valued.value) bs)
    {limit : Nat} (hlimit : xs.length < limit) {first : Bool} {lead : Bytes}
    (hlead : Leads first lead) (rest : Bytes) :
    ∃ after, Blank after ∧
      readElements Coded.read limit first (lead ++ (bs ++ ascii ']' :: rest)) =
        .ok (xs, after ++ ascii ']' :: rest) := by
  induction xs generalizing bs limit first lead with
  | nil => cases h
  | cons x xs ih =>
    obtain ⟨limit, rfl⟩ := Nat.exists_eq_succ_of_ne_zero (Nat.ne_zero_of_lt hlimit)
    have hlimit := Nat.lt_of_succ_lt_succ hlimit
    rw [List.map_cons] at h
    generalize hvs : xs.map Valued.value = vs at h
    -- Behind an element stands the bracket, or a comma that leads to the next element.
    cases h with
    | last h =>
      obtain rfl := List.map_eq_nil_iff.mp hvs
      obtain ⟨limit, rfl⟩ := Nat.exists_eq_succ_of_ne_zero (Nat.ne_zero_of_lt hlimit)
      obtain ⟨element, after, hafter, hnext, hread⟩ := h.exists_next hlead (ends_bracket rest)
      refine ⟨after, hafter, ?_⟩
      simp only [Json.readElements, hnext, hread, nextElement_bracket hafter, bind, Except.bind,
        pure, Except.pure]
    | @cons _ _ _ others h hrest =>
      subst hvs
      rw [List.append_assoc, List.cons_append]
      obtain ⟨element, after, hafter, hnext, hread⟩ :=
        h.exists_next hlead (ends_comma (others ++ ascii ']' :: rest))
      obtain ⟨after', hafter', hothers⟩ := ih hrest hlimit (.comma hafter)
      rw [List.append_assoc, List.singleton_append] at hothers
      refine ⟨after', hafter', ?_⟩
      simp only [Json.readElements, hnext, hread, hothers, bind, Except.bind, pure, Except.pure]

/-- A list is read from any text of a sequence of its values. -/
theorem Renders.readList {xs : List α} (h : Renders (.array (xs.map Valued.value)) bs)
    (hbefore : Blank before) (rest : Bytes) :
    readList Coded.read (before ++ (bs ++ rest)) = .ok (xs, rest) := by
  generalize hvs : xs.map Valued.value = vs at h
  cases h with
  | emptyArray hblank =>
    obtain rfl := List.map_eq_nil_iff.mp hvs
    rw [List.cons_append, List.append_assoc, List.singleton_append]
    simp only [Json.readList, openSequence_bracket hbefore, Json.readElements,
      nextElement_bracket hblank, closeSequence_bracket hblank, bind, Except.bind, pure,
      Except.pure]
  | @array _ inner h =>
    subst hvs
    rw [List.cons_append, List.append_assoc, List.singleton_append]
    have hlimit : xs.length < (inner ++ ascii ']' :: rest).length + 1 := by
      have hle := h.length_le
      simp only [List.length_map] at hle
      simp only [List.length_append, List.length_cons]
      omega
    obtain ⟨after, hafter, hread⟩ := h.readElements hlimit .first rest
    rw [List.nil_append] at hread
    simp only [Json.readList, openSequence_bracket hbefore, hread, closeSequence_bracket hafter,
      bind, Except.bind, pure, Except.pure]

/-- A pair is read from any text of a sequence of its two values. -/
theorem Renders.readPair {pair : α × β} (h : Renders (Valued.value pair) bs)
    (hbefore : Blank before) (rest : Bytes) :
    readPair Coded.read Coded.read (before ++ (bs ++ rest)) = .ok (pair, rest) := by
  obtain ⟨x, y⟩ := pair
  cases h with
  | array h =>
    cases h with
    | @cons _ _ _ second hx h =>
      cases h with
      | last hy =>
        have hend := ends_comma (second ++ ascii ']' :: rest)
        obtain ⟨after, hafter, hfirst⟩ := hx.readElement .pair 0 .first hend
        obtain ⟨after', hafter', hsecond⟩ :=
          hy.readElement .pair 1 (.comma hafter) (ends_bracket rest)
        rw [List.nil_append] at hfirst
        rw [List.append_assoc, List.singleton_append] at hsecond
        rw [List.cons_append, List.append_assoc, List.append_assoc, List.cons_append,
          List.singleton_append]
        simp only [Json.readPair, openSequence_bracket hbefore, hfirst, hsecond,
          closeSequence_bracket hafter', bind, Except.bind, pure, Except.pure]
      | cons _ h => cases h

/-- White space around a value may be missing. -/
theorem Renders.padded {v : Value} (h : Renders v bs) : RendersPadded v bs := by
  simpa using RendersPadded.mk blank_nil h blank_nil

/-- What is written is a text of the value, with no white space around it. -/
theorem Legible.padded_write (x : α) : RendersPadded (Valued.value x) (Coded.write x) :=
  (Legible.renders_write x).padded

/-- Texts of one value or more with commas between them, and no white space. -/
theorem rendersElements_intercalate {v : Value} {bs : Bytes} {vs : List Value}
    {elements : List Bytes} (h : Renders v bs) (hvs : List.Forall₂ Renders vs elements) :
    RendersElements (v :: vs) ([ascii ','].intercalate (bs :: elements)) := by
  induction hvs generalizing v bs with
  | nil => simpa using RendersElements.last h.padded
  | cons hnext _ ih =>
    rw [List.intercalate_cons_cons, List.append_assoc]
    exact .cons h.padded (ih hnext)

/-- Texts between brackets, with commas between them, are a text of the sequence. -/
theorem renders_writeSequence {vs : List Value} {elements : List Bytes}
    (h : List.Forall₂ Renders vs elements) : Renders (.array vs) (writeSequence elements) := by
  cases h with
  | nil => exact .emptyArray blank_nil
  | cons hv hvs => exact .array (rendersElements_intercalate hv hvs)

/-- A list is legible if its elements are. -/
instance : Legible (List α) where
  read_renders hbefore h _ := h.readList hbefore _
  renders_write xs := by
    refine renders_writeSequence ?_
    induction xs with
    | nil => exact .nil
    | cons x xs ih => exact .cons (Legible.renders_write x) ih

instance : Legible (α × β) where
  read_renders hbefore h _ := h.readPair hbefore _
  renders_write pair := renders_writeSequence
    (.cons (Legible.renders_write pair.1) (.cons (Legible.renders_write pair.2) .nil))

end Sequences

section Strings

/-- What is written of a string is a text of it. -/
theorem renders_writeString (s : String) : Renders (.string (codes s)) (writeString s) :=
  .string (rendersText_escape s)

/-- A string is read from any spelling of it. -/
theorem Renders.readText {s : String} (h : Renders (.string (codes s)) bs) (hbefore : Blank before)
    (wanted : Shape) (rest : Bytes) :
    readText wanted (before ++ (bs ++ rest)) = .ok (s, rest) := by
  cases h with
  | string h =>
    rw [List.cons_append, List.append_assoc, Json.readText, hbefore.skipSpace_cons (by decide)]
    exact h.readString rest

/-- Strings are read from any spelling and written as one of them. -/
instance : Legible String where
  read_renders hbefore h _ := h.readText hbefore .string _
  renders_write := renders_writeString

/-- Characters are read from strings of one code point. -/
instance : Legible Char where
  read_renders {c before bs rest} hbefore h _ := by
    have hcodes : codes c.toString = [c.toNat] := by simp [codes]
    have htext : Renders (.string (codes c.toString)) bs := hcodes ▸ h
    change readCharacter (before ++ (bs ++ rest)) = _
    simp [readCharacter, htext.readText hbefore, bind, Except.bind]
  renders_write c := by
    have hcodes : codes c.toString = [c.toNat] := by simp [codes]
    have htext := renders_writeString c.toString
    rwa [hcodes] at htext

end Strings

section Integers

/-- All numerals within 64 bits with a sign are read. -/
instance : Legible Int64 where
  read_renders {n before bs rest} hbefore h hrest := by
    have hread := h.readInteger .signed64 (Int64.minValue_le_toInt n) (Int64.toInt_le n)
      (by decide) (by decide) hbefore hrest
    change (readInteger .signed64 _ _ (before ++ (bs ++ rest)) >>= _) = _
    rw [hread]
    simp [bind, Except.bind, pure, Except.pure]
  renders_write n := renders_writeInteger n.toInt

/-- Numbers up to a bound are read. -/
theorem Renders.readNatural {n greatest : Nat} (h : Renders (.integer n) bs) (wanted : Shape)
    (hn : n ≤ greatest) (hgreatest : greatest < UInt64.size) (hbefore : Blank before)
    (hrest : Ends rest) :
    Json.readInteger wanted 0 greatest (before ++ (bs ++ rest)) = .ok ((n : Int), rest) :=
  h.readInteger wanted (Int.natCast_nonneg n) (Int.ofNat_le.mpr hn) (by decide)
    (Int.ofNat_lt.mpr hgreatest) hbefore hrest

instance : Legible UInt8 where
  read_renders {n before bs rest} hbefore h hrest := by
    have hread := h.readNatural .unsigned8 (Nat.le_pred_of_lt n.toNat_lt) (by decide) hbefore hrest
    change (readInteger .unsigned8 _ _ (before ++ (bs ++ rest)) >>= _) = _
    have hgreatest : (UInt8.size : Int) - 1 = ((2 ^ 8).pred : Nat) := rfl
    rw [hgreatest, hread]
    simp [bind, Except.bind, pure, Except.pure]
  renders_write n := renders_writeInteger n.toNat

instance : Legible UInt32 where
  read_renders {n before bs rest} hbefore h hrest := by
    have hread := h.readNatural .unsigned32 (Nat.le_pred_of_lt n.toNat_lt) (by decide) hbefore hrest
    change (readInteger .unsigned32 _ _ (before ++ (bs ++ rest)) >>= _) = _
    have hgreatest : (UInt32.size : Int) - 1 = ((2 ^ 32).pred : Nat) := rfl
    rw [hgreatest, hread]
    simp [bind, Except.bind, pure, Except.pure]
  renders_write n := renders_writeInteger n.toNat

end Integers

end ExactCover.Json
