import ExactCover.Json.Skip
import ExactCover.Proofs.Json.Numeral
import ExactCover.Proofs.Json.Text
import Mathlib.Data.List.DropRight

namespace ExactCover.Json

variable {before bs rest : Bytes}

theorem skipSpace_skipSpace (bs : Bytes) : skipSpace (skipSpace bs) = skipSpace bs :=
  List.dropWhile_idempotent isSpace bs

section Names

theorem RendersName.skipName {name : List Nat} (h : RendersName name bs) (rest : Bytes) :
    skipName (bs ++ ascii ':' :: rest) = .ok rest := by
  obtain ⟨hbefore, h, hafter⟩ := h
  rw [List.append_assoc, List.cons_append, List.append_assoc, List.cons_append, Json.skipName,
    hbefore.skipSpace_cons (by decide)]
  simp only [ne_eq, not_true_eq_false, if_false, h.skipString, bind, Except.bind,
    hafter.skipSpace_cons (show isSpace (ascii ':') = false by decide), if_true]

theorem skipName_skipSpace (bs : Bytes) : skipName (skipSpace bs) = skipName bs := by
  rw [skipName, skipName, skipSpace_skipSpace]

end Names

section Scalars

theorem word_append (w rest : Bytes) : word w (w ++ rest) = .ok rest := by
  induction w with
  | nil => rfl
  | cons b w ih => rw [List.cons_append, word, if_pos rfl, ih]

/-- A byte that begins neither a sequence nor a map begins a value that is not nested. -/
theorem skipNested_scalar {b : UInt8} (hspace : isSpace b = false) (hbracket : b ≠ ascii '[')
    (hbrace : b ≠ ascii '\x7b') (limit : Nat) (bs : Bytes) :
    skipNested (limit + 1) (b :: bs) = skipScalar (b :: bs) := by
  rw [skipNested, skipSpace_cons hspace]
  simp only [hbracket, hbrace, if_false]

theorem Renders.skipNested_number {negative : Bool} {x : Numeral}
    (h : Renders (.number negative x) bs) (hrest : Ends rest) (limit : Nat) :
    skipNested (limit + 1) (bs ++ rest) = .ok rest := by
  have hskip : skipNumber (bs ++ rest) = .ok rest := by
    cases h with
    | number h => exact h.skipNumber hrest
    | negative h => exact h.skipNumber_minus hrest
  obtain ⟨b, bs, rfl, hb, hspace⟩ := h.number_begins
  have hne (c : UInt8) (hminus : c ≠ ascii '-') (hdigit : isDigit c = false) : b ≠ c := by
    rintro rfl
    simp [hminus, hdigit] at hb
  rw [List.cons_append] at hskip ⊢
  rw [skipNested_scalar hspace (hne _ (by decide) (by decide)) (hne _ (by decide) (by decide)),
    skipScalar, if_neg (hne _ (by decide) (by decide)), if_neg (hne _ (by decide) (by decide)),
    if_neg (hne _ (by decide) (by decide)), if_neg (hne _ (by decide) (by decide)), if_pos hb,
    hskip]

end Scalars

section Nested

theorem skipNested_skipSpace (limit : Nat) (bs : Bytes) :
    skipNested limit (skipSpace bs) = skipNested limit bs := by
  cases limit with
  | zero => rw [skipNested, skipNested]
  | succ limit => rw [skipNested, skipNested, skipSpace_skipSpace]

theorem skipElements_skipSpace (limit : Nat) (bs : Bytes) :
    skipElements limit (skipSpace bs) = skipElements limit bs := by
  cases limit with
  | zero => rw [skipElements, skipElements]
  | succ limit => rw [skipElements, skipElements, skipNested_skipSpace]

theorem skipMembers_skipSpace (limit : Nat) (bs : Bytes) :
    skipMembers limit (skipSpace bs) = skipMembers limit bs := by
  cases limit with
  | zero => rw [skipMembers, skipMembers]
  | succ limit => rw [skipMembers, skipMembers, skipName_skipSpace]

theorem skipNested_bracket (hbs : ∃ c rest, skipSpace bs = c :: rest ∧ c ≠ ascii ']')
    (limit : Nat) : skipNested (limit + 1) (ascii '[' :: bs) = skipElements limit bs := by
  obtain ⟨c, rest, hspace, hc⟩ := hbs
  rw [← skipElements_skipSpace, skipNested, skipSpace_cons (by decide)]
  simp only [if_true, hspace, hc, if_false]

theorem skipNested_brace (hbs : ∃ c rest, skipSpace bs = c :: rest ∧ c ≠ ascii '\x7d')
    (limit : Nat) : skipNested (limit + 1) (ascii '\x7b' :: bs) = skipMembers limit bs := by
  obtain ⟨c, rest, hspace, hc⟩ := hbs
  have hne : ascii '\x7b' ≠ ascii '[' := by decide
  rw [← skipMembers_skipSpace, skipNested, skipSpace_cons (by decide)]
  simp only [hne, if_true, hspace, hc, if_false]

/-- Behind white space, elements begin with something else than the closing bracket. -/
theorem RendersElements.skipSpace {vs : List Value} (h : RendersElements vs bs) (rest : Bytes) :
    ∃ c rest', skipSpace (bs ++ rest) = c :: rest' ∧ c ≠ ascii ']' := by
  have hpadded {v : Value} {bs : Bytes} (h : RendersPadded v bs) (rest : Bytes) :
      ∃ c rest', Json.skipSpace (bs ++ rest) = c :: rest' ∧ c ≠ ascii ']' := by
    obtain ⟨hbefore, h, -⟩ := h
    obtain ⟨c, bs, rfl, hspace, hc⟩ := h.begins
    rw [List.append_assoc]
    exact ⟨c, _, hbefore.skipSpace_cons hspace _, hc⟩
  cases h with
  | last h => exact hpadded h rest
  | cons h _ =>
    rw [List.append_assoc]
    exact hpadded h _

theorem RendersMembers.skipSpace {members : List (List Nat × Value)} (h : RendersMembers members bs)
    (rest : Bytes) : ∃ c rest', skipSpace (bs ++ rest) = c :: rest' ∧ c ≠ ascii '\x7d' := by
  have hlabel {name : List Nat} {label : Bytes} (h : RendersName name label) (rest : Bytes) :
      ∃ c rest', Json.skipSpace (label ++ rest) = c :: rest' ∧ c ≠ ascii '\x7d' := by
    obtain ⟨hbefore, -, -⟩ := h
    rw [List.append_assoc]
    exact ⟨quote, _, hbefore.skipSpace_cons (by decide) _, by decide⟩
  cases h with
  | last h _ =>
    rw [List.append_assoc]
    exact hlabel h _
  | cons h _ _ =>
    rw [List.append_assoc]
    exact hlabel h _

/-- What a limit is enough for: a value half as long, and as much of a sequence or a map behind its
    opening bracket. -/
structure Suffices (limit : Nat) : Prop where
  nested : ∀ {v : Value} {bs rest : Bytes}, Renders v bs → 2 * bs.length ≤ limit + 1 →
    Ends rest → skipNested limit (bs ++ rest) = .ok rest
  elements : ∀ {vs : List Value} {bs : Bytes} (rest : Bytes), RendersElements vs bs →
    2 * bs.length ≤ limit → skipElements limit (bs ++ ascii ']' :: rest) = .ok rest
  members : ∀ {members : List (List Nat × Value)} {bs : Bytes} (rest : Bytes),
    RendersMembers members bs → 2 * bs.length ≤ limit →
      skipMembers limit (bs ++ ascii '\x7d' :: rest) = .ok rest

/-- White space in front of a value is passed over, and what is behind it is left. -/
theorem Suffices.padded {limit : Nat} (h : Suffices limit) {v : Value}
    (hv : RendersPadded v bs) (hlimit : 2 * bs.length ≤ limit + 1) (hrest : Ends rest) :
    ∃ after, Blank after ∧ skipNested limit (bs ++ rest) = .ok (after ++ rest) := by
  obtain ⟨hbefore, hv, hafter⟩ := hv
  refine ⟨_, hafter, ?_⟩
  simp only [List.length_append] at hlimit
  rw [← skipNested_skipSpace, List.append_assoc, hbefore.skipSpace_append, skipNested_skipSpace,
    List.append_assoc]
  exact h.nested hv (by omega) (hrest.blank_append hafter)

theorem suffices_zero : Suffices 0 where
  nested h hlimit _ := by
    obtain ⟨b, bs, rfl, -⟩ := h.begins
    simp only [List.length_cons] at hlimit
    omega
  elements {_ bs} _ h hlimit := by
    obtain ⟨b, rest, heq, -⟩ := h.skipSpace []
    obtain rfl : bs = [] := List.eq_nil_of_length_eq_zero (by omega)
    cases heq
  members {_ bs} _ h hlimit := by
    obtain ⟨b, rest, heq, -⟩ := h.skipSpace []
    obtain rfl : bs = [] := List.eq_nil_of_length_eq_zero (by omega)
    cases heq

variable {limit : Nat}

/-- If a limit suffices, one more allows another bracket. -/
theorem Suffices.succ_nested (ih : Suffices limit) {v : Value} (h : Renders v bs)
    (hlimit : 2 * bs.length ≤ limit + 2) (hrest : Ends rest) :
    skipNested (limit + 1) (bs ++ rest) = .ok rest := by
  have hscalar {b : UInt8} (hspace : isSpace b = false) (hbracket : b ≠ ascii '[')
      (hbrace : b ≠ ascii '\x7b') {bs rest' : Bytes} (h : skipScalar (b :: bs) = .ok rest') :
      skipNested (limit + 1) (b :: bs) = .ok rest' :=
    (skipNested_scalar hspace hbracket hbrace limit bs).trans h
  cases h with
  | null => exact hscalar (by decide) (by decide) (by decide) (word_append _ _)
  | boolean value =>
    cases value
    all_goals exact hscalar (by decide) (by decide) (by decide) (word_append _ _)
  | number h => exact (Renders.number h).skipNested_number hrest limit
  | negative h => exact (Renders.negative h).skipNested_number hrest limit
  | string h =>
    rw [List.cons_append, List.append_assoc]
    exact hscalar (by decide) (by decide) (by decide) (h.skipString rest)
  | emptyArray hblank =>
    have hclose := hblank.skipSpace_cons (show isSpace (ascii ']') = false by decide) rest
    rw [List.cons_append, List.append_assoc, skipNested, skipSpace_cons (by decide)]
    simp only [if_true, List.singleton_append, hclose]
  | array h =>
    simp only [List.length_cons, List.length_append] at hlimit
    rw [List.cons_append, List.append_assoc, skipNested_bracket (h.skipSpace _)]
    exact ih.elements rest h (by omega)
  | emptyObject hblank =>
    have hclose := hblank.skipSpace_cons (show isSpace (ascii '\x7d') = false by decide) rest
    have hne : ascii '\x7b' ≠ ascii '[' := by decide
    rw [List.cons_append, List.append_assoc, skipNested, skipSpace_cons (by decide)]
    simp only [hne, if_true, if_false, List.singleton_append, hclose]
  | object h =>
    simp only [List.length_cons, List.length_append] at hlimit
    rw [List.cons_append, List.append_assoc, skipNested_brace (h.skipSpace _)]
    exact ih.members rest h (by omega)

/-- Behind an element stands the bracket, or a comma and further elements. -/
theorem Suffices.succ_elements (ih : Suffices limit) {vs : List Value} (h : RendersElements vs bs)
    (hlimit : 2 * bs.length ≤ limit + 1) (rest : Bytes) :
    skipElements (limit + 1) (bs ++ ascii ']' :: rest) = .ok rest := by
  cases h with
  | last h =>
    obtain ⟨after, hafter, hskip⟩ := ih.padded h hlimit (ends_bracket rest)
    have hclose := hafter.skipSpace_cons (show isSpace (ascii ']') = false by decide) rest
    have hne : ascii ']' ≠ ascii ',' := by decide
    simp only [skipElements, hskip, hclose, hne, if_false, if_true, bind, Except.bind]
  | @cons _ _ _ others h hothers =>
    simp only [List.length_append, List.length_cons] at hlimit
    have hskip := ih.elements rest hothers (by omega)
    generalize hbehind : others ++ ascii ']' :: rest = behind at hskip
    obtain ⟨after, hafter, hfirst⟩ := ih.padded h (by omega) (ends_comma behind)
    have hcomma := hafter.skipSpace_cons (show isSpace (ascii ',') = false by decide) behind
    rw [List.append_assoc, List.cons_append, hbehind]
    simp only [skipElements, hfirst, hcomma, if_true, hskip, bind, Except.bind]

theorem Suffices.succ_members (ih : Suffices limit) {members : List (List Nat × Value)}
    (h : RendersMembers members bs) (hlimit : 2 * bs.length ≤ limit + 1) (rest : Bytes) :
    skipMembers (limit + 1) (bs ++ ascii '\x7d' :: rest) = .ok rest := by
  cases h with
  | last hname h =>
    simp only [List.length_append, List.length_cons] at hlimit
    obtain ⟨after, hafter, hskip⟩ := ih.padded h (by omega) (ends_brace rest)
    have hclose := hafter.skipSpace_cons (show isSpace (ascii '\x7d') = false by decide) rest
    have hne : ascii '\x7d' ≠ ascii ',' := by decide
    rw [List.append_assoc, List.cons_append]
    simp only [skipMembers, hname.skipName, hskip, hclose, hne, if_false, if_true, bind,
      Except.bind]
  | @cons _ _ _ _ _ others hname h hothers =>
    simp only [List.length_append, List.length_cons] at hlimit
    have hskip := ih.members rest hothers (by omega)
    generalize hbehind : others ++ ascii '\x7d' :: rest = behind at hskip
    obtain ⟨after, hafter, hfirst⟩ := ih.padded h (by omega) (ends_comma behind)
    have hcomma := hafter.skipSpace_cons (show isSpace (ascii ',') = false by decide) behind
    rw [List.append_assoc, List.cons_append, List.append_assoc, List.cons_append, hbehind]
    simp only [skipMembers, hname.skipName, hfirst, hcomma, if_true, hskip, bind, Except.bind]

/-- Any limit is enough for what its size allows. -/
theorem limit_suffices (limit : Nat) : Suffices limit := by
  induction limit with
  | zero => exact suffices_zero
  | succ limit ih => exact ⟨ih.succ_nested, fun rest h hlimit => ih.succ_elements h hlimit rest,
      fun rest h hlimit => ih.succ_members h hlimit rest⟩

/-- Any text of a value is passed over, up to the white space behind it. -/
theorem RendersPadded.skipValue {v : Value} (h : RendersPadded v bs) (hrest : Ends rest) :
    ∃ after, Blank after ∧ skipValue (bs ++ rest) = .ok (after ++ rest) :=
  (limit_suffices _).padded h (by simp only [List.length_append]; omega) hrest

end Nested

end ExactCover.Json
