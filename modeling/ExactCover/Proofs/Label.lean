import ExactCover.Event
import ExactCover.Proofs.Json.Numeral
import ExactCover.Proofs.Table.Cell

namespace ExactCover

namespace Quoted

/-- The value of a hexadecimal digit. -/
def hexValue (c : Char) : Nat := ((List.range 16).find? fun d => Nat.digitChar d = c).getD 0

theorem hexValue_digitChar : ∀ d < 16, hexValue (Nat.digitChar d) = d := by decide

/-- The number that hexadecimal digits stand for, most significant first. -/
def hexNumber (cs : List Char) : Nat := cs.foldl (fun n c => 16 * n + hexValue c) 0

/-- A number is read back from its hexadecimal digits. -/
theorem hexNumber_toDigits (n : Nat) : hexNumber (Nat.toDigits 16 n) = n := by
  induction n using Nat.strongRecOn with
  | ind n ih =>
    rw [Nat.toDigits_eq_if (by decide)]
    split
    · rename_i h
      simp [hexNumber, hexValue_digitChar n h]
    · rename_i h
      have hdigit := hexValue_digitChar (n % 16) (Nat.mod_lt n (by decide))
      rw [hexNumber, List.foldl_append, List.foldl_cons, List.foldl_nil, hdigit]
      change 16 * hexNumber (Nat.toDigits 16 (n / 16)) + n % 16 = n
      rw [ih (n / 16) (by omega), Nat.div_add_mod]

/-- The brace that closes a number is none of its digits. -/
theorem brace_not_mem_toDigits (n : Nat) : '\x7d' ∉ Nat.toDigits 16 n := by
  have hdigit : ∀ d < 16, '\x7d' ≠ Nat.digitChar d := by decide
  induction n using Nat.strongRecOn with
  | ind n ih =>
    rw [Nat.toDigits_eq_if (by decide)]
    split
    · rename_i h
      exact List.mem_singleton.not.mpr (hdigit n h)
    · rename_i h
      rw [List.mem_append, List.mem_singleton, not_or]
      exact ⟨ih (n / 16) (by omega), hdigit (n % 16) (Nat.mod_lt n (by decide))⟩

/-- Reads one character of a quoted text back, with the text behind it. -/
def unescape : List Char → Option (Char × List Char)
  | '\\' :: 'u' :: rest =>
    let hex := rest.tail.takeWhile (· ≠ '\x7d')
    some (Char.ofNat (hexNumber hex), (rest.tail.dropWhile (· ≠ '\x7d')).tail)
  | '\\' :: '0' :: rest => some ('\x00', rest)
  | '\\' :: 't' :: rest => some ('\t', rest)
  | '\\' :: 'r' :: rest => some ('\r', rest)
  | '\\' :: 'n' :: rest => some ('\n', rest)
  | '\\' :: c :: rest => some (c, rest)
  | c :: rest => some (c, rest)
  | [] => none

variable {mark : Char}

theorem unescape_byNumber (c : Char) (rest : List Char) :
    unescape (byNumber c ++ rest) = some (c, rest) := by
  have hdigits : ∀ d ∈ Nat.toDigits 16 c.toNat, decide (d ≠ '\x7d') = true := fun d hd =>
    decide_eq_true (ne_of_mem_of_not_mem hd (brace_not_mem_toDigits _))
  have htext : byNumber c ++ rest =
      '\\' :: 'u' :: '\x7b' :: (Nat.toDigits 16 c.toNat ++ '\x7d' :: rest) := by
    simp [byNumber]
  rw [htext, unescape, List.tail_cons, List.takeWhile_append_of_pos hdigits,
    List.dropWhile_append_of_pos hdigits]
  simp [hexNumber_toDigits]

/-- Any character between quotation marks is read back from the way it is escaped, whatever
    follows. -/
theorem unescape_escape (hmark : mark = '\'' ∨ mark = '"') (c : Char) (rest : List Char) :
    unescape (escape mark c ++ rest) = some (c, rest) := by
  rw [escape]
  split_ifs with hnull htab hreturn hline hquoted hunshown
  · rw [hnull]; rfl
  · rw [htab]; rfl
  · rw [hreturn]; rfl
  · rw [hline]; rfl
  · obtain rfl | rfl := hquoted
    · rfl
    · obtain rfl | rfl := hmark <;> rfl
  · exact unescape_byNumber c rest
  · have hplain : c ≠ '\\' := fun h => hquoted (.inl h)
    unfold unescape
    split <;> simp_all

/-- No escape begins with the quotation mark, which ends the quoted text. -/
theorem escape_eq_cons (hmark : mark = '\'' ∨ mark = '"') (c : Char) :
    ∃ first rest, escape mark c = first :: rest ∧ first ≠ mark := by
  have hslash : '\\' ≠ mark := by
    obtain rfl | rfl := hmark <;> decide
  rw [escape]
  split_ifs with hnull htab hreturn hline hquoted hunshown
  · exact ⟨_, _, rfl, hslash⟩
  · exact ⟨_, _, rfl, hslash⟩
  · exact ⟨_, _, rfl, hslash⟩
  · exact ⟨_, _, rfl, hslash⟩
  · exact ⟨_, _, rfl, hslash⟩
  · exact ⟨_, _, rfl, hslash⟩
  · exact ⟨_, _, rfl, fun h => hquoted (.inr h)⟩

/-- Quoted texts that read the same, up to the quotation mark and some text behind it, are the
    same. -/
theorem quoted_cancel (hmark : mark = '\'' ∨ mark = '"') {cs ds s t : List Char}
    (h : cs.flatMap (escape mark) ++ mark :: s = ds.flatMap (escape mark) ++ mark :: t) :
    cs = ds ∧ s = t := by
  induction cs generalizing ds with
  | nil =>
    cases ds with
    | nil => exact ⟨rfl, (List.cons.inj h).2⟩
    | cons d ds =>
      obtain ⟨first, rest, hescape, hfirst⟩ := escape_eq_cons hmark d
      rw [List.flatMap_cons, hescape] at h
      exact absurd (List.cons.inj h).1.symm hfirst
  | cons c cs ih =>
    cases ds with
    | nil =>
      obtain ⟨first, rest, hescape, hfirst⟩ := escape_eq_cons hmark c
      rw [List.flatMap_cons, hescape] at h
      exact absurd (List.cons.inj h).1 hfirst
    | cons d ds =>
      rw [List.flatMap_cons, List.flatMap_cons, List.append_assoc, List.append_assoc] at h
      have hread := congrArg unescape h
      rw [unescape_escape hmark, unescape_escape hmark, Option.some.injEq, Prod.mk.injEq] at hread
      obtain ⟨rfl, hrest⟩ := hread
      obtain ⟨rfl, rfl⟩ := ih hrest
      exact ⟨rfl, rfl⟩

end Quoted

namespace Label

/-- What can stand behind a label in a message: nothing, a comma, or a bracket that is closed. -/
def Stops (rest : List Char) : Prop := ∀ c ∈ rest.head?, c = ',' ∨ c = ')' ∨ c = ']'

/-- Labels whose texts tell them apart in messages: no text is empty or begins like what stands
    behind a label, and labels that read the same with what stands behind them are the same. -/
class Distinct (α : Type) [Label α] : Prop where
  not_stops : ∀ x : α, ¬ Stops (shown x).toList
  cancel : ∀ {x y : α} {s t : List Char}, Stops s → Stops t →
    (shown x).toList ++ s = (shown y).toList ++ t → x = y ∧ s = t

end Label

namespace Decimal

theorem not_stops_digitChar :
    ∀ d < 10, digitChar d ≠ ',' ∧ digitChar d ≠ ')' ∧ digitChar d ≠ ']' := by decide

theorem digitChar_inj {d e : Nat} (hd : d < 10) (he : e < 10) (h : digitChar d = digitChar e) :
    d = e := by
  have hread := congrArg digit? h
  rw [digit?_eq_some_iff.mpr ⟨hd, rfl⟩, digit?_eq_some_iff.mpr ⟨he, rfl⟩] at hread
  exact Option.some.inj hread

/-- A digit is nothing that ends a numeral. -/
theorem digitChar_cons_ne {d : Nat} (hd : d < 10) {cs s : List Char} (hs : Label.Stops s) :
    digitChar d :: cs ≠ s := by
  rintro rfl
  have := hs _ rfl
  have := not_stops_digitChar d hd
  grind

/-- Numerals in front of texts that begin with no digit are the same digit for digit, and so are
    these texts. -/
theorem digits_cancel {ds es : List Nat} (hds : ∀ d ∈ ds, d < 10) (hes : ∀ e ∈ es, e < 10)
    {s t : List Char} (hs : Label.Stops s) (ht : Label.Stops t)
    (h : ds.map digitChar ++ s = es.map digitChar ++ t) : ds = es ∧ s = t := by
  induction ds generalizing es with
  | nil =>
    cases es with
    | nil => exact ⟨rfl, h⟩
    | cons e es => exact absurd h.symm (digitChar_cons_ne (hes e List.mem_cons_self) hs)
  | cons d ds ih =>
    cases es with
    | nil => exact absurd h (digitChar_cons_ne (hds d List.mem_cons_self) ht)
    | cons e es =>
      obtain ⟨hd, hds⟩ := List.forall_mem_cons.mp hds
      obtain ⟨he, hes⟩ := List.forall_mem_cons.mp hes
      obtain ⟨hfirst, hrest⟩ := List.cons.inj h
      obtain ⟨rfl, rfl⟩ := ih hds hes hrest
      exact ⟨congrArg (· :: ds) (digitChar_inj hd he hfirst), rfl⟩

/-- A natural number ends where its digits end. -/
theorem ofNat_cancel {m n : Nat} {s t : List Char} (hs : Label.Stops s) (ht : Label.Stops t)
    (h : (ofNat m).toList ++ s = (ofNat n).toList ++ t) : m = n ∧ s = t := by
  rw [ofNat, ofNat, String.toList_ofList, String.toList_ofList] at h
  obtain ⟨hdigits, hrest⟩ := digits_cancel (digits_lt m) (digits_lt n) hs ht h
  exact ⟨by rw [← value_digits m, hdigits, value_digits], hrest⟩

/-- The text of a number begins with a digit. -/
theorem toList_ofNat_eq_cons (n : Nat) :
    ∃ d cs, d < 10 ∧ (ofNat n).toList = digitChar d :: cs := by
  obtain ⟨d, ds, hdigits⟩ := List.exists_cons_of_ne_nil (digits_ne_nil n)
  refine ⟨d, ds.map digitChar, digits_lt n d (hdigits ▸ List.mem_cons_self), ?_⟩
  rw [ofNat, String.toList_ofList, hdigits, List.map_cons]

/-- Only negative integers begin with a minus sign. -/
theorem toList_ofInt_negSucc (n : Nat) :
    (ofInt (.negSucc n)).toList = '-' :: (ofNat (n + 1)).toList := by
  rw [ofInt, String.toList_append]
  rfl

theorem ofInt_cancel {m n : Int} {s t : List Char} (hs : Label.Stops s) (ht : Label.Stops t)
    (h : (ofInt m).toList ++ s = (ofInt n).toList ++ t) : m = n ∧ s = t := by
  have hminus : ∀ d < 10, digitChar d ≠ '-' := by decide
  cases m with
  | ofNat m =>
    cases n with
    | ofNat n =>
      obtain ⟨rfl, rfl⟩ := ofNat_cancel hs ht h
      exact ⟨rfl, rfl⟩
    | negSucc n =>
      obtain ⟨d, cs, hd, htext⟩ := toList_ofNat_eq_cons m
      rw [toList_ofInt_negSucc, ofInt, htext] at h
      exact absurd (List.cons.inj h).1 (hminus d hd)
  | negSucc m =>
    rw [toList_ofInt_negSucc] at h
    cases n with
    | ofNat n =>
      obtain ⟨d, cs, hd, htext⟩ := toList_ofNat_eq_cons n
      rw [ofInt, htext] at h
      exact absurd (List.cons.inj h).1.symm (hminus d hd)
    | negSucc n =>
      rw [toList_ofInt_negSucc] at h
      obtain ⟨hmagnitude, hrest⟩ := ofNat_cancel hs ht (List.cons.inj h).2
      exact ⟨by rw [Nat.succ.inj hmagnitude], hrest⟩

theorem not_stops_ofInt (n : Int) : ¬ Label.Stops (ofInt n).toList := by
  cases n with
  | ofNat n =>
    obtain ⟨d, cs, hd, htext⟩ := toList_ofNat_eq_cons n
    exact fun h => digitChar_cons_ne hd h htext.symm
  | negSucc n =>
    rw [toList_ofInt_negSucc]
    simp [Label.Stops]

end Decimal

namespace Label

/-- A string ends at the quotation mark that is not escaped. -/
instance : Distinct String where
  not_stops s := by simp [shown, Quoted.ofString, Stops]
  cancel {x y s t} _ _ h := by
    simp only [shown, Quoted.ofString, String.toList_ofList, List.cons_append, List.append_assoc,
      List.cons.injEq, true_and] at h
    obtain ⟨hchars, hrest⟩ := Quoted.quoted_cancel (.inr rfl) h
    exact ⟨String.toList_inj.mp hchars, hrest⟩

/-- A character ends at the quotation mark that is not escaped. -/
instance : Distinct Char where
  not_stops c := by simp [shown, Quoted.ofChar, Stops]
  cancel {x y s t} _ _ h := by
    have hsingle (c : Char) (rest : List Char) : (shown c).toList ++ rest =
        '\'' :: ([c].flatMap (Quoted.escape '\'') ++ '\'' :: rest) := by
      simp [shown, Quoted.ofChar]
    rw [hsingle, hsingle] at h
    obtain ⟨hchars, hrest⟩ := Quoted.quoted_cancel (.inl rfl) (List.cons.inj h).2
    exact ⟨(List.cons.inj hchars).1, hrest⟩

/-- An integer ends where its digits end. -/
instance : Distinct Int64 where
  not_stops n := Decimal.not_stops_ofInt n.toInt
  cancel hs ht h := by
    obtain ⟨hvalue, hrest⟩ := Decimal.ofInt_cancel hs ht h
    exact ⟨Int64.toInt_inj.mp hvalue, hrest⟩

instance : Distinct UInt8 where
  not_stops n := Decimal.not_stops_ofInt n.toNat
  cancel hs ht h := by
    obtain ⟨hvalue, hrest⟩ := Decimal.ofNat_cancel hs ht h
    exact ⟨UInt8.toNat_inj.mp hvalue, hrest⟩

variable {α β : Type} [Label α] [Label β]

theorem stops_comma (rest : List Char) : Stops (',' :: rest) := by simp [Stops]

theorem stops_paren (rest : List Char) : Stops (')' :: rest) := by simp [Stops]

theorem stops_bracket (rest : List Char) : Stops (']' :: rest) := by simp [Stops]

theorem toList_shown_prod (x : α) (y : β) (rest : List Char) :
    (shown (x, y)).toList ++ rest =
      '(' :: ((shown x).toList ++ ',' :: ' ' :: ((shown y).toList ++ ')' :: rest)) := by
  simp [shown]

/-- The first label of a pair ends at the comma, the second one at the parenthesis. -/
instance [Distinct α] [Distinct β] : Distinct (α × β) where
  not_stops p := by
    have htext := toList_shown_prod p.1 p.2 []
    rw [List.append_nil] at htext
    rw [htext]
    simp [Stops]
  cancel {p q s t} _ _ h := by
    obtain ⟨x, y⟩ := p
    obtain ⟨x', y'⟩ := q
    rw [toList_shown_prod, toList_shown_prod] at h
    obtain ⟨rfl, hsecond⟩ := Distinct.cancel (stops_comma _) (stops_comma _) (List.cons.inj h).2
    simp only [List.cons.injEq, true_and] at hsecond
    obtain ⟨rfl, hrest⟩ := Distinct.cancel (stops_paren _) (stops_paren _) hsecond
    exact ⟨rfl, (List.cons.inj hrest).2⟩

variable [Distinct α]

/-- Different labels read differently. -/
theorem shown_injective : Function.Injective (shown : α → String) := by
  intro x y h
  have hstops : Stops [] := by simp [Stops]
  exact (Distinct.cancel hstops hstops (congrArg (fun s => s.toList ++ []) h)).1

/-- What stands behind the first label of a list. -/
def others (xs : List α) : List Char :=
  (xs.flatMap fun x => ',' :: ' ' :: (shown x).toList) ++ [']']

omit [Distinct α] in
theorem stops_others (xs : List α) : Stops (others xs) := by
  cases xs with
  | nil => exact stops_bracket []
  | cons x xs => exact stops_comma _

omit [Distinct α] in
theorem others_cons (x : α) (xs : List α) :
    others (x :: xs) = ',' :: ' ' :: ((shown x).toList ++ others xs) := by
  simp [others]

omit [Distinct α] in
theorem toList_shownList_cons (x : α) (xs : List α) :
    (shownList (x :: xs)).toList = '[' :: ((shown x).toList ++ others xs) := by
  have hjoined : (", ".intercalate ((x :: xs).map shown)).toList =
      (shown x).toList ++ xs.flatMap fun x => ',' :: ' ' :: (shown x).toList := by
    induction xs generalizing x with
    | nil => simp
    | cons y xs ih =>
      rw [List.map_cons, List.map_cons, String.intercalate_cons_cons, String.toList_append,
        String.toList_append, ← List.map_cons, ih, List.flatMap_cons]
      simp
  rw [shownList, String.toList_append, String.toList_append, hjoined]
  simp [others]

/-- What follows the first label of a list tells all other labels. -/
theorem others_injective : Function.Injective (others : List α → List Char) := by
  intro xs ys h
  induction xs generalizing ys with
  | nil =>
    cases ys with
    | nil => rfl
    | cons y ys =>
      rw [others_cons] at h
      exact absurd (List.cons.inj h).1 (by decide)
  | cons x xs ih =>
    cases ys with
    | nil =>
      rw [others_cons] at h
      exact absurd (List.cons.inj h).1 (by decide)
    | cons y ys =>
      rw [others_cons, others_cons] at h
      obtain ⟨rfl, hrest⟩ := Distinct.cancel (stops_others xs) (stops_others ys)
        (List.cons.inj (List.cons.inj h).2).2
      rw [ih hrest]

/-- The text of the empty list is that of no other list. -/
theorem shownList_cons_ne (x : α) (xs : List α) : shownList (x :: xs) ≠ "[]" := by
  intro h
  have hlist := congrArg String.toList h
  rw [toList_shownList_cons] at hlist
  have htext : (shown x).toList ++ others xs = [']'] := (List.cons.inj hlist).2
  refine Distinct.not_stops x fun c hc => ?_
  have hhead := congrArg List.head? htext
  rw [List.head?_append, Option.mem_def.mp hc, Option.some_or] at hhead
  exact .inr (.inr (Option.some.inj hhead))

/-- Different lists of labels read differently, whether or not their labels hold commas and brackets
    themselves. -/
theorem shownList_injective : Function.Injective (shownList : List α → String) := by
  have hnil : shownList ([] : List α) = "[]" := rfl
  intro xs ys h
  cases xs with
  | nil =>
    cases ys with
    | nil => rfl
    | cons y ys => exact absurd (h.symm.trans hnil) (shownList_cons_ne y ys)
  | cons x xs =>
    cases ys with
    | nil => exact absurd (h.trans hnil) (shownList_cons_ne x xs)
    | cons y ys =>
      have hlist := congrArg String.toList h
      rw [toList_shownList_cons, toList_shownList_cons] at hlist
      obtain ⟨rfl, hrest⟩ := Distinct.cancel (stops_others xs) (stops_others ys)
        (List.cons.inj hlist).2
      rw [others_injective hrest]

end Label

/-- A report tells its event: reports of events of different kinds, or of the same kind with
    different labels, differ. -/
theorem Event.report_injective {C R : Type} [Label C] [Label R] [Label.Distinct C]
    [Label.Distinct R] : Function.Injective (report : Event C R → Report) := by
  intro e e' h
  -- Events of different kinds have different messages, or differ in the field that tells selections
  cases e <;> cases e' <;>
    simp_all [report, Label.shown_injective.eq_iff, Label.shownList_injective.eq_iff]

end ExactCover
