import ExactCover.Codec
import ExactCover.Proofs.Codec.Base64
import ExactCover.Proofs.Codec.Fields
import ExactCover.Proofs.Problem.Parts

namespace ExactCover

/-- The types of labels that problems are shared with. -/
inductive LabelKind where
  | string
  | integer
  | character
  | bytes
deriving DecidableEq, Repr

namespace LabelKind

/-- The labels of a kind. -/
def Carrier : LabelKind → Type
  | string => String
  | integer => Int64
  | character => Char
  | bytes => UInt8 × UInt8

instance : (k : LabelKind) → Ord k.Carrier
  | string => inferInstanceAs (Ord String)
  | integer => inferInstanceAs (Ord Int64)
  | character => inferInstanceAs (Ord Char)
  | bytes => inferInstanceAs (Ord (UInt8 × UInt8))

instance : (k : LabelKind) → Std.TransOrd k.Carrier
  | string => inferInstanceAs (Std.TransOrd String)
  | integer => inferInstanceAs (Std.TransOrd Int64)
  | character => inferInstanceAs (Std.TransOrd Char)
  | bytes => inferInstanceAs (Std.TransOrd (UInt8 × UInt8))

instance : (k : LabelKind) → Std.LawfulEqOrd k.Carrier
  | string => inferInstanceAs (Std.LawfulEqOrd String)
  | integer => inferInstanceAs (Std.LawfulEqOrd Int64)
  | character => inferInstanceAs (Std.LawfulEqOrd Char)
  | bytes => inferInstanceAs (Std.LawfulEqOrd (UInt8 × UInt8))

instance : (k : LabelKind) → Json.Coded k.Carrier
  | string => inferInstanceAs (Json.Coded String)
  | integer => inferInstanceAs (Json.Coded Int64)
  | character => inferInstanceAs (Json.Coded Char)
  | bytes => inferInstanceAs (Json.Coded (UInt8 × UInt8))

instance : (k : LabelKind) → Json.Valued k.Carrier
  | string => inferInstanceAs (Json.Valued String)
  | integer => inferInstanceAs (Json.Valued Int64)
  | character => inferInstanceAs (Json.Valued Char)
  | bytes => inferInstanceAs (Json.Valued (UInt8 × UInt8))

instance : (k : LabelKind) → Json.Legible k.Carrier
  | string => inferInstanceAs (Json.Legible String)
  | integer => inferInstanceAs (Json.Legible Int64)
  | character => inferInstanceAs (Json.Legible Char)
  | bytes => inferInstanceAs (Json.Legible (UInt8 × UInt8))

end LabelKind

namespace Codec

/-- White space around the text of bytes is cut off before they are decoded. -/
theorem payload_append_text (bs : Bytes) {before after : String}
    (hbefore : ∀ c ∈ before.toList, Text.isBlank c = true)
    (hafter : ∀ c ∈ after.toList, Text.isBlank c = true) :
    payload (before ++ Base64.text bs ++ after) = .ok bs := by
  rw [payload, Text.trim_append hbefore hafter Base64.isBlank_of_mem_text, Base64.ofString_text,
    Base64.decode_encode]

variable {C R : Type} [Ord C] [Ord R] [Json.Coded C] [Json.Coded R] [Json.Valued C]
  [Json.Valued R] [Json.Legible C] [Json.Legible R]

/-- A text that holds parts, in whatever form, and nothing else describes the problem of the
    parts. -/
theorem decode_append_text {parts : Parts C R} {v : Json.Value} {json : Bytes}
    (hform : parts.Form v) (hjson : Json.RendersPadded v json) {before after : String}
    (hbefore : ∀ c ∈ before.toList, Text.isBlank c = true)
    (hafter : ∀ c ∈ after.toList, Text.isBlank c = true) :
    decode (before ++ Base64.text json ++ after) = (Problem.ofParts parts).mapError .problem := by
  have hread : Json.readAll Json.Coded.read json = .ok parts := by
    obtain ⟨behind, hblank, hread⟩ := hform.read hjson []
    have hspace : Json.skipSpace (behind ++ []) = [] := hblank.skipSpace_append []
    rw [List.append_nil] at hread
    rw [Json.readAll, hread]
    simp only [hspace, List.isEmpty_nil, if_true, bind, Except.bind, pure, Except.pure]
  rw [decode, payload_append_text json hbefore hafter]
  simp only [Except.mapError, hread, bind, Except.bind]

/-- Whatever the kinds of labels are, and whether parts are those of a problem or not: any JSON text
    of any value that stands for them is decoded to just the problem, or the error, to which the
    parts lead. -/
theorem decode_rendering {c r : LabelKind} {parts : Parts c.Carrier r.Carrier} {v : Json.Value}
    {json : Bytes} (hform : parts.Form v) (hjson : Json.RendersPadded v json)
    {before after : String} (hbefore : ∀ s ∈ before.toList, Text.isBlank s = true)
    (hafter : ∀ s ∈ after.toList, Text.isBlank s = true) :
    decode (before ++ Base64.text json ++ after) = (Problem.ofParts parts).mapError .problem :=
  decode_append_text hform hjson hbefore hafter

open Json in
/-- The fields stand in reverse, behind a member in which a name is no text. A column has two
    targets, and once its name is spelled with an escape. -/
theorem decode_rendering_of_reversed :
    decode ("\u3000" ++ Base64.text (Bytes.ofString ("\x7b\"note\":\x7b\"\\uD800\":-0.5e+1\x7d," ++
      "\"amounts\":[],\n\"targets\":[[\"a\",3],[\"a\",2]],\"rows\":[[\"b\",[\"\\u0061\",\"a\"]]]," ++
      "\"columns\":[\"a\"]\x7d")) ++ "\n") =
        .ok (⟨⟨[("a", 2)]⟩, ⟨[('b', ⟨[("a", 2)]⟩)]⟩⟩ :
          Problem (LabelKind.Carrier .string) (LabelKind.Carrier .character)) := by
  let parts : Parts String Char := ⟨["a"], [('b', ["a", "a"])], [("a", 3), ("a", 2)], []⟩
  have hparts : Problem.ofParts parts = .ok ⟨⟨[("a", 2)]⟩, ⟨[('b', ⟨[("a", 2)]⟩)]⟩⟩ := by
    decide +kernel
  have hform (note : Value) : parts.Form (.object ((("note", note) :: parts.fields.reverse).map
      fun m => (codes m.1, m.2))) := by
    have hfields : (("note", note) :: parts.fields.reverse).filter
        (fun m => m.1 ∈ Parts.fieldNames) = parts.fields.reverse := by
      simp [Parts.fields, Parts.fieldNames]
    refine .map _ ?_
    rw [hfields]
    exact List.reverse_perm _
  have hhex : RendersHex 0xD800 (Bytes.ofString "D800") :=
    .mk (w := 13) (x := 8) (y := 0) (z := 0) rfl rfl rfl rfl
  have hnumber : RendersNumeral ⟨[0], [5], some (false, [1])⟩ _ :=
    .mk (.mk (by simp) (by simp)) (by simp) (.some (.mk (by simp) (by simp)))
      (.some (.inl rfl) .plus (.mk (by simp) (by simp)))
  have hnote := (Renders.object (.last (.mk blank_nil (.number hhex .nil) blank_nil)
    (Renders.negative hnumber).padded)).padded
  have hescaped : Renders (.string [97]) (quote :: (Bytes.ofString "\\u0061" ++ [quote])) :=
    .string (.number (.mk (w := 0) (x := 0) (y := 6) (z := 1) rfl rfl rfl rfl) .nil)
  have hcover := Renders.array (.cons hescaped.padded (.last (Legible.padded_write "a")))
  have hrow := Renders.array (.cons (Legible.padded_write 'b') (.last hcover.padded))
  have hline : Blank (Bytes.ofString "\n") := by
    unfold Blank
    decide +kernel
  have hmembers := RendersMembers.cons (rendersName_writeString "note") hnote
    (.cons (rendersName_writeString "amounts") (Legible.padded_write parts.amounts)
      (.cons (.mk hline (rendersText_escape "targets") blank_nil)
        (Legible.padded_write parts.targets)
        (.cons (rendersName_writeString "rows") (Renders.array (.last hrow.padded)).padded
          (.last (rendersName_writeString "columns") (Legible.padded_write parts.columns)))))
  have hbefore : ∀ s ∈ "\u3000".toList, Text.isBlank s = true := by simp [Text.isBlank]
  have hafter : ∀ s ∈ "\n".toList, Text.isBlank s = true := by simp [Text.isBlank]
  have hdecode := decode_rendering (c := .string) (r := .character) (hform _)
    (Renders.object hmembers).padded hbefore hafter
  refine Eq.trans (congrArg (fun json => decode ("\u3000" ++ Base64.text json ++ "\n")) ?_)
    (hdecode.trans (congrArg (Except.mapError .problem) hparts))
  decide +kernel

variable [Std.TransOrd C] [Std.LawfulEqOrd C] [Std.TransOrd R] [Std.LawfulEqOrd R]

/-- The text of a problem describes it. -/
theorem decode_append_encode {p : Problem C R} (hp : p.WellFormed) {before after : String}
    (hbefore : ∀ c ∈ before.toList, Text.isBlank c = true)
    (hafter : ∀ c ∈ after.toList, Text.isBlank c = true) :
    decode (before ++ encode p ++ after) = .ok p := by
  obtain ⟨v, hform, hjson⟩ := Parts.exists_form_write p.toParts
  rw [encode, decode_append_text hform hjson.padded hbefore hafter, hp.ofParts_toParts]
  rfl

/-- Problems with the same text are equal. -/
theorem encode_inj {p q : Problem C R} (hp : p.WellFormed) (hq : q.WellFormed)
    (h : encode p = encode q) : p = q := by
  have hdecode {p : Problem C R} (hp : p.WellFormed) : decode (encode p) = .ok p := by
    have hblank : ∀ c ∈ "".toList, Text.isBlank c = true := by simp
    simpa using decode_append_encode hp hblank hblank
  have heq := (hdecode hp).symm.trans ((congrArg decode h).trans (hdecode hq))
  exact Except.ok.inj heq

end Codec

namespace Problem

/-- Whatever the kinds of labels are, the text of a problem has only letters, digits, `-` and `_`,
    and decoding it leads back to the equal problem, also with white space around it. So problems
    have the same text only if they are equal. -/
theorem Reachable.encode_round_trip {c r : LabelKind} {p q : Problem c.Carrier r.Carrier}
    (hp : p.Reachable) (hq : q.Reachable) :
    (∀ s ∈ (Codec.encode p).toList, Base64.IsSymbol s) ∧
    (∀ before after : String, (∀ s ∈ before.toList, Text.isBlank s = true) →
      (∀ s ∈ after.toList, Text.isBlank s = true) →
        Codec.decode (before ++ Codec.encode p ++ after) = .ok p) ∧
    (Codec.encode p = Codec.encode q ↔ p = q) :=
  ⟨Base64.isSymbol_of_mem_text,
    fun _ _ hbefore hafter => Codec.decode_append_encode hp.wellFormed hbefore hafter,
    ⟨Codec.encode_inj hp.wellFormed hq.wellFormed, congrArg Codec.encode⟩⟩

/-- Problems whose column has a quotation mark and a letter of two bytes in its name, and whose row
    is a pair of bytes. They differ only in the amount that the row gives. -/
theorem Reachable.encode_two_amounts :
    ∃ p q : Problem (LabelKind.Carrier .string) (LabelKind.Carrier .bytes),
      p.columns = ["\"\u00e4"] ∧ p.columns = q.columns ∧
      Codec.decode ("\u3000\n" ++ Codec.encode p ++ "\t") = .ok p ∧
      Codec.encode p ≠ Codec.encode q := by
  obtain ⟨p, q, hp, hq, hcolumns, hsame, hne⟩ : ∃ p q : Problem String (UInt8 × UInt8),
      Problem.ofParts ⟨["\"\u00e4"], [((0, 255), ["\"\u00e4"])], [],
        [((0, 255), [("\"\u00e4", 2)])]⟩ = .ok p ∧
      Problem.ofParts ⟨["\"\u00e4"], [((0, 255), ["\"\u00e4"])], [],
        [((0, 255), [("\"\u00e4", 3)])]⟩ = .ok q ∧
      p.columns = ["\"\u00e4"] ∧ p.columns = q.columns ∧ p ≠ q :=
    ⟨⟨⟨[("\"\u00e4", 1)]⟩, ⟨[((0, 255), ⟨[("\"\u00e4", 2)]⟩)]⟩⟩,
      ⟨⟨[("\"\u00e4", 1)]⟩, ⟨[((0, 255), ⟨[("\"\u00e4", 3)]⟩)]⟩⟩,
      by decide +kernel, by decide +kernel, by decide +kernel, by decide +kernel,
      by decide +kernel⟩
  obtain ⟨-, hdecode, htext⟩ :=
    Reachable.encode_round_trip (c := .string) (r := .bytes) (.ofParts hp) (.ofParts hq)
  refine ⟨p, q, hcolumns, hsame, hdecode _ _ ?_ ?_, fun heq => hne (htext.mp heq)⟩
  · simp [Text.isBlank]
  · simp [Text.isBlank]

end Problem

end ExactCover
