import ExactCover.Text.Decimal
import ExactCover.Text.Quoted

namespace ExactCover

/-- A type whose values can stand for columns and rows, and how messages show them. -/
class Label (α : Type) where
  /-- The text by which messages show a label. -/
  shown : α → String

namespace Label

/-- Strings are shown in quotation marks, with the characters escaped that could be misread. -/
instance : Label String := ⟨Quoted.ofString⟩

/-- Characters are shown in single quotes. -/
instance : Label Char := ⟨Quoted.ofChar⟩

/-- Integers are shown in decimal. -/
instance : Label Int64 := ⟨fun n => Decimal.ofInt n.toInt⟩

/-- Bytes are shown in decimal. -/
instance : Label UInt8 := ⟨fun n => Decimal.ofNat n.toNat⟩

/-- A pair is shown in parentheses. -/
instance {α β : Type} [Label α] [Label β] : Label (α × β) :=
  ⟨fun (x, y) => "(" ++ shown x ++ ", " ++ shown y ++ ")"⟩

/-- A list of labels between brackets. -/
def shownList {α : Type} [Label α] (xs : List α) : String :=
  "[" ++ ", ".intercalate (xs.map shown) ++ "]"

end Label

end ExactCover
