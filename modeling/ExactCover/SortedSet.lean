namespace ExactCover

/-- A finite set, kept as its elements. The operations below keep `elements` strictly ascending, so
    sets with the same members are equal. -/
structure SortedSet (α : Type) where
  elements : List α
deriving DecidableEq, Repr

/-- Pairs are ordered by their first component, and by the second where the first agrees. -/
scoped instance ordPair {α β : Type} [Ord α] [Ord β] : Ord (α × β) := lexOrd

namespace SortedSet

variable {α : Type}

/-- The set without elements. -/
def empty : SortedSet α := ⟨[]⟩

instance : EmptyCollection (SortedSet α) := ⟨empty⟩

instance : Inhabited (SortedSet α) := ⟨empty⟩

variable [Ord α]

/-- Elements are strictly ascending; in particular none occurs twice. -/
def Ascending (s : SortedSet α) : Prop :=
  s.elements.Pairwise fun x y => compare x y = .lt

/-- Whether ascending elements hold one. The first larger element ends the look-up. -/
def holds (x : α) : List α → Bool
  | [] => false
  | y :: rest =>
    match compare x y with
    | .lt => false
    | .eq => true
    | .gt => holds x rest

/-- Puts an element into ascending elements. -/
def place (x : α) : List α → List α
  | [] => [x]
  | y :: rest =>
    match compare x y with
    | .lt => x :: y :: rest
    | .eq => x :: rest
    | .gt => y :: place x rest

/-- Takes an element out of ascending elements. -/
def drop (x : α) : List α → List α
  | [] => []
  | y :: rest =>
    match compare x y with
    | .lt => y :: rest
    | .eq => rest
    | .gt => y :: drop x rest

/-- Whether an element is in the set. -/
def contains (s : SortedSet α) (x : α) : Bool := holds x s.elements

/-- The set with one more element. -/
def insert (s : SortedSet α) (x : α) : SortedSet α := ⟨place x s.elements⟩

/-- The set without an element. -/
def erase (s : SortedSet α) (x : α) : SortedSet α := ⟨drop x s.elements⟩

/-- The set of the elements of a list in any order. -/
def ofList (xs : List α) : SortedSet α := xs.foldl insert ∅

end SortedSet

end ExactCover
