namespace ExactCover

/-- A finite map, kept as its entries. The operations below keep the keys of `entries` strictly
    ascending, so maps with the same look-ups have the same entries, and listing a map lists its
    keys in order. -/
structure SortedMap (α β : Type) where
  entries : List (α × β)
deriving DecidableEq, Repr

namespace SortedMap

variable {α β γ : Type}

/-- The map without entries. -/
def empty : SortedMap α β := ⟨[]⟩

instance : EmptyCollection (SortedMap α β) := ⟨empty⟩

instance : Inhabited (SortedMap α β) := ⟨empty⟩

/-- The keys, in ascending order. -/
def keys (m : SortedMap α β) : List α := m.entries.map (·.1)

/-- The number of entries. -/
def size (m : SortedMap α β) : Nat := m.entries.length

/-- The entry at a position. -/
def entry (m : SortedMap α β) (i : Fin m.size) : α × β := m.entries.get i

/-- Whether there are no entries. -/
def isEmpty (m : SortedMap α β) : Bool := m.entries.isEmpty

/-- Applies a function to every value and leaves the keys alone. -/
def mapValues (f : β → γ) (m : SortedMap α β) : SortedMap α γ :=
  ⟨m.entries.map fun (k, v) => (k, f v)⟩

variable [Ord α]

/-- Keys are strictly ascending; in particular no key occurs twice. -/
def Ascending (m : SortedMap α β) : Prop :=
  m.entries.Pairwise fun x y => compare x.1 y.1 = .lt

/-- The value at a key in ascending entries. The first larger key ends the look-up. -/
def lookup (k : α) : List (α × β) → Option β
  | [] => none
  | (j, v) :: rest =>
    match compare k j with
    | .lt => none
    | .eq => some v
    | .gt => lookup k rest

/-- Puts a value at a key into ascending entries, in place of the value the key had before. -/
def place (k : α) (v : β) : List (α × β) → List (α × β)
  | [] => [(k, v)]
  | (j, w) :: rest =>
    match compare k j with
    | .lt => (k, v) :: (j, w) :: rest
    | .eq => (k, v) :: rest
    | .gt => (j, w) :: place k v rest

/-- The number of entries in front of a key, if the key occurs. -/
def rank (k : α) : List (α × β) → Option Nat
  | [] => none
  | (j, _) :: rest =>
    match compare k j with
    | .lt => none
    | .eq => some 0
    | .gt => (rank k rest).map (· + 1)

/-- The value of a key, if the key is in the map. -/
def get? (m : SortedMap α β) (k : α) : Option β := lookup k m.entries

/-- Whether a key is in the map. -/
def contains (m : SortedMap α β) (k : α) : Bool := (m.get? k).isSome

/-- The map with a key set to a value, in the place of an earlier value of that key. -/
def insert (m : SortedMap α β) (k : α) (v : β) : SortedMap α β := ⟨place k v m.entries⟩

/-- Changes the value at a key; a key that does not occur stays out. -/
def modify (m : SortedMap α β) (k : α) (f : β → β) : SortedMap α β :=
  match m.get? k with
  | none => m
  | some v => m.insert k (f v)

/-- The position of a key among the entries. -/
def position? (m : SortedMap α β) (k : α) : Option (Fin m.size) :=
  (rank k m.entries).bind fun i => if h : i < m.size then some ⟨i, h⟩ else none

/-- The map of a list of entries in any order. The last entry of a key counts. -/
def ofList (entries : List (α × β)) : SortedMap α β :=
  entries.foldl (fun m (k, v) => m.insert k v) ∅

/-- How often each element occurs in a list. -/
def tally : List α → SortedMap α Nat
  | [] => ∅
  | x :: rest =>
    let m := tally rest
    m.insert x ((m.get? x).getD 0 + 1)

end SortedMap

end ExactCover
