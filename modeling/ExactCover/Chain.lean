namespace ExactCover

/-- A doubly linked list of positions below `n`. An element can be taken out and put back in
    constant time: it keeps its own links meanwhile, and these are all that is needed to put it
    back. -/
structure Chain (n : Nat) where
  /-- The first element, if there is one. -/
  first : Option (Fin n)
  /-- The last element, if there is one. -/
  last : Option (Fin n)
  /-- The number of elements. -/
  size : Nat
  /-- For every element the one before it. What stands here for a position that is not an element
      is left from the time when it was one. -/
  prev : Vector (Option (Fin n)) n
  /-- For every element the one after it. -/
  next : Vector (Option (Fin n)) n
deriving DecidableEq, Repr

namespace Chain

variable {n : Nat}

/-- The list without elements, in which nothing is linked. -/
def empty (n : Nat) : Chain n where
  first := none
  last := none
  size := 0
  prev := Vector.replicate n none
  next := Vector.replicate n none

/-- The element in front of another one. For a position that was taken out it is the element that
    was in front of it then. -/
def before (l : Chain n) (x : Fin n) : Option (Fin n) := l.prev[x]

/-- The element behind another one. For a position that was taken out it is the element that was
    behind it then. -/
def after (l : Chain n) (x : Fin n) : Option (Fin n) := l.next[x]

/-- Adds a position at the end. -/
def push (l : Chain n) (x : Fin n) : Chain n where
  first := l.first.or (some x)
  last := some x
  size := l.size + 1
  prev := l.prev.set x l.last
  next := match l.last with
    | some y => (l.next.set x none).set y (some x)
    | none => l.next.set x none

/-- The list of the given positions in their order. -/
def ofList (xs : List (Fin n)) : Chain n := xs.foldl push (empty n)

/-- Takes an element out. Its own links stay as they are. -/
def remove (l : Chain n) (x : Fin n) : Chain n :=
  let before := l.before x
  let after := l.after x
  { first := if before.isNone then after else l.first
    last := if after.isNone then before else l.last
    size := l.size - 1
    prev := match after with
      | some y => l.prev.set y before
      | none => l.prev
    next := match before with
      | some y => l.next.set y after
      | none => l.next }

/-- Puts back the element that was taken out last, between the neighbours its own links name. -/
def restore (l : Chain n) (x : Fin n) : Chain n :=
  let before := l.before x
  let after := l.after x
  { first := if before.isNone then some x else l.first
    last := if after.isNone then some x else l.last
    size := l.size + 1
    prev := match after with
      | some y => l.prev.set y (some x)
      | none => l.prev
    next := match before with
      | some y => l.next.set y (some x)
      | none => l.next }

/-- The positions met when following links, at most `limit` of them. -/
def walk (link : Vector (Option (Fin n)) n) : (limit : Nat) → Option (Fin n) → List (Fin n)
  | 0, _ => []
  | _, none => []
  | limit + 1, some x => x :: walk link limit link[x]

/-- The elements from first to last. A list without repetitions has at most `n` elements, so the
    limit never cuts one off. -/
def forward (l : Chain n) : List (Fin n) := walk l.next n l.first

/-- The elements from last to first. -/
def backward (l : Chain n) : List (Fin n) := walk l.prev n l.last

end Chain

end ExactCover
