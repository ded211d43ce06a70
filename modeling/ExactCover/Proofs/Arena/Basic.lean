import ExactCover.Solver

namespace ExactCover

/-- What can go wrong in a search over tables. -/
inductive Fault where
  /-- A number leads out of its table. -/
  | outOfRange
  /-- The head of the active columns stands where a column is needed. -/
  | headOfList
  /-- A list of length zero loses an element. -/
  | underflow
  /-- An open amount leaves its bounds. -/
  | overflow
  /-- The deselected row is not the one that was selected last. -/
  | notLast
  /-- A loop goes on beyond the limit. -/
  | endless
deriving DecidableEq, Repr

/-- The header of a column. The column at position `i` has the header `i + 1`. The header 0 is the
    head of the list of active columns, which is cyclic. -/
structure Header where
  /-- The active column in front. A column that is not active any more keeps its neighbours. -/
  left : Nat
  /-- The active column behind. -/
  right : Nat
  /-- The node of the first row that still covers the column. -/
  firstNode : Option Nat
  /-- The node of the last row that still covers the column. -/
  lastNode : Option Nat
  /-- The number of rows that still cover the column. -/
  size : Nat
  /-- What the column still has to receive. -/
  remaining : Int
deriving DecidableEq, Repr

/-- A row in one of the columns it covers. -/
structure Node where
  column : Nat
  row : Nat
  /-- The node in front in the list of the column. A node that is taken out keeps its neighbours. -/
  above : Option Nat
  /-- The node behind in the list of the column. -/
  below : Option Nat
  /-- What the row gives to the column. -/
  amount : Amount
deriving DecidableEq, Repr

/-- A row, whose nodes have successive numbers in ascending order of columns. -/
structure RowSpan (R : Type) where
  label : R
  first : Nat
  size : Nat
deriving DecidableEq, Repr

/-- A level of the search tree. -/
structure Level where
  column : Nat
  /-- The node of the row selected at present; none has been tried yet at first. -/
  current : Option Nat
  /-- The number of rows that were tried when the level was entered. -/
  tried : Nat
deriving DecidableEq, Repr

/-- A search over tables, together with what its listener knows. Headers, nodes and rows are known
    by their numbers, every use of a number is checked, and every loop over a linked list has a
    limit, so that all that can go wrong shows as a fault. -/
structure Arena (C R σ : Type) where
  /-- The columns of the problem. -/
  labels : List C
  /-- The head of the active columns, followed by the columns. -/
  headers : List Header
  /-- The nodes, row by row. -/
  nodes : List Node
  rows : List (RowSpan R)
  /-- The levels of the search tree, deepest first. -/
  levels : List Level
  /-- The rows of the partial solution, latest first. -/
  selected : List Nat
  /-- The rows that were tried at the open levels, latest first. -/
  tried : List Nat
  phase : Phase
  statistics : Statistics
  observed : σ
deriving DecidableEq, Repr

/-- The element of a table with a number. -/
def fetch {α : Type} (xs : List α) (i : Nat) : Except Fault α :=
  xs[i]?.elim (.error .outOfRange) .ok

/-- Changes the element of a table with a number. -/
def change {α : Type} (xs : List α) (i : Nat) (f : α → α) : Except Fault (List α) :=
  if i < xs.length then .ok (xs.modify i f) else .error .outOfRange

/-- Splits a stack, latest first, into what lies above a height and what lies below. -/
def splitOff {α : Type} (xs : List α) (height : Nat) : Except Fault (List α × List α) :=
  if xs.length < height then .error .outOfRange
  else .ok (xs.take (xs.length - height), xs.drop (xs.length - height))

/-- An open amount within its bounds, which are `2 ^ 32 - 1` and `-(2 ^ 32 - 2)`. The first is the
    largest target and the largest amount, and only a positive open amount is charged. -/
def bounded (n : Int) : Except Fault Int :=
  if -4294967294 ≤ n ∧ n ≤ 4294967295 then .ok n else .error .overflow

namespace Arena

variable {C R σ : Type}

/-- Changes a header of the table of columns. -/
def changeHeader (a : Arena C R σ) (i : Nat) (f : Header → Header) :
    Except Fault (Arena C R σ) := do
  let headers ← change a.headers i f
  return { a with headers := headers }

/-- Changes a node of the table of nodes. -/
def changeNode (a : Arena C R σ) (ix : Nat) (f : Node → Node) : Except Fault (Arena C R σ) := do
  let nodes ← change a.nodes ix f
  return { a with nodes := nodes }

/-- The label of the column with a header. -/
def columnLabel (a : Arena C R σ) : Nat → Except Fault C
  | 0 => .error .headOfList
  | position + 1 => fetch a.labels position

/-- The label of a row. -/
def rowLabel (a : Arena C R σ) (row : Nat) : Except Fault R := do
  let span ← fetch a.rows row
  return span.label

/-- The nodes of a row, in ascending order of columns. -/
def rowNodes (a : Arena C R σ) (row : Nat) : Except Fault (List Nat) := do
  let span ← fetch a.rows row
  return List.range' span.first span.size

/-- Sets the link down from a node, or the first node of a column where there is none. -/
def linkBelow (a : Arena C R σ) (column : Nat) (above below : Option Nat) :
    Except Fault (Arena C R σ) :=
  match above with
  | some ix => a.changeNode ix fun node => { node with below := below }
  | none => a.changeHeader column fun header => { header with firstNode := below }

/-- Sets the link up from a node, or the last node of a column where there is none. -/
def linkAbove (a : Arena C R σ) (column : Nat) (below above : Option Nat) :
    Except Fault (Arena C R σ) :=
  match below with
  | some ix => a.changeNode ix fun node => { node with above := above }
  | none => a.changeHeader column fun header => { header with lastNode := above }

/-- Counts an element less in the list of a column. -/
def shrink (a : Arena C R σ) (column : Nat) : Except Fault (Arena C R σ) := do
  let header ← fetch a.headers column
  if header.size = 0 then throw .underflow
  a.changeHeader column fun header => { header with size := header.size - 1 }

/-- Counts an element more in the list of a column. -/
def grow (a : Arena C R σ) (column : Nat) : Except Fault (Arena C R σ) :=
  a.changeHeader column fun header => { header with size := header.size + 1 }

/-- Appends a node to the list of a column. -/
def appendNode (a : Arena C R σ) (column row : Nat) (amount : Amount) :
    Except Fault (Arena C R σ) := do
  let ix := a.nodes.length
  let a ← a.grow column
  let header ← fetch a.headers column
  let a ← a.changeHeader column fun header => { header with lastNode := some ix }
  let a ← a.linkBelow column header.lastNode (some ix)
  return { a with nodes := a.nodes ++ [⟨column, row, header.lastNode, none, amount⟩] }

/-- The partial solution with one more row. -/
def join (a : Arena C R σ) (row : Nat) : Arena C R σ :=
  { a with
    selected := row :: a.selected
    statistics := a.statistics.addSelection (a.selected.length + 1) }

/-- The partial solution without a row, which has to be the one selected last. -/
def dismiss (a : Arena C R σ) (row : Nat) : Except Fault (Arena C R σ) :=
  if a.selected.head? = some row then return { a with selected := a.selected.tail }
  else throw .notLast

/-- One more node of the search tree, to be left at the next step. -/
def countNode (a : Arena C R σ) : Arena C R σ :=
  { a with phase := .advance, statistics.nodes := a.statistics.nodes + 1 }

variable (L : Listener C R σ)

/-- Hands an event to the listener. -/
def notify (a : Arena C R σ) (e : Event C R) : Arena C R σ :=
  { a with observed := L.handle e a.observed }

/-- Hands a remark to the listener. -/
def remark (a : Arena C R σ) (r : Remark) : Arena C R σ :=
  { a with observed := L.remark r a.observed }

/-- Takes a node out of the list of its column. Its own links stay as they are. -/
def removeNode (a : Arena C R σ) (ix : Nat) : Except Fault (Arena C R σ) := do
  let node ← fetch a.nodes ix
  let a ← a.linkBelow node.column node.above node.below
  let a ← a.linkAbove node.column node.below node.above
  let a ← a.shrink node.column
  let column ← a.columnLabel node.column
  let row ← a.rowLabel node.row
  return a.notify L (.remove column row)

/-- Puts back the node that was taken out last. -/
def restoreNode (a : Arena C R σ) (ix : Nat) : Except Fault (Arena C R σ) := do
  let node ← fetch a.nodes ix
  let a ← a.linkBelow node.column node.above (some ix)
  let a ← a.linkAbove node.column node.below (some ix)
  let a ← a.grow node.column
  let column ← a.columnLabel node.column
  let row ← a.rowLabel node.row
  return a.notify L (.restore column row)

/-- Takes out all nodes of the row of a node but this one. -/
def hide (a : Arena C R σ) (ix : Nat) : Except Fault (Arena C R σ) := do
  let node ← fetch a.nodes ix
  let others ← a.rowNodes node.row
  others.foldlM (fun a other => if other ≠ ix then a.removeNode L other else pure a) a

/-- Puts back all nodes of the row of a node but this one, in the opposite order. -/
def unhide (a : Arena C R σ) (ix : Nat) : Except Fault (Arena C R σ) := do
  let node ← fetch a.nodes ix
  let others ← a.rowNodes node.row
  others.reverse.foldlM (fun a other => if other ≠ ix then a.restoreNode L other else pure a) a

/-- Takes out all nodes of a row. -/
def withdraw (a : Arena C R σ) (row : Nat) : Except Fault (Arena C R σ) := do
  let nodes ← a.rowNodes row
  nodes.foldlM (fun a ix => a.removeNode L ix) a

/-- Puts back all nodes of a row, in the opposite order. -/
def reinstate (a : Arena C R σ) (row : Nat) : Except Fault (Arena C R σ) := do
  let nodes ← a.rowNodes row
  nodes.reverse.foldlM (fun a ix => a.restoreNode L ix) a

/-- Hides the rows of a node and of all nodes below it. -/
def hideFrom : (limit : Nat) → Option Nat → Arena C R σ → Except Fault (Arena C R σ)
  | _, none, a => return a
  | 0, some _, _ => throw .endless
  | limit + 1, some ix, a => do
    let a ← a.hide L ix
    let node ← fetch a.nodes ix
    hideFrom limit node.below a

/-- Brings back the rows of a node and of all nodes above it. -/
def unhideFrom : (limit : Nat) → Option Nat → Arena C R σ → Except Fault (Arena C R σ)
  | _, none, a => return a
  | 0, some _, _ => throw .endless
  | limit + 1, some ix, a => do
    let a ← a.unhide L ix
    let node ← fetch a.nodes ix
    unhideFrom limit node.above a

/-- Takes a column out of the active ones and hides the rows in its list from all other columns. -/
def cover (limit : Nat) (a : Arena C R σ) (column : Nat) : Except Fault (Arena C R σ) := do
  let header ← fetch a.headers column
  let a ← a.changeHeader header.left fun h => { h with right := header.right }
  let a ← a.changeHeader header.right fun h => { h with left := header.left }
  let header ← fetch a.headers column
  a.hideFrom L limit header.firstNode

/-- Undoes the last covering, in the opposite order. -/
def uncover (limit : Nat) (a : Arena C R σ) (column : Nat) : Except Fault (Arena C R σ) := do
  let header ← fetch a.headers column
  let a ← a.unhideFrom L limit header.lastNode
  let header ← fetch a.headers column
  let a ← a.changeHeader header.left fun h => { h with right := column }
  a.changeHeader header.right fun h => { h with left := column }

/-- From a header on, the first active column with the fewest rows. The best one so far is given
    with its number of rows, and a column without rows ends the search for it. -/
def bestFrom (a : Arena C R σ) :
    (limit : Nat) → (column : Nat) → Option (Nat × Nat) → Except Fault (Option Nat)
  | _, 0, best => return best.map (·.1)
  | 0, _ + 1, _ => throw .endless
  | limit + 1, column + 1, best => do
    let header ← fetch a.headers (column + 1)
    if best.all fun (known : Nat × Nat) => header.size < known.2 then
      if header.size = 0 then return some (column + 1)
      else a.bestFrom limit header.right (some (column + 1, header.size))
    else a.bestFrom limit header.right best

/-- The first active column with the fewest rows. -/
def bestColumn (limit : Nat) (a : Arena C R σ) : Except Fault (Option Nat) := do
  let head ← fetch a.headers 0
  a.bestFrom limit head.right none

/-- Takes the amount of a node from what its column has to receive, and covers the column if nothing
    is left to receive. Tells whether the column has not gone past its target. -/
def charge (limit : Nat) (a : Arena C R σ) (ix : Nat) : Except Fault (Bool × Arena C R σ) := do
  let node ← fetch a.nodes ix
  let header ← fetch a.headers node.column
  let remaining ← bounded (header.remaining - node.amount.toNat)
  let a ← a.changeHeader node.column fun header => { header with remaining := remaining }
  if remaining ≤ 0 then
    let a ← a.cover L limit node.column
    return (decide (remaining = 0), a)
  return (true, a)

/-- Charges the column of one more node of a row. Tells whether all columns so far fit. -/
def chargeNext (limit : Nat) (state : Bool × Arena C R σ) (ix : Nat) :
    Except Fault (Bool × Arena C R σ) := do
  let (fits, a) ← state.2.charge L limit ix
  return (state.1 && fits, a)

/-- Uncovers a column that has nothing left to receive. -/
def reopen (limit : Nat) (a : Arena C R σ) (column : Nat) : Except Fault (Arena C R σ) := do
  let header ← fetch a.headers column
  if header.remaining ≤ 0 then a.uncover L limit column else return a

/-- Undoes a charge. -/
def refund (limit : Nat) (a : Arena C R σ) (ix : Nat) : Except Fault (Arena C R σ) := do
  let node ← fetch a.nodes ix
  let a ← a.reopen L limit node.column
  let header ← fetch a.headers node.column
  let remaining ← bounded (header.remaining + node.amount.toNat)
  a.changeHeader node.column fun header => { header with remaining := remaining }

/-- Adds the row of a node to the partial solution. Tells whether no column has gone past its
    target. -/
def select (limit : Nat) (a : Arena C R σ) (ix : Nat) : Except Fault (Bool × Arena C R σ) := do
  let node ← fetch a.nodes ix
  let a := a.join node.row
  let label ← a.rowLabel node.row
  let a ← (a.notify L (.select label)).withdraw L node.row
  let nodes ← a.rowNodes node.row
  nodes.foldlM (chargeNext L limit) (true, a)

/-- Takes the row of a node off the partial solution. -/
def deselect (limit : Nat) (a : Arena C R σ) (ix : Nat) : Except Fault (Arena C R σ) := do
  let node ← fetch a.nodes ix
  let nodes ← a.rowNodes node.row
  let a ← nodes.reverse.foldlM (fun a ix => a.refund L limit ix) a
  let a ← a.dismiss node.row
  let label ← a.rowLabel node.row
  return a.notify L (.deselect label)

/-- Selects the row of a node at a level. -/
def tryNode (limit : Nat) (level : Level) (outer : List Level) (ix : Nat) (a : Arena C R σ) :
    Except Fault (Arena C R σ) := do
  let (valid, a) ← { a with levels := { level with current := some ix } :: outer }.select L limit ix
  if valid then return { a with phase := .choose }
  return { a with statistics.overshoots := a.statistics.overshoots + 1 }.remark L
    (.overshoot a.selected.length)

/-- Leaves a level and puts back the rows tried at it, latest first. -/
def leave (level : Level) (outer : List Level) (a : Arena C R σ) : Except Fault (Arena C R σ) := do
  let (fresh, tried) ← splitOff a.tried level.tried
  fresh.foldlM (fun a row => a.reinstate L row) { a with levels := outer, tried := tried }

/-- Goes on to the row of a node at a level, or leaves the level if there is none. -/
def proceed (limit : Nat) (level : Level) (outer : List Level) (next : Option Nat)
    (a : Arena C R σ) : Except Fault (Arena C R σ) :=
  match next with
  | some ix => a.tryNode L limit level outer ix
  | none => a.leave L level outer

/-- Takes back the selection at the deepest level, if there is one, and goes on. The node taken out
    has kept its links, and these lead to the next one. -/
def backtrack (limit : Nat) (level : Level) (outer : List Level) (a : Arena C R σ) :
    Except Fault (Arena C R σ) :=
  match level.current with
  | some ix => do
    let a ← a.deselect L limit ix
    let node ← fetch a.nodes ix
    { a with tried := node.row :: a.tried }.proceed L limit level outer node.below
  | none => do
    let header ← fetch a.headers level.column
    a.proceed L limit level outer header.firstNode

/-- One step back. Tells whether there was a level left. -/
def advance (limit : Nat) (a : Arena C R σ) : Except Fault (Bool × Arena C R σ) :=
  match a.levels with
  | [] => return (false, a)
  | level :: outer => do
    let a ← a.backtrack L limit level outer
    return (true, a)

/-- Finds that the selected rows are a solution. -/
def find (a : Arena C R σ) : Except Fault (Option (List R) × Arena C R σ) := do
  let solution ← a.selected.reverse.mapM a.rowLabel
  let a := { a with statistics.solutions := a.statistics.solutions + 1 }
  return (some solution, (a.remark L (.solutionFound solution.length)).notify L
    (.solution solution))

/-- One step forward: a new level is entered, or the selected rows are a solution. -/
def choose (limit : Nat) (a : Arena C R σ) : Except Fault (Option (List R) × Arena C R σ) := do
  let a := a.countNode
  let best ← a.bestColumn limit
  match best with
  | some column => return (none, { a with levels := ⟨column, none, a.tried.length⟩ :: a.levels })
  | none => a.find L

/-- One step of the search, with the solution that it finds, if any. -/
def step (limit : Nat) (a : Arena C R σ) : Except Fault (Option (List R) × Arena C R σ) := do
  match a.phase with
  | .choose => a.choose L limit
  | .advance =>
    let (more, a) ← a.advance L limit
    if more then return (none, a)
    return (none, { a with phase := .exhausted }.remark L (.exhausted a.statistics))
  | .exhausted => return (none, a)

/-- Steps until a solution is found or the search is over. -/
def nextWithin (limit : Nat) :
    (steps : Nat) → Arena C R σ → Except Fault (Option (List R) × Arena C R σ)
  | 0, _ => throw .endless
  | steps + 1, a => do
    if a.phase = .exhausted then return (none, a)
    match ← a.step L limit with
    | (some rows, a) => return (some rows, a)
    | (none, a) => a.nextWithin limit steps

/-- The next solution, as long as there is one. -/
def next (limit : Nat) (a : Arena C R σ) : Except Fault (Option (List R) × Arena C R σ) :=
  a.nextWithin L limit limit

/-- The rows of a node and of all nodes below it. -/
def rowsFrom (a : Arena C R σ) : (limit : Nat) → Option Nat → Except Fault (List R)
  | _, none => return []
  | 0, some _ => throw .endless
  | limit + 1, some ix => do
    let node ← fetch a.nodes ix
    let row ← a.rowLabel node.row
    let rows ← a.rowsFrom limit node.below
    return row :: rows

/-- From a header on, the active columns with the rows that still cover them. -/
def coverageFrom (limit : Nat) (a : Arena C R σ) :
    (columns : Nat) → (column : Nat) → Except Fault (List (C × List R))
  | _, 0 => return []
  | 0, _ + 1 => throw .endless
  | columns + 1, column + 1 => do
    let header ← fetch a.headers (column + 1)
    let rows ← a.rowsFrom limit header.firstNode
    let label ← a.columnLabel (column + 1)
    let others ← a.coverageFrom limit columns header.right
    return (label, rows) :: others

/-- The active columns with the rows that still cover them. -/
def coverage (limit : Nat) (a : Arena C R σ) : Except Fault (List (C × List R)) := do
  let head ← fetch a.headers 0
  a.coverageFrom limit limit head.right

end Arena

namespace Problem

variable {C R σ : Type} [Ord C]

/-- The header of the column at a position, before there are any nodes. -/
def emptyHeader (p : Problem C R) (position : Nat) : Except Fault Header := do
  let (_, target) ← fetch p.targets.entries position
  return ⟨position, if position + 1 = p.targets.size then 0 else position + 2, none, none, 0,
    target.toNat⟩

/-- The tables before there are any rows. -/
def emptyArena (p : Problem C R) (state : σ) : Except Fault (Arena C R σ) := do
  let headers ← (List.range p.targets.size).mapM p.emptyHeader
  let head := ⟨p.targets.size, if p.targets.size = 0 then 0 else 1, none, none, 0, 0⟩
  return {
    labels := p.columns, headers := head :: headers, nodes := [], rows := [], levels := []
    selected := [], tried := [], phase := .choose, statistics := {}, observed := state }

/-- Appends a node for what a row gives to one of its columns. -/
def appendEntry (p : Problem C R) (row : Nat) (a : Arena C R σ) (entry : C × Amount) :
    Except Fault (Arena C R σ) := do
  let position ← (p.targets.position? entry.1).elim (.error .outOfRange) .ok
  a.appendNode (position.val + 1) row entry.2

/-- Appends a row with all its nodes to the tables. -/
def appendRow (p : Problem C R) (a : Arena C R σ) (entry : R × Cover C) :
    Except Fault (Arena C R σ) := do
  let first := a.nodes.length
  let a ← entry.2.entries.foldlM (p.appendEntry a.rows.length) a
  return { a with rows := a.rows ++ [⟨entry.1, first, entry.2.size⟩] }

/-- The tables of a problem, before the first step of a search. -/
def arena (p : Problem C R) (L : Listener C R σ) (state : σ) : Except Fault (Arena C R σ) := do
  let a ← p.emptyArena state
  let a ← p.rows.entries.foldlM p.appendRow a
  return a.remark L (.starting p.targets.size a.rows.length a.nodes.length)

end Problem

end ExactCover
