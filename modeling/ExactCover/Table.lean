import ExactCover.Journal
import ExactCover.Problem.Basic
import ExactCover.Text.Blank

namespace ExactCover

/-- The head of a table column. -/
structure Heading where
  name : String
  /-- The cell under the header, for the column's target. -/
  target : Option String
deriving DecidableEq, Repr

/-- A problem as it is typed into an editor. A missing cell of a row means that the row does not
    cover the column. Reading a table is lenient: whatever the cells hold, only repeated headers and
    repeated row names are errors. -/
structure Table where
  headings : List Heading
  /-- The rows in the order they were typed, with one cell for each heading. -/
  rows : List (String × List (Option String))
deriving DecidableEq, Repr

namespace Table

/-- Reads a decimal numeral, in front of which one plus sign may stand. -/
def numeral? (cs : List Char) : Option Nat :=
  let ds := match cs with
    | '+' :: rest => rest
    | _ => cs
  if ds.isEmpty then none else (ds.mapM Decimal.digit?).map Decimal.value

/-- The number in a cell. Whatever is not a positive number below `2 ^ 32` counts as 1. -/
def count (cell : String) : Amount :=
  match numeral? (Text.trim cell).toList with
  | some n => if 0 < n ∧ n < UInt32.size then UInt32.ofNat n else 1
  | none => 1

/-- A table with the given headers, without targets and rows. -/
def ofHeaders (headers : List String) : Table := ⟨headers.map fun name => ⟨name, none⟩, []⟩

/-- Fills the target cell under the first header of a name, if there is one. -/
def fillTarget (name cell : String) : List Heading → Option (List Heading)
  | [] => none
  | heading :: rest =>
    if heading.name = name then some ({ heading with target := some cell } :: rest)
    else (fillTarget name cell rest).map (heading :: ·)

/-- Fills the target cell under the first header of a name. -/
def setTarget (t : Table) (name cell : String) : Except (Problem.Error String String) Table :=
  match fillTarget name cell t.headings with
  | none => .error (.unknownColumn name)
  | some headings => .ok { t with headings := headings }

/-- Appends a row. Cells past the last heading are dropped, and cells that fall short of it are
    missing. -/
def pushRow (t : Table) (name : String) (cells : List (Option String)) : Table :=
  let width := t.headings.length
  let fitted := cells.take width ++ List.replicate (width - cells.length) none
  { t with rows := t.rows ++ [(name, fitted)] }

/-- The number of rows typed, blank ones included. -/
def rowCount (t : Table) : Nat := t.rows.length

/-- What reading a table gives. -/
structure Reading where
  problem : Except (Problem.Error String String) (Problem String String)
  /-- The names of the rows that were skipped because all their cells are missing. -/
  skipped : List String

/-- The entries of a row: one for each cell that is present. -/
def entries (headings : List Heading) (cells : List (Option String)) : List (String × Amount) :=
  (headings.zip cells).filterMap fun (heading, cell) =>
    cell.map fun text => (heading.name, count text)

/-- Adds rows in their order up to the first one that is refused. Blank rows are skipped. -/
def readRows (headings : List Heading) (p : Problem String String) :
    List (String × List (Option String)) → Reading
  | [] => ⟨.ok p, []⟩
  | (name, cells) :: rest =>
    match entries headings cells with
    | [] =>
      let reading := readRows headings p rest
      { reading with skipped := name :: reading.skipped }
    | es =>
      match p.addRow name es with
      | .ok p => readRows headings p rest
      | .error e => ⟨.error e, []⟩

/-- Gives each column with a target cell the target in it. -/
def readTargets (headings : List Heading) (p : Problem String String) :
    Except (Problem.Error String String) (Problem String String) :=
  headings.foldlM
    (fun p heading => match heading.target with
      | none => .ok p
      | some cell => p.setTarget heading.name (count cell)) p

/-- Reads the headings and then the rows. -/
def read (t : Table) : Reading :=
  match Problem.ofColumns (t.headings.map (·.name)) >>= readTargets t.headings with
  | .ok p => readRows t.headings p t.rows
  | .error e => ⟨.error e, []⟩

/-- The problem that a table describes. -/
def toProblem (t : Table) : Except (Problem.Error String String) (Problem String String) :=
  t.read.problem

/-- The reports about the rows that were skipped. -/
def Reading.reports (r : Reading) : List Report :=
  r.skipped.map fun name => ⟨.debug, .table, "skipping row without cells", [("row", name)]⟩

end Table

end ExactCover
