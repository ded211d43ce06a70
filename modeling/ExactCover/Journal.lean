namespace ExactCover

/-- How fine-grained a report is. -/
inductive Detail where
  | debug
  | trace
deriving DecidableEq, Repr

/-- The part of the library that a report comes from. -/
inductive Topic where
  | codec
  | table
  | solver
  | events
deriving DecidableEq, Repr

/-- One report, with named fields as text. -/
structure Report where
  detail : Detail
  topic : Topic
  message : String
  fields : List (String × String)
deriving DecidableEq, Repr

/-- Reports in the order they were made. -/
abbrev Journal := Array Report

end ExactCover
