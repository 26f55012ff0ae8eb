/-
# Rows

A flow record as the compiler sees it: named cells that hold a signed or an
unsigned 64-bit integer or a text. A row is read by name; when a name occurs
more than once, the last entry counts.
-/

namespace FlowSelect

/-- What one column of a flow record holds. -/
inductive Cell where
  | int (n : Int64)
  | uint (n : UInt64)
  | text (s : String)
  deriving DecidableEq, Repr

namespace Cell

/-- The integer a cell holds, however it is stored. -/
def integer? : Cell → Option Int
  | .int n => some n.toInt
  | .uint n => some n.toNat
  | .text _ => none

end Cell

/-- One flow record: names such as `e0id7` or `sum(e0id1)` with their cells. -/
structure Row where
  entries : List (String × Cell)
  deriving DecidableEq, Repr

namespace Row

/-- The last cell of a list that stands under a name. -/
def lookup (name : String) : List (String × Cell) → Option Cell
  | [] => none
  | (key, cell) :: rest =>
    match lookup name rest with
    | some later => some later
    | none => if key = name then some cell else none

/-- The cell under a name, if the record has one. -/
def get? (row : Row) (name : String) : Option Cell :=
  lookup name row.entries

end Row

end FlowSelect
