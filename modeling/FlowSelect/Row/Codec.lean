/-
# Rows in JSON

A row is an object from names to integers and strings. An integer is read as
signed if it fits, else as unsigned.

Key definitions: `Cell.ofJson?`, `Row.ofJson?`, `Row.toJson`.
-/
import FlowSelect.Json.Reader
import FlowSelect.Json.Record
import FlowSelect.Row
import FlowSelect.Text.Shown

namespace FlowSelect

namespace Cell

/-- A cell for people: texts are quoted. -/
def shown : Cell → String
  | .int n => toString n.toInt
  | .uint n => toString n.toNat
  | .text s => Text.shown s

/-- A cell in JSON. -/
def toJson : Cell → Json
  | .int n => .int n.toInt
  | .uint n => .int n.toNat
  | .text s => .str s

/-- The cell of an integer, if it fits one. -/
def ofInt? (n : Int) : Option Cell :=
  if Int64.minValue.toInt ≤ n ∧ n ≤ Int64.maxValue.toInt then some (.int (Int64.ofInt n))
  else if 0 ≤ n ∧ n.toNat < UInt64.size then some (.uint (UInt64.ofNat n.toNat))
  else none

/-- Reads a cell. -/
def ofJson? : Json → Option Cell
  | .int n => ofInt? n
  | .str s => some (.text s)
  | _ => none

/-- Reads the text of a cell. -/
def parse? (text : String) : Option Cell :=
  match Json.read? text with
  | some j => ofJson? j
  | none => none

end Cell

namespace Row

/-- A row in JSON. -/
def toJson (row : Row) : Json := .obj (row.entries.map fun (name, cell) => (name, cell.toJson))

/-- The entries of an object's fields, if each is a cell. -/
def ofFields? : List (String × Json) → Option (List (String × Cell))
  | [] => some []
  | (name, j) :: rest =>
    match Cell.ofJson? j, ofFields? rest with
    | some cell, some entries => some ((name, cell) :: entries)
    | _, _ => none

/-- Reads a row. -/
def ofJson? : Json → Option Row
  | .obj fields => (ofFields? fields).map Row.mk
  | _ => none

/-- Reads the text of a row. -/
def parse? (text : String) : Option Row :=
  match Json.read? text with
  | some j => ofJson? j
  | none => none

end Row

end FlowSelect
