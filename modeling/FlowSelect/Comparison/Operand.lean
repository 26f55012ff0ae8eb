/-
# Operands

The left side of a compiled comparison: a stored column, possibly aggregated,
masked or decoded.

Key definitions: `Operand.render` (engine text), `Operand.value?` (its value on a
row).
-/
import FlowSelect.Comparison.Relation
import FlowSelect.Row
import FlowSelect.Schema.Kind

namespace FlowSelect

/-- The left side of a comparison, rooted at one stored column. -/
inductive Operand where
  | column (name : String)
  | aggregate (function : String) (part : String)
  | masked (operand : Operand) (op : BitOperator) (argument : Int64)
  | decoded (semantics : Semantics) (part : String)
  deriving DecidableEq, Repr

/-- What an operand evaluates to. -/
inductive Scalar where
  | int (n : Int)
  | text (s : String)
  deriving DecidableEq, Repr

/-- The value of a cell. -/
def Cell.scalar : Cell → Scalar
  | .int n => .int n.toInt
  | .uint n => .int n.toNat
  | .text s => .text s

namespace Operand

/-- The stored column an operand is rooted at. -/
def root : Operand → String
  | .column name => name
  | .aggregate _ part => part
  | .masked operand _ _ => operand.root
  | .decoded _ part => part

/-- The name under which an engine stores an aggregate. -/
def aggregateName (function part : String) : String := function ++ "(" ++ part ++ ")"

/-- Engine text of an operand. -/
def render : Operand → String
  | .column name => name
  | .aggregate function part => aggregateName function part
  | .masked operand op argument =>
    "(" ++ operand.render ++ " " ++ op.symbol ++ " " ++ toString argument.toInt ++ ")"
  | .decoded _ part => part

/-- The value of an operand on a row. An aggregate that the row does not hold
falls back to its column. There is no value when the column is missing, when a
bitwise operator meets text or an undefined shift, and when stored text cannot
be decoded. -/
def value? (row : Row) : Operand → Option Scalar
  | .column name => (row.get? name).map Cell.scalar
  | .aggregate function part =>
    match row.get? (aggregateName function part) with
    | some cell => some cell.scalar
    | none => (row.get? part).map Cell.scalar
  | .masked operand op argument =>
    match operand.value? row with
    | some (.int n) => (op.result? n argument).map Scalar.int
    | _ => none
  | .decoded semantics part =>
    match row.get? part with
    | some (.text raw) => (semantics.decode? raw).map Scalar.text
    | some cell => some cell.scalar
    | none => none

end Operand

end FlowSelect
