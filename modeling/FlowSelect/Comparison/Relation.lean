/-
# Relations and bit operators

The symbols a comparison is built from: six order relations, and five bitwise
operators on 128-bit two's complement integers.

Key definitions: `Relation.holds`, `Relation.complement`, `BitOperator.result?`.
-/

namespace FlowSelect

/-- How the two sides of a comparison are related. -/
inductive Relation where
  | eq | ne | lt | le | gt | ge
  deriving DecidableEq, Repr

namespace Relation

/-- The symbol used in engine text. -/
def symbol : Relation → String
  | .eq => "=="
  | .ne => "!="
  | .lt => "<"
  | .le => "<="
  | .gt => ">"
  | .ge => ">="

/-- Reads a relation; equality may also be written with one `=`. -/
def ofSymbol? : String → Option Relation
  | "==" => some .eq
  | "=" => some .eq
  | "!=" => some .ne
  | "<" => some .lt
  | "<=" => some .le
  | ">" => some .gt
  | ">=" => some .ge
  | _ => none

/-- The relation that holds exactly when the given one does not. -/
def complement : Relation → Relation
  | .eq => .ne
  | .ne => .eq
  | .lt => .ge
  | .le => .gt
  | .gt => .le
  | .ge => .lt

/-- Every relation but `==` and `!=` asks for an order. -/
def isOrdering : Relation → Bool
  | .eq | .ne => false
  | _ => true

/-- Whether the relation holds between two values that compare as given. -/
def holds : Relation → Ordering → Bool
  | .eq, o => o == .eq
  | .ne, o => o != .eq
  | .lt, o => o == .lt
  | .le, o => o != .gt
  | .gt, o => o == .gt
  | .ge, o => o != .lt

end Relation

/-- A bitwise operator that may be applied to a column before it is compared. -/
inductive BitOperator where
  | and | or | xor | shl | shr
  deriving DecidableEq, Repr

namespace BitOperator

/-- The symbol used in filters and in engine text. -/
def symbol : BitOperator → String
  | .and => "&"
  | .or => "|"
  | .xor => "^"
  | .shl => "<<"
  | .shr => ">>"

/-- Reads a bitwise operator. -/
def ofSymbol? : String → Option BitOperator
  | "&" => some .and
  | "|" => some .or
  | "^" => some .xor
  | "<<" => some .shl
  | ">>" => some .shr
  | _ => none

/-- The number of places a shift moves by: only 0 to 127 are places of a
128-bit integer. -/
def shiftAmount? (amount : Int64) : Option Nat :=
  let n := amount.toInt
  if 0 ≤ n ∧ n < 128 then some n.toNat else none

/-- The operator on 128-bit two's complement integers. A left shift drops the
bits that leave the word, a right shift keeps the sign. There is no result for a
shift amount outside the word. -/
def result? (op : BitOperator) (value : Int) (argument : Int64) : Option Int :=
  let x := BitVec.ofInt 128 value
  let y := BitVec.ofInt 128 argument.toInt
  match op with
  | .and => some (x &&& y).toInt
  | .or => some (x ||| y).toInt
  | .xor => some (x ^^^ y).toInt
  | .shl => (shiftAmount? argument).map fun n => (x <<< n).toInt
  | .shr => (shiftAmount? argument).map fun n => (x.sshiftRight n).toInt

end BitOperator

end FlowSelect
