/-
# Sides of a comparison

What stands on either side of a comparison once names are looked up and literals
are read.

Key definitions: `Side`, `Side.describe`, `Side.mask`.
-/
import FlowSelect.Column
import FlowSelect.Net.Subnet

namespace FlowSelect

/-- A value that a column is compared with. The meaning of a word depends on the
column. -/
inductive Literal where
  | number (n : Int64)
  | ip4 (a : Ip4)
  | ip6 (a : Ip6)
  | timestamp (seconds : Int64)
  | quoted (s : String)
  | word (s : String)
  deriving DecidableEq, Repr

/-- A set of addresses that a column is tested for. -/
inductive Network where
  | ip4 (s : Subnet 32)
  | ip6 (s : Subnet 128)
  deriving DecidableEq, Repr

/-- One side of a comparison. -/
inductive Side where
  | column (c : Column)
  | group (g : Group)
  | masked (side : Side) (op : BitOperator) (argument : Int64)
  | literal (l : Literal)
  | network (n : Network)
  deriving DecidableEq, Repr

/-- What a message calls a literal. -/
def Literal.describe : Literal → String
  | .number n => "number " ++ toString n.toInt
  | .ip4 _ => "IPv4 address"
  | .ip6 _ => "IPv6 address"
  | .timestamp _ => "timestamp"
  | .quoted s => "string \"" ++ s ++ "\""
  | .word s => "'" ++ s ++ "'"

/-- What a message calls a network. -/
def Network.describe : Network → String
  | .ip4 _ => "IPv4 subnet"
  | .ip6 _ => "IPv6 subnet"

namespace Side

/-- What a message calls a side. -/
def describe : Side → String
  | .column c => "column " ++ c.name
  | .group g => "group " ++ g.name
  | .masked side op argument =>
    side.describe ++ " " ++ op.symbol ++ " " ++ toString argument.toInt
  | .literal l => l.describe
  | .network n => n.describe

/-- What an alias names, as a side. -/
def ofResolved : Resolved → Side
  | .column c => .column c
  | .group g => .group g

/-- A side under a bitwise operator. The argument has to be a number, and then
the side a column or a group. -/
def mask (side : Side) (op : BitOperator) (argument : Side) : Except Fault Side :=
  match argument with
  | .literal (.number n) =>
    match side with
    | .column c => .ok (.masked (.column c) op n)
    | .group g => .ok (.masked (.group g) op n)
    | other => .error (.mismatch other.describe argument.describe (.operatorNeedsColumn op))
  | other => .error (.mismatch side.describe other.describe (.operatorNeedsNumber op))

end Side

end FlowSelect
