/-
# Targets

A left side stands for one or more columns, its targets. A comparison is compiled
for each target and holds when it holds for some of them.

Key definitions: `Side.targets`, `broadcast`.
-/
import FlowSelect.Comparison.Basic
import FlowSelect.Compile.Side

namespace FlowSelect

/-- A column on the left side, with what is applied to it before it is compared. -/
structure Target where
  column : Column
  aggregate : Bool
  mask : Option (BitOperator × Int64)
  deriving DecidableEq, Repr

namespace Target

/-- The operand for one part of the column. -/
def operand (t : Target) (part : String) : Operand :=
  let base : Operand :=
    if t.aggregate then .aggregate t.column.aggregationFunction part else .column part
  match t.mask with
  | some (op, argument) => .masked base op argument
  | none => base

/-- Whether the column holds one of the given kinds; a raw column may hold any. -/
def accepts (t : Target) (kinds : List Kind) : Bool :=
  match t.column.kind with
  | some kind => kinds.contains kind
  | none => true

/-- The fault that the column does not fit a right side. -/
def mismatch (t : Target) (right : Side) (reason : MismatchFault) : Fault :=
  .mismatch ("column " ++ t.column.name) right.describe reason

/-- One formula for each part, joined by `OR`. -/
def eachPart? (t : Target) (f : String → Predicate) : Option Predicate :=
  Formula.disjoin? (t.column.parts.map f)

/-- The comparison of every part with a constant, joined by `OR`. -/
def compareParts (t : Target) (r : Relation) (constant : Constant) : Except Fault Predicate :=
  match t.eachPart? fun part => .atom ⟨t.operand part, r, constant⟩ with
  | some p => .ok p
  | none => .error (.internal (.columnHasNoParts t.column.name))

end Target

namespace Side

/-- The targets of a left side. An outer bitwise operator replaces an inner one. -/
def targets : Side → Except Fault (List Target)
  | .column c => .ok [{ column := c, aggregate := false, mask := none }]
  | .group g =>
    .ok (g.members.map fun c => { column := c, aggregate := g.aggregate, mask := none })
  | .masked side op argument =>
    side.targets.map fun ts => ts.map fun t => { t with mask := some (op, argument) }
  | other => .error (.mismatch other.describe "comparison" .leftNotColumn)

end Side

/-- Compiles for each target in turn. With `lenient`, targets that do not fit are
passed over and the first such fault is kept; any other fault ends the work. -/
def compileEach (lenient : Bool) (compile : Target → Except Fault Predicate) :
    List Target → Except Fault (List Predicate × Option Fault)
  | [] => .ok ([], none)
  | t :: ts =>
    match compile t with
    | .ok p =>
      match compileEach lenient compile ts with
      | .ok (ps, fault?) => .ok (p :: ps, fault?)
      | .error fault => .error fault
    | .error fault =>
      if lenient && fault.isMismatch then
        match compileEach lenient compile ts with
        | .ok (ps, _) => .ok (ps, some fault)
        | .error fault => .error fault
      else .error fault

/-- Compiles for every target and joins the results by `OR`. Of several targets
those that do not fit are passed over; it is a fault if none fits. -/
def compileAll (compile : Target → Except Fault Predicate) (ts : List Target) :
    Except Fault Predicate :=
  match compileEach (1 < ts.length) compile ts with
  | .error fault => .error fault
  | .ok (ps, fault?) =>
    match Formula.disjoin? ps with
    | some p => .ok p
    | none => .error (fault?.getD (.internal .emptyGroup))

/-- Compiles for every target of a left side. -/
def broadcast (left : Side) (compile : Target → Except Fault Predicate) :
    Except Fault Predicate :=
  match left.targets with
  | .error fault => .error fault
  | .ok ts => compileAll compile ts

end FlowSelect
