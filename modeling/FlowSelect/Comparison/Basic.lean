/-
# Comparisons

The atoms of a compiled filter: an operand, a relation and a constant. A
comparison renders to the text an engine receives and can be evaluated on a row.

Key definitions: `Comparison.accepts`, `Comparison.render`, `Predicate` (formulas
of comparisons) and its `engineText`.
-/
import FlowSelect.Comparison.Operand
import FlowSelect.Formula

namespace FlowSelect

/-- The right side of a comparison. -/
inductive Constant where
  | int (n : Int64)
  | uint (n : UInt64)
  | text (s : String)
  deriving DecidableEq, Repr

namespace Constant

/-- The characters of a text inside quotes: a backslash comes before a quote and
before a backslash. -/
def escape : List Char → List Char
  | [] => []
  | c :: cs => if c = '\\' ∨ c = '"' then '\\' :: c :: escape cs else c :: escape cs

/-- Engine text of a constant. -/
def render : Constant → String
  | .int n => toString n.toInt
  | .uint n => toString n.toNat
  | .text s => "\"" ++ String.ofList (escape s.toList) ++ "\""

end Constant

/-- An operand compared with a constant. -/
structure Comparison where
  operand : Operand
  relation : Relation
  constant : Constant
  deriving DecidableEq, Repr

namespace Comparison

/-- Engine text of a comparison. -/
def render (c : Comparison) : String :=
  c.operand.render ++ " " ++ c.relation.symbol ++ " " ++ c.constant.render

/-- Whether a value stands in a relation to a constant. Texts have no order, and
values of different types stand in no relation. -/
def related : Relation → Scalar → Constant → Bool
  | r, .int x, .int n => r.holds (compare x n.toInt)
  | r, .int x, .uint n => r.holds (compare x (n.toNat : Int))
  | .eq, .text s, .text t => s == t
  | .ne, .text s, .text t => s != t
  | _, _, _ => false

/-- Whether a row satisfies a comparison. -/
def accepts (row : Row) (c : Comparison) : Bool :=
  match c.operand.value? row with
  | some value => related c.relation value c.constant
  | none => false

/-- Whether only a look at the row can decide the comparison: an engine does not
decode stored text. -/
def needsRow (c : Comparison) : Bool :=
  match c.operand with
  | .decoded _ _ => true
  | _ => false

/-- The comparison with the opposite relation. -/
def complement (c : Comparison) : Comparison :=
  { c with relation := c.relation.complement }

end Comparison

/-- A formula of comparisons. -/
abbrev Predicate := Formula Comparison

namespace Predicate

/-- Whether a row satisfies a predicate. -/
def accepts (row : Row) (p : Predicate) : Bool := p.eval (Comparison.accepts row)

/-- The predicate with every comparison turned into its opposite. -/
def complement (p : Predicate) : Predicate := p.negate Comparison.complement

/-- Whether some comparison needs a look at the row. -/
def needsRow (p : Predicate) : Bool := p.atoms.any Comparison.needsRow

/-- The part of a predicate that an engine can evaluate. -/
def pushdown? (p : Predicate) : Option Predicate := p.relax fun c => !c.needsRow

/-- The text of the whole predicate. -/
def text (p : Predicate) : String := p.render Comparison.render

/-- The text handed to an engine, empty when it can evaluate nothing. -/
def engineText (p : Predicate) : String :=
  match pushdown? p with
  | some q => text q
  | none => ""

end Predicate

end FlowSelect
