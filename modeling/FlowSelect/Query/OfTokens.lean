/-
# Queries from tokens

Reads the token tree of a filter as a query. The functions give nothing for trees
that the grammar does not produce.

Key definitions: `Query.ofItems?` (a flat expression), `Query.ofProgram?`.
-/
import FlowSelect.Grammar.Token
import FlowSelect.Query.Basic

namespace FlowSelect

/-- The column that a token names. -/
def ColumnName.ofToken? : Token → Option ColumnName
  | .node .column _ text _ => some (.registered text)
  | .node .rawColumn _ text _ => some (.raw text)
  | _ => none

/-- The left side that a token writes. -/
def Subject.ofToken? : Token → Option Subject
  | .node .masked _ _ [name, op, number] =>
    (ColumnName.ofToken? name).map fun c => .masked c op.text number.text
  | t => (ColumnName.ofToken? t).map .column

/-- The form and the text of the value that a token writes. -/
def ValueForm.ofToken? : Token → Option (ValueForm × String)
  | .node .timestamp _ text _ => some (.timestamp, text)
  | .node .ip6Subnet _ text _ => some (.ip6Subnet, text)
  | .node .ip6 _ text _ => some (.ip6, text)
  | .node .ip4Subnet _ text _ => some (.ip4Subnet, text)
  | .node .ip4 _ text _ => some (.ip4, text)
  | .node .number _ text _ => some (.number, text)
  | .node .quoted _ _ (inner :: _) => some (.quoted, inner.text)
  | .node .word _ text _ => some (.word, text)
  | _ => none

namespace Clause

/-- A clause from its parts. -/
def ofParts? (span : Span) (subject : Token) (relation : Option Token) (value : Token) :
    Option Clause :=
  match Subject.ofToken? subject, ValueForm.ofToken? value with
  | some subject, some (form, value) =>
    some { span, subject, relation := relation.map Token.text, form, value }
  | _, _ => none

/-- The clause that the tokens inside a comparison write. -/
def ofTokens? (span : Span) : List Token → Option Clause
  | [subject, value] => ofParts? span subject none value
  | [subject, relation, value] => ofParts? span subject (some relation) value
  | _ => none

end Clause

/-- A member of a flat expression. -/
inductive Item where
  | not
  | link (c : Connective)
  | operand (q : Query)
  deriving DecidableEq, Repr

namespace Query

/-- The chain that a flat expression writes; `nots` counts the `not` before its
first operand. -/
def chain? : (nots : Nat) → List Item → Option (Query × List (Connective × Query))
  | nots, .not :: items => chain? (nots + 1) items
  | nots, [.operand q] => some (negated nots q, [])
  | nots, .operand q :: .link c :: items =>
    match chain? 0 items with
    | some (next, rest) => some (negated nots q, (c, next) :: rest)
    | none => none
  | _, _ => none

/-- The query that a flat expression writes. -/
def ofItems? (items : List Item) : Option Query :=
  (chain? 0 items).map fun (first, rest) => ofChain first rest

mutual

/-- The member of an expression that a token writes. -/
def item? : Token → Option Item
  | .node rule start text children =>
    match rule with
    | .not => some .not
    | .and => some (.link .and)
    | .or => some (.link .or)
    | .comparison =>
      (Clause.ofTokens? (Token.node rule start text children).span children).map fun c =>
        .operand (.clause c)
    | .expr =>
      match items? children with
      | some items => (ofItems? items).map .operand
      | none => none
    | _ => none

/-- The members of an expression that several tokens write. -/
def items? : List Token → Option (List Item)
  | [] => some []
  | t :: ts =>
    match item? t, items? ts with
    | some item, some items => some (item :: items)
    | _, _ => none

end

/-- The query that the token of an expression writes. -/
def ofToken? (t : Token) : Option Query :=
  match item? t with
  | some (.operand q) => some q
  | _ => none

/-- The query of a whole program's tokens; a program without an expression asks
for nothing. -/
def ofProgram? (ts : List Token) : Option (Option Query) :=
  match ts with
  | [.node .program _ _ children] =>
    match children.find? fun t => t.rule == .expr with
    | some t => (ofToken? t).map some
    | none => some none
  | _ => none

end Query

end FlowSelect
