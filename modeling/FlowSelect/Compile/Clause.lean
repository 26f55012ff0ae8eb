/-
# Compiling queries

Looks up the names of a query in a schema, reads its literals and compiles its
clauses. The first fault of a clause is the one of its column, then of its
operator, of its value, and of the comparison; the fault of a query is that of its
leftmost faulty clause.

Key definitions: `Clause.sides`, `Clause.compile`, `Query.compile`, `compileText`.
-/
import FlowSelect.Compile.Compare
import FlowSelect.Grammar.Furthest
import FlowSelect.Number
import FlowSelect.Query.OfTokens
import FlowSelect.Time.Timestamp

namespace FlowSelect

/-- Reads a relation. -/
def Relation.parse (symbol : String) : Except Fault Relation :=
  match ofSymbol? symbol with
  | some r => .ok r
  | none => .error (.internal (.unknownRelation symbol))

/-- Reads a bitwise operator. -/
def BitOperator.parse (symbol : String) : Except Fault BitOperator :=
  match ofSymbol? symbol with
  | some op => .ok op
  | none => .error (.internal (.unknownBitOperator symbol))

/-- The column or group that a name stands for. -/
def ColumnName.side (s : Schema) : ColumnName → Except Fault Side
  | .registered name => (s.resolve name).map Side.ofResolved
  | .raw name => .ok (.column (Column.raw name))

/-- The left side of a clause. -/
def Subject.side (s : Schema) : Subject → Except Fault Side
  | .column c => c.side s
  | .masked c op number =>
    match c.side s with
    | .error fault => .error fault
    | .ok side =>
      match BitOperator.parse op with
      | .error fault => .error fault
      | .ok op =>
        match Number.parse number with
        | .error fault => .error fault
        | .ok n => side.mask op (.literal (.number n))

/-- The right side that a value writes. -/
def ValueForm.side (form : ValueForm) (text : String) : Except Fault Side :=
  match form with
  | .timestamp => (Timestamp.parse text).map fun n => .literal (.timestamp n)
  | .ip6Subnet => (Subnet.parseIp6 text).map fun s => .network (.ip6 s)
  | .ip6 => (Ip6.parse text).map fun a => .literal (.ip6 a)
  | .ip4Subnet => (Subnet.parseIp4 text).map fun s => .network (.ip4 s)
  | .ip4 => (Ip4.parse text).map fun a => .literal (.ip4 a)
  | .number => (Number.parse text).map fun n => .literal (.number n)
  | .quoted => .ok (.literal (.quoted text))
  | .word => .ok (.literal (.word text))

namespace Clause

/-- The relation of a clause; equality if none is written. -/
def readRelation (c : Clause) : Except Fault Relation :=
  match c.relation with
  | some symbol => Relation.parse symbol
  | none => .ok .eq

/-- The left side, the relation and the right side of a clause. -/
def sides (s : Schema) (c : Clause) : Except Fault (Side × Relation × Side) :=
  match c.subject.side s with
  | .error fault => .error fault
  | .ok left =>
    match c.readRelation with
    | .error fault => .error fault
    | .ok r =>
      match c.form.side c.value with
      | .error fault => .error fault
      | .ok right => .ok (left, r, right)

/-- Compiles a clause. -/
def compile (s : Schema) (c : Clause) : Except Fault Predicate :=
  match c.sides s with
  | .error fault => .error fault
  | .ok (left, r, right) => left.compare r right

end Clause

/-- Compiles a query. -/
def Query.compile (s : Schema) : Query → Except Rejection Predicate
  | .clause c =>
    match c.compile s with
    | .ok p => .ok p
    | .error fault => .error { span := some c.span, cause := fault }
  | .not q => (q.compile s).map Predicate.complement
  | .and l r =>
    match l.compile s with
    | .error rejection => .error rejection
    | .ok p =>
      match r.compile s with
      | .error rejection => .error rejection
      | .ok q => .ok (.and p q)
  | .or l r =>
    match l.compile s with
    | .error rejection => .error rejection
    | .ok p =>
      match r.compile s with
      | .error rejection => .error rejection
      | .ok q => .ok (.or p q)

/-- The rejection of a text that is not in the language. -/
def Rejection.ofUnreadable : Fault → Rejection
  | .unreadable u => { span := some u.span, cause := .unreadable u }
  | fault => { span := none, cause := fault }

/-- The query of a text, if it asks for anything. -/
def Query.ofText (text : String) : Except Rejection (Option Query) :=
  match Language.read Language.program text with
  | .error fault => .error (.ofUnreadable fault)
  | .ok tokens =>
    match ofProgram? tokens with
    | some query => .ok query
    | none => .error { span := none, cause := .internal .strayToken }

/-- Compiles a filter text; a text without comparisons compiles to nothing. -/
def compileText (s : Schema) (text : String) : Except Rejection (Option Predicate) :=
  match Query.ofText text with
  | .error rejection => .error rejection
  | .ok none => .ok none
  | .ok (some query) => (query.compile s).map some

end FlowSelect
