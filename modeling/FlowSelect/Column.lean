/-
# Columns named in a filter

An alias in a filter names a column or a group of the schema; a raw column names
a stored column directly. A column found under one of its aliases goes by that
alias from then on.

Key definitions: `Schema.resolve`, `Schema.suggestions`.
-/
import FlowSelect.Fault
import FlowSelect.Schema.Basic
import FlowSelect.Text.EditDistance

namespace FlowSelect

/-- A column as a filter names it. A raw column has no kind and takes literals of
any kind. -/
structure Column where
  name : String
  parts : List String
  kind : Option Kind
  semantics : Option Semantics
  aggregation : Option String
  deriving DecidableEq, Repr

namespace Column

/-- The function that aggregate groups apply to the column. -/
def aggregationFunction (c : Column) : String := c.aggregation.getD "sum"

/-- A stored column used as it is. -/
def raw (name : String) : Column :=
  { name, parts := [name], kind := none, semantics := none, aggregation := none }

/-- A column of a schema under one of its aliases. -/
def ofSpec (name : String) (spec : ColumnSpec) : Column :=
  { name
    parts := spec.parts
    kind := some spec.kind
    semantics := spec.semantics
    aggregation := spec.aggregation }

end Column

/-- A group as a filter names it. -/
structure Group where
  name : String
  members : List Column
  aggregate : Bool
  deriving DecidableEq, Repr

/-- What an alias names. -/
inductive Resolved where
  | column (c : Column)
  | group (g : Group)
  deriving DecidableEq, Repr

namespace Schema

/-- The aliases that two edits or fewer turn a word into. -/
def suggestions (s : Schema) (word : String) : List String :=
  s.aliases.filter fun a => Text.editDistance word a ≤ 2

/-- The fault that no column has an alias. -/
def unknownColumn (s : Schema) (name : String) : Fault :=
  .unknownColumn name (s.suggestions name)

/-- The column with an alias. -/
def resolveColumn (s : Schema) (name : String) : Except Fault Column :=
  match s.column? name with
  | some spec => .ok (Column.ofSpec name spec)
  | none => .error (s.unknownColumn name)

/-- The columns with the given aliases; the first unknown one is reported. -/
def resolveColumns (s : Schema) : List String → Except Fault (List Column)
  | [] => .ok []
  | name :: names =>
    match s.resolveColumn name with
    | .error fault => .error fault
    | .ok c =>
      match s.resolveColumns names with
      | .error fault => .error fault
      | .ok cs => .ok (c :: cs)

/-- The group with an alias, aggregated or not. -/
def resolveGroup (s : Schema) (name : String) (aggregate : Bool) : Except Fault Group :=
  match s.group? name with
  | none => .error (.unknownGroup name (s.suggestions name))
  | some spec =>
    match s.resolveColumns spec.members with
    | .error fault => .error fault
    | .ok members => .ok { name, members, aggregate }

/-- What an alias names: a column, or else a group. -/
def resolve (s : Schema) (name : String) : Except Fault Resolved :=
  match s.column? name with
  | some _ => (s.resolveColumn name).map .column
  | none =>
    match s.group? name with
    | some spec => (s.resolveGroup name spec.aggregate).map .group
    | none => .error (s.unknownColumn name)

end Schema

end FlowSelect
