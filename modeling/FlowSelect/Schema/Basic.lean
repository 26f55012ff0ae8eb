/-
# Schemas

A schema names the columns of a flow table. A column has one or more aliases and
is stored in one or more parts; a group stands for several columns at once.

Key definitions: `Schema.column?` and `Schema.group?` (look-up by alias),
`Schema.aliases`.
-/
import FlowSelect.Schema.Kind

namespace FlowSelect

/-- A column of a schema. -/
structure ColumnSpec where
  aliases : List String
  parts : List String
  kind : Kind
  semantics : Option Semantics
  aggregation : Option String
  deriving DecidableEq, Repr

/-- A group of a schema; `members` are aliases of columns. -/
structure GroupSpec where
  name : String
  members : List String
  aggregate : Bool
  deriving DecidableEq, Repr

/-- The columns and groups of a flow table, and the stored column that holds a
record's time. -/
structure Schema where
  columns : List ColumnSpec
  groups : List GroupSpec
  timestampColumn : String
  deriving DecidableEq, Repr

namespace Schema

/-- The stored column that holds a record's time unless a schema says otherwise. -/
def defaultTimestampColumn : String := "e0id150"

/-- The schema without columns. -/
def empty : Schema :=
  { columns := [], groups := [], timestampColumn := defaultTimestampColumn }

/-- The aliases of all columns and groups, in the order of the schema. -/
def aliases (s : Schema) : List String :=
  s.columns.flatMap ColumnSpec.aliases ++ s.groups.map GroupSpec.name

/-- The first column with an alias. -/
def column? (s : Schema) (name : String) : Option ColumnSpec :=
  s.columns.find? fun c => c.aliases.contains name

/-- The first group with an alias. -/
def group? (s : Schema) (name : String) : Option GroupSpec :=
  s.groups.find? fun g => g.name == name

end Schema

end FlowSelect
