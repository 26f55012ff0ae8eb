/-
# Schemas in JSON

Key definitions: `Schema.toJson`, `Schema.ofJson?`, `Schema.load`.
-/
import FlowSelect.Json.Reader
import FlowSelect.Json.Record
import FlowSelect.Schema.Validity

namespace FlowSelect

namespace ColumnSpec

/-- A column in JSON; absent semantics and aggregation are left out. -/
def toJson (c : ColumnSpec) : Json :=
  .obj ([("aliases", Json.texts c.aliases), ("parts", Json.texts c.parts),
      ("kind", .str c.kind.name)]
    ++ Json.fieldIf "semantics" (c.semantics.map fun s => .str s.name)
    ++ Json.fieldIf "aggregation" (c.aggregation.map .str))

/-- Reads a column. -/
def ofJson? (j : Json) : Option ColumnSpec :=
  match j.record? ["aliases", "parts", "kind", "semantics", "aggregation"] with
  | some [aliases, parts, kind, semantics, aggregation] => do
    return {
      aliases := ← Json.required (Json.list? Json.text?) aliases
      parts := ← Json.required (Json.list? Json.text?) parts
      kind := ← Json.defaulted .number (Json.choice? Kind.ofName?) kind
      semantics := ← Json.optional (Json.choice? Semantics.ofName?) semantics
      aggregation := ← Json.optional Json.text? aggregation }
  | _ => none

end ColumnSpec

namespace GroupSpec

/-- A group in JSON. -/
def toJson (g : GroupSpec) : Json :=
  .obj [("alias", .str g.name), ("members", Json.texts g.members),
    ("aggregate", .bool g.aggregate)]

/-- Reads a group. -/
def ofJson? (j : Json) : Option GroupSpec :=
  match j.record? ["alias", "members", "aggregate"] with
  | some [name, members, aggregate] => do
    return {
      name := ← Json.required Json.text? name
      members := ← Json.required (Json.list? Json.text?) members
      aggregate := ← Json.defaulted false Json.bool? aggregate }
  | _ => none

end GroupSpec

namespace Schema

/-- A schema in JSON. -/
def toJson (s : Schema) : Json :=
  .obj [("columns", .arr (s.columns.map ColumnSpec.toJson)),
    ("groups", .arr (s.groups.map GroupSpec.toJson)),
    ("timestamp_column", .str s.timestampColumn)]

/-- Reads a schema without checking it. -/
def ofJson? (j : Json) : Option Schema :=
  match j.record? ["columns", "groups", "timestamp_column"] with
  | some [columns, groups, timestampColumn] => do
    return {
      columns := ← Json.required (Json.list? ColumnSpec.ofJson?) columns
      groups := ← Json.defaulted [] (Json.list? GroupSpec.ofJson?) groups
      timestampColumn := ← Json.defaulted defaultTimestampColumn Json.text? timestampColumn }
  | _ => none

/-- Why a file could not be read. -/
inductive FileFault where
  | missing | directory | notDirectory
  deriving DecidableEq, Repr

/-- The wording of a file fault. -/
def FileFault.message : FileFault → String
  | .missing => "No such file or directory (os error 2)"
  | .directory => "Is a directory (os error 21)"
  | .notDirectory => "Not a directory (os error 20)"

/-- Why a schema could not be loaded. -/
inductive LoadFault where
  | unreadable (fault : FileFault)
  | malformed
  | invalid (fault : SchemaFault)
  deriving DecidableEq, Repr

/-- The wording of a load fault. -/
def LoadFault.message : LoadFault → String
  | .unreadable fault => "Failed to read schema: " ++ fault.message
  | .malformed => "Failed to parse schema"
  | .invalid fault => "Invalid schema: " ++ fault.message

/-- Reads the text of a schema without checking the schema. -/
def parse? (text : String) : Option Schema :=
  match Json.read? text with
  | some j => ofJson? j
  | none => none

/-- A schema that was checked. -/
def checked (s : Schema) : Except LoadFault Schema :=
  match s.validate with
  | .ok () => .ok s
  | .error fault => .error (.invalid fault)

/-- Reads and checks the text of a schema. -/
def load (text : String) : Except LoadFault Schema :=
  match parse? text with
  | some s => s.checked
  | none => .error .malformed

end Schema

end FlowSelect
