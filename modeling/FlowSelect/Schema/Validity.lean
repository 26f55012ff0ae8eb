/-
# Valid schemas

A schema is valid when no alias is registered twice, every column has an alias
and a part, IPv6 columns have two parts, and every group has members, all of
which are columns. Repeated aliases are reported by name; a report that names
nothing is none.

Key definition: `Schema.validate`.
-/
import FlowSelect.Schema.Basic

namespace FlowSelect

/-- What is wrong with a schema. -/
inductive SchemaFault where
  | repeatedAliases (names : String)
  | aliasMissing
  | partsMissing (column : String)
  | ip6Parts (column : String) (found : Nat)
  | membersMissing (group : String)
  | unknownMember (group : String) (member : String)
  deriving DecidableEq, Repr

/-- The wording of a schema fault. -/
def SchemaFault.message : SchemaFault → String
  | .repeatedAliases names => "aliases registered more than once: " ++ names
  | .aliasMissing => "column without alias"
  | .partsMissing column => "column " ++ column ++ " has no parts"
  | .ip6Parts column found =>
    "IPv6 column " ++ column ++ " must have exactly two parts, found " ++ toString found
  | .membersMissing group => "group " ++ group ++ " has no members"
  | .unknownMember group member => "group " ++ group ++ " refers to unknown column " ++ member

namespace Schema

/-- The names that occur again in a list, each once, in the order in which they
are met the second time. -/
def repeated (seen reported : List String) : List String → List String
  | [] => []
  | a :: rest =>
    if seen.contains a then
      if reported.contains a then repeated seen reported rest
      else a :: repeated seen (a :: reported) rest
    else repeated (a :: seen) reported rest

/-- The repeated aliases of a schema in one text. -/
def repeatedAliases (s : Schema) : String :=
  String.intercalate ", " (repeated [] [] s.aliases)

/-- The fault of a column, if it has one. -/
def columnFault? (c : ColumnSpec) : Option SchemaFault :=
  match c.aliases with
  | [] => some .aliasMissing
  | name :: _ =>
    if c.parts.isEmpty then some (.partsMissing name)
    else if c.kind = .ip6 ∧ c.parts.length ≠ 2 then some (.ip6Parts name c.parts.length)
    else none

/-- The fault of a group, if it has one. -/
def groupFault? (s : Schema) (g : GroupSpec) : Option SchemaFault :=
  if g.members.isEmpty then some (.membersMissing g.name)
  else
    match g.members.find? fun m => (s.column? m).isNone with
    | some missing => some (.unknownMember g.name missing)
    | none => none

/-- The first fault of a schema, if it has one: aliases first, then columns, then
groups. -/
def fault? (s : Schema) : Option SchemaFault :=
  if s.repeatedAliases.isEmpty then
    match s.columns.findSome? columnFault? with
    | some fault => some fault
    | none => s.groups.findSome? s.groupFault?
  else some (.repeatedAliases s.repeatedAliases)

/-- Checks a schema. -/
def validate (s : Schema) : Except SchemaFault Unit :=
  match s.fault? with
  | some fault => .error fault
  | none => .ok ()

end Schema

end FlowSelect
