/-
# The built-in schema

The columns of IP flow records that filters use most.
-/
import FlowSelect.Schema.Basic

namespace FlowSelect
namespace Schema

/-- A column of a kind, with no further meaning. -/
def plain (aliases parts : List String) (kind : Kind) : ColumnSpec :=
  { aliases, parts, kind, semantics := none, aggregation := none }

/-- A counter, which aggregate groups sum up. -/
def counter (aliases parts : List String) : ColumnSpec :=
  { aliases, parts, kind := .number, semantics := none, aggregation := some "sum" }

/-- A column whose contents have a meaning. -/
def meaning (aliases parts : List String) (kind : Kind) (semantics : Semantics) : ColumnSpec :=
  { aliases, parts, kind, semantics := some semantics, aggregation := none }

/-- The built-in columns. -/
def builtinColumns : List ColumnSpec :=
  [ plain ["%ts"] ["e0id150"] .timestamp,
    plain ["%te"] ["e0id151"] .timestamp,
    plain ["%sa4", "%srcip4"] ["e0id8"] .ip4,
    plain ["%da4", "%dstip4"] ["e0id12"] .ip4,
    plain ["%sa6", "%srcip6"] ["e0id27p0", "e0id27p1"] .ip6,
    plain ["%da6", "%dstip6"] ["e0id28p0", "e0id28p1"] .ip6,
    plain ["%sp", "%srcport"] ["e0id7"] .number,
    plain ["%dp", "%dstport"] ["e0id11"] .number,
    meaning ["%pr", "%proto"] ["e0id4"] .number .protocol,
    meaning ["%flg", "%tcpflags"] ["e0id6"] .number .flags,
    plain ["%tos"] ["e0id5"] .number,
    counter ["%pkt", "%packets"] ["e0id2"],
    counter ["%byt", "%bytes"] ["e0id1"],
    counter ["%fl", "%flows"] ["e0id3"],
    plain ["%in"] ["e0id10"] .number,
    plain ["%out"] ["e0id14"] .number,
    plain ["%sas"] ["e0id16"] .number,
    plain ["%das"] ["e0id17"] .number,
    meaning ["%url"] ["e39499id20"] .text .url,
    plain ["%host"] ["e39499id21"] .text,
    meaning ["%dns"] ["e8057id4"] .text .dns ]

/-- The built-in groups. -/
def builtinGroups : List GroupSpec :=
  [ { name := "%sa", members := ["%sa4", "%sa6"], aggregate := false },
    { name := "%da", members := ["%da4", "%da6"], aggregate := false },
    { name := "%ip", members := ["%sa4", "%da4", "%sa6", "%da6"], aggregate := false },
    { name := "%port", members := ["%sp", "%dp"], aggregate := false },
    { name := "%as", members := ["%sas", "%das"], aggregate := false },
    { name := "%if", members := ["%in", "%out"], aggregate := false },
    { name := "%volume", members := ["%pkt", "%byt"], aggregate := true } ]

/-- The schema used when none is given. -/
def builtin : Schema :=
  { columns := builtinColumns
    groups := builtinGroups
    timestampColumn := defaultTimestampColumn }

end Schema
end FlowSelect
