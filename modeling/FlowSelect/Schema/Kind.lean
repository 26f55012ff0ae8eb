/-
# What columns hold

The kind of a column says which literals it can be compared with. Its semantics
say how a bare word on the other side is read, and how stored text is decoded.
-/
import FlowSelect.Name.Dns
import FlowSelect.Name.Url

namespace FlowSelect

/-- What a column holds. -/
inductive Kind where
  | number | ip4 | ip6 | timestamp | text
  deriving DecidableEq, Repr

namespace Kind

/-- The name of a kind in schemas. -/
def name : Kind → String
  | .number => "number"
  | .ip4 => "ipv4"
  | .ip6 => "ipv6"
  | .timestamp => "timestamp"
  | .text => "string"

/-- All kinds. -/
def all : List Kind := [.number, .ip4, .ip6, .timestamp, .text]

/-- The kind with a name. -/
def ofName? (name : String) : Option Kind := all.find? fun k => k.name == name

end Kind

/-- What a column's contents mean. -/
inductive Semantics where
  | protocol | flags | url | dns
  deriving DecidableEq, Repr

namespace Semantics

/-- The name of a meaning in schemas. -/
def name : Semantics → String
  | .protocol => "protocol"
  | .flags => "flags"
  | .url => "url"
  | .dns => "dns"

/-- All meanings. -/
def all : List Semantics := [.protocol, .flags, .url, .dns]

/-- The meaning with a name. -/
def ofName? (name : String) : Option Semantics := all.find? fun s => s.name == name

/-- The text that a stored text stands for. -/
def decode? (semantics : Semantics) (raw : String) : Option String :=
  match semantics with
  | .dns => some (Dns.decode raw)
  | .url => Url.decode? raw
  | .protocol | .flags => some raw

end Semantics

end FlowSelect
