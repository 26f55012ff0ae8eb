/-
# IP protocols

The names of the well-known IP protocols and their numbers. Names are read in any
letter case.
-/
import FlowSelect.Fault

namespace FlowSelect
namespace Protocol

/-- The well-known protocols, in the order of their numbers. -/
def table : List (String × Nat) :=
  [("hopopt", 0), ("icmp", 1), ("igmp", 2), ("ggp", 3), ("ipencap", 4), ("st", 5), ("tcp", 6),
    ("egp", 8), ("igp", 9), ("pup", 12), ("udp", 17), ("hmp", 20), ("xns-idp", 22), ("rdp", 27),
    ("iso-tp4", 29), ("dccp", 33), ("xtp", 36), ("ddp", 37), ("idpr-cmtp", 38), ("ipv6", 41),
    ("ipv6-route", 43), ("ipv6-frag", 44), ("idrp", 45), ("rsvp", 46), ("gre", 47), ("esp", 50),
    ("ah", 51), ("skip", 57), ("icmpv6", 58), ("ipv6-icmp", 58), ("ipv6-nonxt", 59),
    ("ipv6-opts", 60), ("rspf", 73), ("vmtp", 81), ("eigrp", 88), ("ospf", 89), ("ax.25", 93),
    ("ipip", 94), ("etherip", 97), ("encap", 98), ("pim", 103), ("ipcomp", 108), ("vrrp", 112),
    ("l2tp", 115), ("isis", 124), ("sctp", 132), ("fc", 133), ("mobility-header", 135),
    ("udplite", 136), ("mpls-in-ip", 137), ("manet", 138), ("hip", 139), ("shim6", 140),
    ("wesp", 141), ("rohc", 142)]

/-- A text with its ASCII letters in lower case. -/
def lowerCase (text : String) : String := String.ofList (text.toList.map Char.toLower)

/-- The number of a protocol. -/
def number? (name : String) : Option Nat := table.lookup (lowerCase name)

/-- Reads a protocol name. -/
def parse (name : String) : Except Fault Int64 :=
  match number? name with
  | some n => .ok (Int64.ofNat n)
  | none => .error (.unknownProtocol name)

end Protocol
end FlowSelect
