/-
# IPv4 addresses

Four decimal octets between dots, most significant first. Leading zeros are
allowed.
-/
import FlowSelect.Fault
import FlowSelect.Text.Digits
import FlowSelect.Text.Split

namespace FlowSelect

/-- An IPv4 address as a 32-bit word. -/
abbrev Ip4 := BitVec 32

namespace Ip4

/-- The value of one octet. -/
def octet (cs : List Char) : Except FormatFault Nat :=
  if Digits.isRun cs then
    if Digits.decimal cs ≤ 255 then .ok (Digits.decimal cs)
    else .error (.octetTooLarge (String.ofList cs))
  else .error (.octetNotNumber (String.ofList cs))

/-- The values of several octets; the first bad one is reported. -/
def octets : List (List Char) → Except FormatFault (List Nat)
  | [] => .ok []
  | g :: gs =>
    match octet g with
    | .error reason => .error reason
    | .ok n =>
      match octets gs with
      | .error reason => .error reason
      | .ok ns => .ok (n :: ns)

/-- The number whose digits in base 256 are the given octets. -/
def ofOctets (os : List Nat) : Nat := os.foldl (fun n o => 256 * n + o) 0

/-- The address written by the given characters. -/
def read (cs : List Char) : Except FormatFault Ip4 :=
  let groups := Text.splitAt '.' cs
  if groups.length = 4 then
    match octets groups with
    | .error reason => .error reason
    | .ok os => .ok (BitVec.ofNat 32 (ofOctets os))
  else .error (.octetCount groups.length)

/-- Reads an address that stands for a literal of the given kind. -/
def parseAs (kind : LiteralKind) (text : String) : Except Fault Ip4 :=
  match read text.toList with
  | .ok a => .ok a
  | .error reason => .error (.format kind text reason)

/-- Reads an address. -/
def parse (text : String) : Except Fault Ip4 := parseAs .ip4 text

end Ip4

end FlowSelect
