/-
# IPv6 addresses

Eight groups of one to four hexadecimal digits between colons. One `::` stands
for one or more groups of zeros, and the last two groups may be written as a
dotted IPv4 address, whose octets have no leading zeros.

An address is stored in two columns, so `high` and `low` give its halves.
-/
import FlowSelect.Fault
import FlowSelect.Text.Digits
import FlowSelect.Text.Split

namespace FlowSelect

/-- An IPv6 address as a 128-bit word. -/
abbrev Ip6 := BitVec 128

namespace Ip6

/-- The upper 64 bits. -/
def high (a : Ip6) : UInt64 := UInt64.ofBitVec (a.extractLsb' 64 64)

/-- The lower 64 bits. -/
def low (a : Ip6) : UInt64 := UInt64.ofBitVec (a.extractLsb' 0 64)

/-- A group of hexadecimal digits. -/
def group? (cs : List Char) : Option Nat :=
  if Digits.isHexRun cs && cs.length ≤ 4 then some (Digits.hexadecimal cs) else none

/-- An octet of a dotted tail. -/
def octet? (cs : List Char) : Option Nat :=
  if Digits.isRun cs && cs.length ≤ 3 && Digits.decimal cs ≤ 255
      && (cs.length == 1 || cs.head? != some '0') then
    some (Digits.decimal cs)
  else none

/-- The two groups a dotted tail stands for. -/
def dotted? (cs : List Char) : Option (List Nat) :=
  match Text.splitAt '.' cs with
  | [a, b, c, d] =>
    match octet? a, octet? b, octet? c, octet? d with
    | some a, some b, some c, some d => some [256 * a + b, 256 * c + d]
    | _, _, _, _ => none
  | _ => none

/-- The last piece of an address: a group, or a dotted tail where one may stand. -/
def lastPiece? (dottedTail : Bool) (cs : List Char) : Option (List Nat) :=
  match group? cs with
  | some n => some [n]
  | none => if dottedTail then dotted? cs else none

/-- The groups of a list of pieces. -/
def pieces? (dottedTail : Bool) : List (List Char) → Option (List Nat)
  | [] => some []
  | [g] => lastPiece? dottedTail g
  | g :: gs =>
    match group? g, pieces? dottedTail gs with
    | some n, some ns => some (n :: ns)
    | _, _ => none

/-- The groups written by the characters on one side of `::`. -/
def groups? (dottedTail : Bool) (cs : List Char) : Option (List Nat) :=
  if cs.isEmpty then some [] else pieces? dottedTail (Text.splitAt ':' cs)

/-- The characters before and after the first `::`. -/
def cutDouble? : List Char → Option (List Char × List Char)
  | [] => none
  | ':' :: ':' :: cs => some ([], cs)
  | c :: cs => (cutDouble? cs).map fun (left, right) => (c :: left, right)

/-- The eight groups of an address. -/
def eight? (cs : List Char) : Option (List Nat) :=
  match cutDouble? cs with
  | none =>
    match groups? true cs with
    | some ns => if ns.length = 8 then some ns else none
    | none => none
  | some (left, right) =>
    match groups? false left, groups? true right with
    | some ls, some rs =>
      if ls.length + rs.length ≤ 7 then
        some (ls ++ List.replicate (8 - (ls.length + rs.length)) 0 ++ rs)
      else none
    | _, _ => none

/-- The number whose digits in base 65536 are the given groups. -/
def ofGroups (ns : List Nat) : Nat := ns.foldl (fun n g => 65536 * n + g) 0

/-- The address written by the given characters. -/
def read? (cs : List Char) : Option Ip6 :=
  (eight? cs).map fun ns => BitVec.ofNat 128 (ofGroups ns)

/-- Reads an address. -/
def parse (text : String) : Except Fault Ip6 :=
  match read? text.toList with
  | some a => .ok a
  | none => .error (.format .ip6 text .ip6Form)

end Ip6

end FlowSelect
