/-
# Subnets

An address and the number of leading bits that count. The subnet covers the
addresses from `low`, with all other bits clear, to `high`, with all other bits
set.

Key definitions: `Subnet.low`, `Subnet.high`, `Subnet.parseIp4`,
`Subnet.parseIp6`.
-/
import FlowSelect.Net.Ip4
import FlowSelect.Net.Ip6

namespace FlowSelect

/-- An address of `w` bits of which the first `bits` count. -/
structure Subnet (w : Nat) where
  address : BitVec w
  bits : Nat
  bits_le : bits ≤ w
  deriving DecidableEq, Repr

namespace Subnet

variable {w : Nat}

/-- A word with its last `k` bits cleared. -/
def clearLast (k : Nat) (a : BitVec w) : BitVec w := (a >>> k) <<< k

/-- The first address of a subnet: the bits that do not count are clear. -/
def low (s : Subnet w) : BitVec w := clearLast (w - s.bits) s.address

/-- The last address of a subnet: the bits that do not count are set, that is,
clear in the complement. -/
def high (s : Subnet w) : BitVec w := ~~~(clearLast (w - s.bits) (~~~s.address))

/-- A mask width of at most `most` bits; it may be written with a plus sign. -/
def width? (most : Nat) (cs : List Char) : Option Nat :=
  let digits := match cs with
    | '+' :: rest => rest
    | _ => cs
  if Digits.isRun digits && Digits.decimal digits ≤ most then some (Digits.decimal digits) else none

/-- Splits a text at the first slash and checks the mask width after it, which
comes before any look at the address. -/
def splitMask (most : Nat) (cs : List Char) :
    Except FormatFault (List Char × { n : Nat // n ≤ most }) :=
  match Text.cutAt? '/' cs with
  | none => .error .maskMissing
  | some (address, bits) =>
    match width? most bits with
    | none => .error (.maskWidth (String.ofList bits) most)
    | some n => if h : n ≤ most then .ok (address, ⟨n, h⟩) else
        .error (.maskWidth (String.ofList bits) most)

/-- Reads an IPv4 subnet. A fault in the address concerns the text before the
slash. -/
def parseIp4 (text : String) : Except Fault (Subnet 32) :=
  match splitMask 32 text.toList with
  | .error reason => .error (.format .ip4Subnet text reason)
  | .ok (address, ⟨n, h⟩) =>
    match Ip4.parseAs .ip4Subnet (String.ofList address) with
    | .error fault => .error fault
    | .ok a => .ok ⟨a, n, h⟩

/-- Reads an IPv6 subnet. A fault in the address concerns the whole text. -/
def parseIp6 (text : String) : Except Fault (Subnet 128) :=
  match splitMask 128 text.toList with
  | .error reason => .error (.format .ip6Subnet text reason)
  | .ok (address, ⟨n, h⟩) =>
    match Ip6.read? address with
    | none => .error (.format .ip6Subnet text .ip6Form)
    | some a => .ok ⟨a, n, h⟩

end Subnet

end FlowSelect
