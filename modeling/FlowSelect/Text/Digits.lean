/-
# Digits

Reading runs of ASCII digits. Numbers are unbounded here; the places that need a
width check it themselves.

Key definitions: `decimal` and `hexadecimal` (the number a run denotes), `isRun`
(a non-empty run of digits).
-/

namespace FlowSelect
namespace Digits

/-- The value of a hexadecimal digit, in either case. -/
def hexValue? (c : Char) : Option Nat :=
  if c.isDigit then some (c.toNat - '0'.toNat)
  else if 'a' ≤ c ∧ c ≤ 'f' then some (c.toNat - 'a'.toNat + 10)
  else if 'A' ≤ c ∧ c ≤ 'F' then some (c.toNat - 'A'.toNat + 10)
  else none

/-- ASCII hexadecimal digits, in either case. -/
def isHex (c : Char) : Bool := (hexValue? c).isSome

/-- The number a run of decimal digits denotes. -/
def decimal (cs : List Char) : Nat := Nat.ofDigitChars 10 cs 0

/-- The number a run of hexadecimal digits denotes. -/
def hexadecimal (cs : List Char) : Nat :=
  cs.foldl (fun n c => 16 * n + (hexValue? c).getD 0) 0

/-- At least one character, and only decimal digits. -/
def isRun (cs : List Char) : Bool := !cs.isEmpty && cs.all Char.isDigit

/-- At least one character, and only hexadecimal digits. -/
def isHexRun (cs : List Char) : Bool := !cs.isEmpty && cs.all isHex

end Digits
end FlowSelect
