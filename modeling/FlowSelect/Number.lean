/-
# Numbers

A number is written in decimal with an optional unit letter, or in hexadecimal
after `0x`, either with a minus sign before it. Its magnitude is at most
2^63 - 1, also below zero.

Key definitions: `Number.magnitude`, `Number.parse`.
-/
import FlowSelect.Fault
import FlowSelect.Text.Digits

namespace FlowSelect
namespace Number

/-- The largest magnitude a number may have. -/
def limit : Nat := 0x7fffffffffffffff

/-- What a unit letter multiplies by. -/
def scale? : List Char → Option Nat
  | [] => some 1
  | ['k'] | ['K'] => some 1_000
  | ['m'] | ['M'] => some 1_000_000
  | ['g'] | ['G'] => some 1_000_000_000
  | ['t'] | ['T'] => some 1_000_000_000_000
  | _ => none

/-- The number written by hexadecimal digits. -/
def hexMagnitude (cs : List Char) : Except FormatFault Nat :=
  if Digits.isHexRun cs then
    if Digits.hexadecimal cs ≤ limit then .ok (Digits.hexadecimal cs) else .error .hexTooLarge
  else .error .hexDigitsMissing

/-- The number written by decimal digits and a unit. The unit is looked at before
the range. -/
def decimalMagnitude (cs : List Char) : Except FormatFault Nat :=
  let digits := cs.takeWhile Char.isDigit
  let unit := cs.dropWhile Char.isDigit
  if digits.isEmpty then .error .digitsMissing
  else
    match scale? unit with
    | none => .error (.unknownSuffix (String.ofList unit))
    | some factor =>
      let n := Digits.decimal digits * factor
      if n ≤ limit then .ok n else .error .outOfRange

/-- The magnitude of a number without its sign. -/
def magnitude : List Char → Except FormatFault Nat
  | '0' :: 'x' :: hex => hexMagnitude hex
  | '0' :: 'X' :: hex => hexMagnitude hex
  | cs => decimalMagnitude cs

/-- The value of a number's characters. -/
def value : List Char → Except FormatFault Int
  | '-' :: cs => (magnitude cs).map fun n => -(n : Int)
  | cs => (magnitude cs).map fun n => (n : Int)

/-- Reads a number. -/
def parse (text : String) : Except Fault Int64 :=
  match value text.toList with
  | .ok n => .ok (Int64.ofInt n)
  | .error reason => .error (.format .number text reason)

end Number
end FlowSelect
