/-
# TCP flags

A set of TCP flags is written as a word of flag letters, in any order and letter
case. Its mask has one bit for each flag.
-/
import FlowSelect.Fault

namespace FlowSelect
namespace TcpFlags

/-- The bit of a flag letter in upper case. -/
def upperBit? : Char → Option (BitVec 8)
  | 'F' => some 0x01
  | 'S' => some 0x02
  | 'R' => some 0x04
  | 'P' => some 0x08
  | 'A' => some 0x10
  | 'U' => some 0x20
  | 'E' => some 0x40
  | 'C' => some 0x80
  | _ => none

/-- The bit of a flag letter. -/
def bit? (letter : Char) : Option (BitVec 8) := upperBit? letter.toUpper

/-- Adds the flags of the letters to a mask; the first unknown letter is reported. -/
def addLetters : BitVec 8 → List Char → Except FormatFault (BitVec 8)
  | mask, [] => .ok mask
  | mask, c :: cs =>
    match bit? c with
    | some bit => addLetters (mask ||| bit) cs
    | none => .error (.unknownFlag c)

/-- The mask of a word of flag letters. -/
def mask (cs : List Char) : Except FormatFault (BitVec 8) :=
  if cs.isEmpty then .error .flagsMissing else addLetters 0 cs

/-- Reads a word of flag letters. -/
def parse (text : String) : Except Fault Int64 :=
  match mask text.toList with
  | .ok m => .ok (Int64.ofNat m.toNat)
  | .error reason => .error (.format .flags text reason)

end TcpFlags
end FlowSelect
