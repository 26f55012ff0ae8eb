/-
# DNS names

A flow record stores a DNS name either as dotted text or in wire format: labels
of 1 to 63 bytes, each after a byte that gives its length, with an optional zero
byte at the end. Names are compared without the dots at their end and without
regard to ASCII letter case.

Key definitions: `Dns.labels?` (wire format), `Dns.decode` (either format),
`Dns.normalize`.
-/
import FlowSelect.Text.Bytes

namespace FlowSelect
namespace Dns

/-- A name without dots at its end, with ASCII letters in lower case. -/
def normalize (name : String) : String :=
  String.ofList ((name.toList.reverse.dropWhile (· == '.')).reverse.map Char.toLower)

/-- The labels of a name in wire format. They cover all bytes but a final zero. -/
def labels? : List UInt8 → Option (List String)
  | [] => some []
  | len :: rest =>
    if len = 0 then
      if rest.isEmpty then some [] else none
    else if len.toNat ≤ 63 ∧ len.toNat ≤ rest.length then
      match Text.ofBytes? (rest.take len.toNat), labels? (rest.drop len.toNat) with
      | some label, some labels => some (label :: labels)
      | _, _ => none
    else none
  termination_by bytes => bytes.length
  decreasing_by simp only [List.length_drop, List.length_cons]; omega

/-- The dotted form of a name in wire format; at least one label is needed. -/
def wireName? (raw : String) : Option String :=
  match labels? (Text.bytes raw) with
  | some [] => none
  | some labels => some (String.intercalate "." labels)
  | none => none

/-- The name a record stores, whichever format it is in. -/
def decode (raw : String) : String :=
  match wireName? raw with
  | some name => normalize name
  | none => normalize raw

end Dns
end FlowSelect
