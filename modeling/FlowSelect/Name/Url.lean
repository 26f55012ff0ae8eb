/-
# URLs

A URL stores characters outside its alphabet as `%XX`, one escape for each byte
of their UTF-8 encoding.

Key definition: `Url.decode?`.
-/
import FlowSelect.Text.Bytes
import FlowSelect.Text.Digits

namespace FlowSelect
namespace Url

/-- The bytes that a percent-encoded text stands for. An escape needs two
hexadecimal digits. -/
def decodeBytes? : List Char → Option (List UInt8)
  | [] => some []
  | '%' :: a :: b :: rest =>
    match Digits.hexValue? a, Digits.hexValue? b, decodeBytes? rest with
    | some high, some low, some bytes => some (UInt8.ofNat (16 * high + low) :: bytes)
    | _, _, _ => none
  | c :: rest =>
    if c = '%' then none
    else (decodeBytes? rest).map (String.utf8EncodeChar c ++ ·)

/-- The text that a percent-encoded text stands for. -/
def decode? (raw : String) : Option String :=
  match decodeBytes? raw.toList with
  | some bytes => Text.ofBytes? bytes
  | none => none

end Url
end FlowSelect
