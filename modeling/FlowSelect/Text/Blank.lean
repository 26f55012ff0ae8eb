/-
# Blank characters

The white space characters of Unicode. A filter text made of nothing else asks
for nothing.

Key definitions: `isBlank`, `trim`.
-/

namespace FlowSelect
namespace Text

/-- The characters with the Unicode property White_Space. -/
def isBlank (c : Char) : Bool :=
  let n := c.toNat
  (0x09 ≤ n && n ≤ 0x0D) || n == 0x20 || n == 0x85 || n == 0xA0 || n == 0x1680
    || (0x2000 ≤ n && n ≤ 0x200A) || n == 0x2028 || n == 0x2029 || n == 0x202F
    || n == 0x205F || n == 0x3000

/-- A text without the blanks at its ends. -/
def trim (s : String) : String :=
  String.ofList (((s.toList.dropWhile isBlank).reverse.dropWhile isBlank).reverse)

/-- Whether a text has blanks only. -/
def isAllBlank (s : String) : Bool := s.toList.all isBlank

end Text
end FlowSelect
