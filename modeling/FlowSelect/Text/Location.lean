/-
# Places in a text

Offsets count UTF-8 bytes. For people a place is a line and a column: lines end
with a line feed, and columns count characters, both from one.
-/

namespace FlowSelect

/-- A stretch of a text in UTF-8 bytes. -/
structure Span where
  offset : Nat
  length : Nat
  deriving DecidableEq, Repr

/-- A line and a column, both counted from one. -/
structure Location where
  line : Nat
  column : Nat
  deriving DecidableEq, Repr

namespace Text

/-- The number of UTF-8 bytes of a list of characters. -/
def byteLength : List Char → Nat
  | [] => 0
  | c :: cs => c.utf8Size + byteLength cs

/-- The characters that start before a byte offset. -/
def before : Nat → List Char → List Char
  | _, [] => []
  | 0, _ => []
  | n, c :: cs => c :: before (n - c.utf8Size) cs

/-- The place right after the given characters. -/
def locationAfter (cs : List Char) : Location :=
  { line := cs.count '\n' + 1
    column := (cs.reverse.takeWhile (· != '\n')).length + 1 }

/-- The place of a byte offset of a text. -/
def locate (text : String) (offset : Nat) : Location :=
  locationAfter (before offset text.toList)

end Text
end FlowSelect
