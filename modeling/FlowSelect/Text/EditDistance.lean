/-
# Edit distance

The least number of single character insertions, deletions and substitutions
that turn one text into another, computed row by row: the row for `a` holds the
distances from `a` to every start of `b`.

Key definitions: `nextRow`, `editDistance`.
-/

namespace FlowSelect
namespace Text

/-- One row of the table from the row before it. `left` is the entry just
computed, `diag` the entry above it; the entries still to come are those of the
old row beside the characters of `b`. -/
def nextRow (a : Char) : (left diag : Nat) → (above : List Nat) → (b : List Char) → List Nat
  | left, diag, up :: above, c :: b =>
    let cost := if a = c then 0 else 1
    let entry := min (min (left + 1) (up + 1)) (diag + cost)
    entry :: nextRow a entry up above b
  | _, _, _, _ => []

/-- The row after one more character `a` of the first text. -/
def advanceRow (a : Char) (b : List Char) : List Nat → List Nat
  | [] => []
  | corner :: above => (corner + 1) :: nextRow a (corner + 1) corner above b

/-- The last entry of the last row is the distance. -/
def editDistance (a b : String) : Nat :=
  let first := List.range (b.toList.length + 1)
  let last := a.toList.foldl (fun row c => advanceRow c b.toList row) first
  last.getLastD 0

end Text
end FlowSelect
