/-
# Splitting at a separator
-/

namespace FlowSelect
namespace Text

/-- The groups between the separators of a text; a text without separators is
one group. -/
def splitAt (separator : Char) : List Char → List (List Char)
  | [] => [[]]
  | c :: cs =>
    if c = separator then [] :: splitAt separator cs
    else
      match splitAt separator cs with
      | [] => [[c]]
      | group :: groups => (c :: group) :: groups

/-- The text before and after the first separator. -/
def cutAt? (separator : Char) : List Char → Option (List Char × List Char)
  | [] => none
  | c :: cs =>
    if c = separator then some ([], cs)
    else (cutAt? separator cs).map fun (left, right) => (c :: left, right)

end Text
end FlowSelect
