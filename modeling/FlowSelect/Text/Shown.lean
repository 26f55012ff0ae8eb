/-
# Quoted texts for people

A text in quotes in which every character can be told apart: quotes, backslashes
and common controls have short escapes, and characters without a shape of their
own are written by code point.

Key definition: `Text.shown`.
-/
import FlowSelect.Text.Unshown

namespace FlowSelect
namespace Text

/-- A character by its code point. -/
def codePoint (c : Char) : List Char :=
  ['\\', 'u', '{'] ++ Nat.toDigits 16 c.toNat ++ ['}']

/-- A character inside quotes. -/
def shownChar (c : Char) : List Char :=
  if c = '"' then ['\\', '"']
  else if c = '\\' then ['\\', '\\']
  else if c = '\n' then ['\\', 'n']
  else if c = '\r' then ['\\', 'r']
  else if c = '\t' then ['\\', 't']
  else if c.toNat = 0 then ['\\', '0']
  else if isUnshown c then codePoint c
  else [c]

/-- A text in quotes. -/
def shown (s : String) : String :=
  "\"" ++ String.ofList (s.toList.flatMap shownChar) ++ "\""

/-- A list of texts in quotes. -/
def shownList (xs : List String) : String :=
  "[" ++ String.intercalate ", " (xs.map shown) ++ "]"

end Text
end FlowSelect
