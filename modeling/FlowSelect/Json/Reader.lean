/-
# Reading JSON

Strict JSON: no comments, no trailing commas, no raw control characters in strings,
and nothing but blanks after the value. The readers take characters from the front of
a list and return what is left. A string with half of a surrogate pair is well formed
but denotes no text; it is read as `unpaired`.

Key definition: `Json.read?`.
-/
import FlowSelect.Json.Basic
import FlowSelect.Text.Digits

namespace FlowSelect
namespace Json

/-- The blanks allowed between tokens. -/
def isBlank (c : Char) : Bool := c == ' ' || c == '\n' || c == '\t' || c == '\r'

/-- Drops the blanks at the front. -/
def skipBlanks (cs : List Char) : List Char := cs.dropWhile isBlank

/-- The number written by four hexadecimal digits. -/
def codeUnit? (a b c d : Char) : Option Nat :=
  if Digits.isHexRun [a, b, c, d] then some (Digits.hexadecimal [a, b, c, d]) else none

/-- A code unit that stands for a character by itself. -/
def singleUnit? (n : Nat) : Option Char :=
  if n < 0xD800 ∨ 0xDFFF < n then some (Char.ofNat n) else none

/-- The character of a surrogate pair. -/
def surrogatePair? (high low : Nat) : Option Char :=
  if 0xD800 ≤ high ∧ high ≤ 0xDBFF ∧ 0xDC00 ≤ low ∧ low ≤ 0xDFFF then
    some (Char.ofNat (0x10000 + (high - 0xD800) * 0x400 + (low - 0xDC00)))
  else none

/-- The character of a one letter escape. -/
def simpleEscape? : Char → Option Char
  | '"' => some '"'
  | '\\' => some '\\'
  | '/' => some '/'
  | 'b' => some (Char.ofNat 0x08)
  | 'f' => some (Char.ofNat 0x0C)
  | 'n' => some '\n'
  | 'r' => some '\r'
  | 't' => some '\t'
  | _ => none

/-- Puts a character, if there is one, in front of a text that was read. -/
def consTo (c : Option Char) (more : Option (List Char × List Char)) :
    Option (List Char × List Char) :=
  match c, more with
  | some c, some (text, rest) => some (c :: text, rest)
  | _, _ => none

/-- The rest of a string after its opening quote. -/
def stringBody? : List Char → Option (List Char × List Char)
  | [] => none
  | '"' :: rest => some ([], rest)
  | '\\' :: 'u' :: a :: b :: c :: d :: rest =>
    match codeUnit? a b c d with
    | none => none
    | some high =>
      match singleUnit? high with
      | some ch => consTo (some ch) (stringBody? rest)
      | none =>
        match rest with
        | '\\' :: 'u' :: e :: f :: g :: h :: rest =>
          match codeUnit? e f g h with
          | some low => consTo (surrogatePair? high low) (stringBody? rest)
          | none => none
        | _ => none
  | '\\' :: e :: rest => consTo (simpleEscape? e) (stringBody? rest)
  | c :: rest =>
    if c.toNat < 0x20 ∨ c = '\\' then none else consTo (some c) (stringBody? rest)
  termination_by structural cs => cs

/-- What follows a string, after its opening quote. The escapes have to be well
formed, but need not denote characters. -/
def afterString? : List Char → Option (List Char)
  | [] => none
  | '"' :: rest => some rest
  | '\\' :: 'u' :: a :: b :: c :: d :: rest =>
    match codeUnit? a b c d with
    | some _ => afterString? rest
    | none => none
  | '\\' :: e :: rest =>
    match simpleEscape? e with
    | some _ => afterString? rest
    | none => none
  | c :: rest => if c.toNat < 0x20 ∨ c = '\\' then none else afterString? rest
  termination_by structural cs => cs

/-- A string after its opening quote: its text, if it denotes one. -/
def string? (cs : List Char) : Option (Option String × List Char) :=
  match stringBody? cs with
  | some (text, rest) => some (some (String.ofList text), rest)
  | none => (afterString? cs).map fun rest => (none, rest)

/-- A string as a value. -/
def ofText : Option String → Json
  | some s => .str s
  | none => .unpaired

/-- The fields of an object, if all keys denote texts. -/
def keyed? : List (Option String × Json) → Option (List (String × Json))
  | [] => some []
  | (none, _) :: _ => none
  | (some key, v) :: fields => (keyed? fields).map ((key, v) :: ·)

/-- An object as a value. -/
def ofFields (fields : List (Option String × Json)) : Json :=
  match keyed? fields with
  | some fields => .obj fields
  | none => .unpaired

/-- The digits after a decimal point, if a point follows. -/
def fraction? : List Char → Option (List Char × List Char)
  | '.' :: cs =>
    let digits := cs.takeWhile Char.isDigit
    if digits.isEmpty then none else some ('.' :: digits, cs.dropWhile Char.isDigit)
  | cs => some ([], cs)

/-- The sign of an exponent, if it has one. -/
def exponentSign : List Char → List Char × List Char
  | '+' :: cs => (['+'], cs)
  | '-' :: cs => (['-'], cs)
  | cs => ([], cs)

/-- An exponent, if one follows. -/
def exponent? : List Char → Option (List Char × List Char)
  | [] => some ([], [])
  | c :: cs =>
    if c = 'e' ∨ c = 'E' then
      let (sign, after) := exponentSign cs
      let digits := after.takeWhile Char.isDigit
      if digits.isEmpty then none
      else some (c :: sign ++ digits, after.dropWhile Char.isDigit)
    else some ([], c :: cs)

/-- The digits before a decimal point: a lone zero, or a run that starts with
another digit. -/
def wholeDigits? : List Char → Option (List Char × List Char)
  | '0' :: cs => some (['0'], cs)
  | cs =>
    let digits := cs.takeWhile Char.isDigit
    if digits.isEmpty then none else some (digits, cs.dropWhile Char.isDigit)

/-- A number without its sign. -/
def unsigned? (negative : Bool) (cs : List Char) : Option (Json × List Char) :=
  match wholeDigits? cs with
  | none => none
  | some (whole, cs) =>
    match fraction? cs with
    | none => none
    | some (point, cs) =>
      match exponent? cs with
      | none => none
      | some (power, cs) =>
        let n := Digits.decimal whole
        let sign := if negative then "-" else ""
        if point.isEmpty && power.isEmpty && !(negative && n == 0) then
          some (.int (if negative then -(n : Int) else (n : Int)), cs)
        else some (.real (sign ++ String.ofList (whole ++ point ++ power)), cs)

/-- A number. -/
def number? : List Char → Option (Json × List Char)
  | '-' :: cs => unsigned? true cs
  | cs => unsigned? false cs

mutual

/-- A value at the front of the characters. `fuel` bounds how deep the reader
goes. -/
def value? : (fuel : Nat) → List Char → Option (Json × List Char)
  | 0, _ => none
  | fuel + 1, cs =>
    match cs with
    | 'n' :: 'u' :: 'l' :: 'l' :: rest => some (.null, rest)
    | 't' :: 'r' :: 'u' :: 'e' :: rest => some (.bool true, rest)
    | 'f' :: 'a' :: 'l' :: 's' :: 'e' :: rest => some (.bool false, rest)
    | '"' :: rest => (string? rest).map fun (s, rest) => (ofText s, rest)
    | '[' :: rest =>
      match skipBlanks rest with
      | ']' :: rest => some (.arr [], rest)
      | rest => (items? fuel rest).map fun (vs, rest) => (.arr vs, rest)
    | '{' :: rest =>
      match skipBlanks rest with
      | '}' :: rest => some (.obj [], rest)
      | rest => (fields? fuel rest).map fun (fs, rest) => (ofFields fs, rest)
    | cs => number? cs

/-- The values of an array up to its closing bracket. -/
def items? : (fuel : Nat) → List Char → Option (List Json × List Char)
  | 0, _ => none
  | fuel + 1, cs =>
    match value? fuel cs with
    | none => none
    | some (v, rest) =>
      match skipBlanks rest with
      | ']' :: rest => some ([v], rest)
      | ',' :: rest => (items? fuel (skipBlanks rest)).map fun (vs, rest) => (v :: vs, rest)
      | _ => none

/-- The fields of an object up to its closing brace. -/
def fields? : (fuel : Nat) → List Char → Option (List (Option String × Json) × List Char)
  | 0, _ => none
  | fuel + 1, cs =>
    match cs with
    | '"' :: rest =>
      match string? rest with
      | none => none
      | some (key, rest) =>
        match skipBlanks rest with
        | ':' :: rest =>
          match value? fuel (skipBlanks rest) with
          | none => none
          | some (v, rest) =>
            match skipBlanks rest with
            | '}' :: rest => some ([(key, v)], rest)
            | ',' :: rest =>
              (fields? fuel (skipBlanks rest)).map fun (fs, rest) => ((key, v) :: fs, rest)
            | _ => none
        | _ => none
    | _ => none

end

/-- The value a text denotes. Every second step of the reader takes a character,
so twice the length is fuel enough. -/
def read? (text : String) : Option Json :=
  let cs := skipBlanks text.toList
  match value? (2 * cs.length + 2) cs with
  | some (v, rest) => if (skipBlanks rest).isEmpty then some v else none
  | none => none

end Json
end FlowSelect
