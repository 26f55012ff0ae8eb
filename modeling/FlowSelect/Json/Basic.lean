/-
# JSON values

The values of JSON and their compact text. Numbers written as integers are kept
apart from all others, since only they denote integers here: `-0`, a fraction or
an exponent make a `real`, of which only the spelling is kept. A string may escape
half of a surrogate pair, which is no character; such a string denotes no text.

Key definitions: `Json`, `Json.render`.
-/

namespace FlowSelect

/-- A JSON value. The fields of an object keep their order and may repeat. -/
inductive Json where
  | null
  | bool (b : Bool)
  | int (n : Int)
  | real (spelling : String)
  | str (s : String)
  /-- A string, or an object with a key, that holds half of a surrogate pair. It can
  be passed over, but not be read as a text or a record. -/
  | unpaired
  | arr (items : List Json)
  | obj (fields : List (String × Json))
  deriving Repr

namespace Json

/-- The hexadecimal digit of a number below 16, in lower case. -/
def hexDigit (n : Nat) : Char := Nat.digitChar n

/-- A character inside a quoted string. Only quotes, backslashes and control
characters below 0x20 are escaped. -/
def escapeChar (c : Char) : List Char :=
  if c = '"' then ['\\', '"']
  else if c = '\\' then ['\\', '\\']
  else if c = '\n' then ['\\', 'n']
  else if c = '\r' then ['\\', 'r']
  else if c = '\t' then ['\\', 't']
  else if c.toNat = 0x08 then ['\\', 'b']
  else if c.toNat = 0x0C then ['\\', 'f']
  else if c.toNat < 0x20 then
    ['\\', 'u', '0', '0', hexDigit (c.toNat / 16), hexDigit (c.toNat % 16)]
  else [c]

/-- The characters of a quoted string. -/
def quote (s : String) : List Char := '"' :: s.toList.flatMap escapeChar ++ ['"']

mutual

/-- The characters of a value's compact text. -/
def chars : Json → List Char
  | .null => "null".toList
  | .bool true => "true".toList
  | .bool false => "false".toList
  | .int n => (toString n).toList
  | .real spelling => spelling.toList
  | .str s => quote s
  | .unpaired => "\"\\ud800\"".toList
  | .arr items => '[' :: itemChars items ++ [']']
  | .obj fields => '{' :: fieldChars fields ++ ['}']

/-- Values with commas between them. -/
def itemChars : List Json → List Char
  | [] => []
  | [v] => v.chars
  | v :: vs => v.chars ++ ',' :: itemChars vs

/-- Fields with commas between them. -/
def fieldChars : List (String × Json) → List Char
  | [] => []
  | [(k, v)] => quote k ++ ':' :: v.chars
  | (k, v) :: fs => quote k ++ ':' :: v.chars ++ ',' :: fieldChars fs

end

/-- The compact text of a value. -/
def render (v : Json) : String := String.ofList v.chars

end Json

end FlowSelect
