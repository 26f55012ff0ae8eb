/-
# Patterns

Parsing expressions: ordered choice, greedy repetition and negative lookahead
over characters. A pattern is matched against the text from a cursor on; a match
gives the tokens found and the cursor after them.

Between the members of a sequence and between repetitions blanks may stand,
except inside a rule that is matched as a whole (`Spacing.tight`). Only tokens
outside such rules are kept. A rule marked `joined` also allows no blanks, but
keeps the tokens inside it.

The one recursion of the language is an expression inside brackets: the pattern
`nested` stands for it, and the matcher gets the behaviour of a nested expression
as an argument. So matching is recursion on the pattern.

Key definitions: `Pattern`, `Pattern.run`.
-/
import FlowSelect.Grammar.Token
import FlowSelect.Text.Digits

namespace FlowSelect

/-- Classes of ASCII characters, and the class of all characters. -/
inductive CharClass where
  | any | digit | hexDigit | letter | alphanumeric
  deriving DecidableEq, Repr

/-- Whether a character belongs to a class. -/
def CharClass.contains : CharClass → Char → Bool
  | .any, _ => true
  | .digit, c => c.isDigit
  | .hexDigit, c => Digits.isHex c
  | .letter, c => c.isAlpha
  | .alphanumeric, c => c.isAlphanum

/-- What may stand between the members of a sequence, and whether tokens are
kept: `loose` allows blanks, `joined` and `tight` do not, `tight` keeps no
tokens. -/
inductive Spacing where
  | loose | joined | tight
  deriving DecidableEq, Repr

/-- A pattern of the filter language. -/
inductive Pattern where
  /-- exactly the given characters -/
  | literal (cs : List Char)
  /-- the given lower-case letters in any letter case -/
  | letters (cs : List Char)
  /-- one character of a class -/
  | one (k : CharClass)
  /-- the start of the text -/
  | start
  /-- the end of the text -/
  | finish
  /-- one pattern after another -/
  | seq (p q : Pattern)
  /-- the second pattern where the first does not match -/
  | alt (p q : Pattern)
  /-- as many matches as there are -/
  | many (p : Pattern)
  /-- a match if there is one -/
  | opt (p : Pattern)
  /-- nothing, where the pattern does not match -/
  | absent (p : Pattern)
  /-- a rule; `spacing` replaces the spacing around it, if given -/
  | rule (r : Rule) (spacing : Option Spacing) (body : Pattern)
  /-- an expression inside brackets -/
  | nested
  deriving Repr

/-- A place in the text: its byte offset and the characters from there on. -/
structure Cursor where
  offset : Nat
  rest : List Char
  deriving DecidableEq, Repr

namespace Cursor

/-- The start of a text. -/
def ofText (text : String) : Cursor := { offset := 0, rest := text.toList }

/-- The cursor after one character. -/
def next (c : Char) (offset : Nat) (rest : List Char) : Cursor :=
  { offset := offset + c.utf8Size, rest }

/-- The blanks of the filter language. -/
def isBlank (c : Char) : Bool := c == ' ' || c == '\t' || c == '\r' || c == '\n'

/-- Moves past blanks. A blank is one byte long. -/
def skipBlanksFrom (offset : Nat) : List Char → Cursor
  | [] => { offset, rest := [] }
  | c :: cs => if isBlank c then skipBlanksFrom (offset + 1) cs else { offset, rest := c :: cs }

/-- The cursor after the blanks that may stand here. -/
def skip (spacing : Spacing) (c : Cursor) : Cursor :=
  match spacing with
  | .loose => skipBlanksFrom c.offset c.rest
  | .joined | .tight => c

/-- The text between a cursor and a later one. -/
def textTo (c after : Cursor) : String :=
  String.ofList (c.rest.take (c.rest.length - after.rest.length))

end Cursor

/-- A match: the tokens found, and the cursor after them. -/
structure Match where
  tokens : List Token
  after : Cursor
  deriving Repr

/-- Something that may match at a cursor, given the spacing around it. -/
abbrev Matcher := Spacing → Cursor → Option Match

namespace Pattern

/-- One of several patterns. -/
def oneOf : Pattern → List Pattern → Pattern
  | p, [] => p
  | p, q :: qs => .alt p (oneOf q qs)

/-- Several patterns one after another. -/
def inOrder : Pattern → List Pattern → Pattern
  | p, [] => p
  | p, q :: qs => .seq p (inOrder q qs)

/-- One match or more. -/
def atLeastOne (p : Pattern) : Pattern := .seq p (.many p)

/-- The cursor after the given characters, if the text goes on with them. -/
def takeLiteral : List Char → Cursor → Option Cursor
  | [], c => some c
  | l :: ls, ⟨offset, r :: rest⟩ =>
    if l = r then takeLiteral ls (Cursor.next r offset rest) else none
  | _ :: _, ⟨_, []⟩ => none

/-- The cursor after the given letters, if the text goes on with them in any
letter case. -/
def takeLetters : List Char → Cursor → Option Cursor
  | [], c => some c
  | l :: ls, ⟨offset, r :: rest⟩ =>
    if l = r.toLower then takeLetters ls (Cursor.next r offset rest) else none
  | _ :: _, ⟨_, []⟩ => none

/-- The cursor after one character of a class, if the text goes on with one. -/
def takeOne (k : CharClass) : Cursor → Option Cursor
  | ⟨offset, r :: rest⟩ => if k.contains r then some (Cursor.next r offset rest) else none
  | ⟨_, []⟩ => none

/-- A match without tokens. -/
def bare (c : Option Cursor) : Option Match := c.map fun after => { tokens := [], after }

/-- Repeats a step, each time after the blanks that may stand there, for as long
as it matches. `fuel` bounds the number of repetitions. -/
def repeated (spacing : Spacing) (step : Cursor → Option Match) : (fuel : Nat) → Match → Match
  | 0, m => m
  | fuel + 1, m =>
    match step (m.after.skip spacing) with
    | none => m
    | some more =>
      repeated spacing step fuel { tokens := m.tokens ++ more.tokens, after := more.after }

/-- Matches a pattern at a cursor. `nested` matches an expression in brackets. A
repetition takes at least one character each time, so the characters left bound
their number. -/
def run (nested : Matcher) : Pattern → Matcher
  | .literal cs, _, c => bare (takeLiteral cs c)
  | .letters cs, _, c => bare (takeLetters cs c)
  | .one k, _, c => bare (takeOne k c)
  | .start, _, c => if c.offset = 0 then bare (some c) else none
  | .finish, _, c => if c.rest.isEmpty then bare (some c) else none
  | .seq p q, s, c =>
    match p.run nested s c with
    | none => none
    | some m =>
      match q.run nested s (m.after.skip s) with
      | none => none
      | some n => some { tokens := m.tokens ++ n.tokens, after := n.after }
  | .alt p q, s, c =>
    match p.run nested s c with
    | some m => some m
    | none => q.run nested s c
  | .many p, s, c =>
    match p.run nested s c with
    | none => bare (some c)
    | some m => some (repeated s (p.run nested s) m.after.rest.length m)
  | .opt p, s, c =>
    match p.run nested s c with
    | some m => some m
    | none => bare (some c)
  | .absent p, s, c =>
    match p.run nested s c with
    | some _ => none
    | none => bare (some c)
  | .rule r spacing body, s, c =>
    match body.run nested (spacing.getD s) c with
    | none => none
    | some m =>
      if s = .tight then some { tokens := [], after := m.after }
      else some { tokens := [.node r c.offset (c.textTo m.after) m.tokens], after := m.after }
  | .nested, s, c => nested s c

end Pattern

end FlowSelect
