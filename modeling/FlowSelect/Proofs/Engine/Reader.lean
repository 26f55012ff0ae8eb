/-
# How an engine reads its text

The texts that filters hand to an engine, read back as predicates. A text is cut into lexemes by an
automaton (`Scanner.run`), and the lexemes are read by recursive descent: comparisons and bracketed
texts, joined in chains by `AND` and `OR`. Engines differ in which of the two binds tighter, so the
reader takes that connective as an argument. The empty text accepts every row.

Key definitions: `Engine.Lexeme`, `Engine.Scanner.run`, `Engine.operand?`, `Engine.expr`,
`Engine.read?`.
-/
import FlowSelect.Proofs.Query.Shape

namespace FlowSelect

/-- The other connective. -/
def Connective.other : Connective → Connective
  | .and => .or
  | .or => .and

/-- The word for a connective in engine text. -/
def Connective.word : Connective → String
  | .and => "AND"
  | .or => "OR"

namespace Engine

/-! ### Lexemes -/

/-- What engine text is made of. A word is a name, a number or a connective; which one, depends on
where it stands. -/
inductive Lexeme where
  | opening
  | closing
  | word (w : String)
  | sign (s : String)
  | text (s : String)
  deriving DecidableEq, Repr

/-- The kinds of lexeme that go on as far as their characters do. -/
inductive Kind where
  | word
  | sign
  deriving DecidableEq, Repr

namespace Kind

/-- The characters of names and numbers, and those of relations and bit operators. -/
def contains : Kind → Char → Bool
  | .word, c => Text.isNameChar c || c == '-'
  | .sign, c => "=!<>&|^".toList.contains c

/-- The lexeme of a kind with the given characters. -/
def lexeme : Kind → List Char → Lexeme
  | .word, cs => .word (String.ofList cs)
  | .sign, cs => .sign (String.ofList cs)

end Kind

/-- What has been read of the lexeme at hand. -/
inductive Scanner where
  | between
  | within (k : Kind) (cs : List Char)
  | text (cs : List Char)
  | escape (cs : List Char)
  deriving DecidableEq, Repr

namespace Scanner

/-- What a character does between two lexemes. -/
def start (c : Char) : Option (List Lexeme × Scanner) :=
  if Kind.word.contains c then some ([], .within .word [c])
  else if Kind.sign.contains c then some ([], .within .sign [c])
  else
    match c with
    | ' ' => some ([], .between)
    | '(' => some ([.opening], .between)
    | ')' => some ([.closing], .between)
    | '"' => some ([], .text [])
    | _ => none

/-- Reads a character: the lexemes it completes, and what it leaves at hand. In a text in quotes a
backslash stands before a quote or a backslash only. -/
def step : Scanner → Char → Option (List Lexeme × Scanner)
  | .between, c => start c
  | .within k cs, c =>
    if k.contains c then some ([], .within k (cs ++ [c]))
    else (start c).map fun (ls, next) => (k.lexeme cs :: ls, next)
  | .text cs, c =>
    if c = '"' then some ([.text (String.ofList cs)], .between)
    else if c = '\\' then some ([], .escape cs)
    else some ([], .text (cs ++ [c]))
  | .escape cs, c => if c = '\\' ∨ c = '"' then some ([], .text (cs ++ [c])) else none

/-- The lexeme at hand when the text ends. -/
def finish : Scanner → Option (List Lexeme)
  | .between => some []
  | .within k cs => some [k.lexeme cs]
  | .text _ | .escape _ => none

/-- The lexemes of the characters that follow. -/
def run : Scanner → List Char → Option (List Lexeme)
  | s, [] => s.finish
  | s, c :: cs =>
    match s.step c with
    | some (ls, next) => (next.run cs).map (ls ++ ·)
    | none => none

end Scanner

/-- The lexemes of a text. -/
def scan? (text : String) : Option (List Lexeme) := Scanner.between.run text.toList

/-! ### Comparisons -/

/-- The integer that a word writes in decimal. -/
def integer? : List Char → Option Int
  | '-' :: ds => if Digits.isRun ds then some (-(Digits.decimal ds : Int)) else none
  | ds => if Digits.isRun ds then some (Digits.decimal ds : Int) else none

/-- An integer as a signed word of 64 bits, if it is one. -/
def signed? (n : Int) : Option Int64 :=
  if -2 ^ 63 ≤ n ∧ n < 2 ^ 63 then some (Int64.ofInt n) else none

/-- An integer as an unsigned word of 64 bits, if it is one. -/
def unsigned? (n : Int) : Option UInt64 :=
  if 0 ≤ n ∧ n < 2 ^ 64 then some (UInt64.ofNat n.toNat) else none

/-- The constant of an integer: signed where it can be. -/
def ofInteger? (n : Int) : Option Constant :=
  match signed? n with
  | some k => some (.int k)
  | none => (unsigned? n).map .uint

/-- The constant that a lexeme writes. -/
def constant? : Lexeme → Option Constant
  | .text s => some (.text s)
  | .word w => (integer? w.toList).bind ofInteger?
  | _ => none

/-- Reads an operand: an aggregate, a column, or in brackets an operand with a bit operator. -/
def operand? : List Lexeme → Option (Operand × List Lexeme)
  | .word f :: .opening :: .word part :: .closing :: rest =>
    if Text.isName f && Text.isName part then some (.aggregate f part, rest) else none
  | .word name :: rest => if Text.isName name then some (.column name, rest) else none
  | .opening :: rest =>
    match operand? rest with
    | some (o, .sign s :: .word w :: .closing :: rest) =>
      match BitOperator.ofSymbol? s, (integer? w.toList).bind signed? with
      | some op, some argument => some (.masked o op argument, rest)
      | _, _ => none
    | _ => none
  | _ => none

/-- Reads a comparison. -/
def comparison? (ls : List Lexeme) : Option (Comparison × List Lexeme) :=
  match operand? ls with
  | some (o, .sign s :: k :: rest) =>
    match Relation.ofSymbol? s, constant? k with
    | some r, some k => some (⟨o, r, k⟩, rest)
    | _, _ => none
  | _ => none

/-! ### Chains -/

/-- Reads a predicate at the front of some lexemes and gives those after it. -/
abbrev Reader := List Lexeme → Option (Predicate × List Lexeme)

/-- Goes on with a chain after the predicate `p`, in at most `fuel` links. -/
def chainFrom (k : Connective) (item : Reader) : (fuel : Nat) → Predicate → Reader
  | 0, p, ls => some (p, ls)
  | fuel + 1, p, ls =>
    match ls with
    | .word w :: rest =>
      if w = k.word then
        match item rest with
        | some (q, rest) => chainFrom k item fuel (k.join p q) rest
        | none => none
      else some (p, ls)
    | _ => some (p, ls)

/-- Reads a chain, joined from the left. There are no more links than lexemes. -/
def chain (k : Connective) (item : Reader) : Reader := fun ls =>
  match item ls with
  | some (p, rest) => chainFrom k item rest.length p rest
  | none => none

/-- Reads a comparison, or a text in brackets where there is no comparison. -/
def primary (nested : Reader) : Reader := fun ls =>
  match comparison? ls with
  | some (c, rest) => some (.atom c, rest)
  | none =>
    match ls with
    | .opening :: rest =>
      match nested rest with
      | some (p, .closing :: rest) => some (p, rest)
      | _ => none
    | _ => none

/-- Reads a chain of chains, the inner ones with the connective that binds tighter. Brackets nest at
most `depth` deep. -/
def expr (tight : Connective) : (depth : Nat) → Reader
  | 0 => fun _ => none
  | depth + 1 => chain tight.other (chain tight (primary (expr tight depth)))

/-- The predicate that a text asks for, nothing if it asks for nothing. Brackets nest at most as deep
as there are lexemes. -/
def read? (tight : Connective) (text : String) : Option (Option Predicate) :=
  match scan? text with
  | none => none
  | some [] => some none
  | some ls =>
    match expr tight ls.length ls with
    | some (p, []) => some (some p)
    | _ => none

/-- Whether what a text asks for accepts a row. -/
def accepts (row : Row) (reading : Option Predicate) : Bool := reading.all (Predicate.accepts row)

end Engine

end FlowSelect
