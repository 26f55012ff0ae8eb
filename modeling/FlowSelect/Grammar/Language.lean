/-
# The filter language

The grammar of filters. An expression is a chain of comparisons and bracketed
expressions joined by `and` and `or`, each after any number of `not`. A comparison
is a column, an optional relation and a value.

The alternatives of `value` overlap; they are tried in the order given, so that
a text such as `10.0.0.0/8` is a subnet and not an address.

Key definitions: `Language.program`, `Language.pattern?`, `Language.tokens?`.
-/
import FlowSelect.Grammar.Pattern

namespace FlowSelect
namespace Language

open Pattern

/-- The characters of a text, exactly as they are. -/
def exactly (s : String) : Pattern := .literal s.toList

/-- A word in any letter case. -/
def anyCase (s : String) : Pattern := .letters s.toList

/-- A rule matched as a whole. -/
def whole (r : Rule) (body : Pattern) : Pattern := .rule r (some .tight) body

/-- A rule with blanks between its members. -/
def spaced (r : Rule) (body : Pattern) : Pattern := .rule r none body

/-! ### Characters -/

/-- A decimal digit. -/
def digit : Pattern := .one .digit

/-- A hexadecimal digit. -/
def hexDigit : Pattern := .one .hexDigit

/-- A character that may stand between the members of a rule. -/
def blank : Pattern := oneOf (exactly " ") [exactly "\t", exactly "\r", exactly "\n"]

/-- A character of a name. -/
def nameChar : Pattern := .alt (.one .alphanumeric) (exactly "_")

/-- A word that ends here: no character of a name follows. -/
def wordEnd : Pattern := .absent nameChar

/-! ### Operators -/

/-- A word that joins or negates expressions. -/
def keyword : Pattern :=
  whole .keyword (.seq (oneOf (anyCase "and") [anyCase "or", anyCase "not"]) wordEnd)

/-- The sign for "and". -/
def conjunction : Pattern := whole .and (.alt (.seq (anyCase "and") wordEnd) (exactly "&&"))

/-- The sign for "or". -/
def disjunction : Pattern := whole .or (.alt (.seq (anyCase "or") wordEnd) (exactly "||"))

/-- The sign for "not". An exclamation mark in front of an equals sign belongs to a
relation. -/
def negation : Pattern :=
  whole .not (.alt (.seq (anyCase "not") wordEnd) (.seq (exactly "!") (.absent (exactly "="))))

/-- A sign between two expressions. -/
def connective : Pattern := .alt conjunction disjunction

/-- The sign of a relation, the longer signs first. -/
def relation : Pattern :=
  whole .relation (oneOf (exactly "==")
    [exactly "!=", exactly "<=", exactly ">=", exactly "<", exactly ">", exactly "="])

/-- The sign of a bit operator; a doubled `&` or `|` is a connective. -/
def bitOperator : Pattern :=
  whole .bitOperator (oneOf (exactly "<<")
    [exactly ">>", .seq (exactly "&") (.absent (exactly "&")),
      .seq (exactly "|") (.absent (exactly "|")), exactly "^"])

/-! ### Values -/

/-- A date and time. What follows the first slash is judged when the time is read. -/
def timestamp : Pattern :=
  whole .timestamp (inOrder (atLeastOne digit)
    [exactly "/", atLeastOne (oneOf digit [exactly "/", exactly ".", exactly ":"])])

/-- The characters of an IPv6 address: hexadecimal digits, a colon, and what may follow
in one. -/
def ip6Body : Pattern :=
  inOrder (.many hexDigit)
    [exactly ":", .many (oneOf hexDigit [exactly ":", exactly "."])]

/-- An IPv6 address. -/
def ip6 : Pattern := whole .ip6 ip6Body

/-- An IPv6 address with a number of bits. -/
def ip6Subnet : Pattern := whole .ip6Subnet (inOrder ip6Body [exactly "/", atLeastOne digit])

/-- Decimal groups with dots between them, two groups or more. -/
def ip4Body : Pattern :=
  inOrder (atLeastOne digit) [atLeastOne (.seq (exactly ".") (atLeastOne digit))]

/-- An IPv4 address. -/
def ip4 : Pattern := whole .ip4 ip4Body

/-- An IPv4 address with a number of bits. -/
def ip4Subnet : Pattern := whole .ip4Subnet (inOrder ip4Body [exactly "/", atLeastOne digit])

/-- A hexadecimal number, or a decimal one with a letter for its unit. -/
def number : Pattern :=
  whole .number (inOrder (.opt (exactly "-"))
    [.alt (inOrder (exactly "0") [anyCase "x", atLeastOne hexDigit])
        (.seq (atLeastOne digit) (.opt (.one .letter))),
      wordEnd])

/-- What stands between two quotes. -/
def quotedText : Pattern :=
  whole .quotedText (.many (.seq (.absent (exactly "\"")) (.one .any)))

/-- A text in quotes. -/
def quoted : Pattern :=
  .rule .quoted (some .joined) (inOrder (exactly "\"") [quotedText, exactly "\""])

/-- A word that is no keyword. -/
def word : Pattern :=
  whole .word (inOrder (.absent keyword)
    [.alt (.one .letter) (exactly "_"),
      .many (oneOf (.one .alphanumeric) [exactly "_", exactly "-", exactly "."])])

/-- The right side of a comparison. The first alternative that matches counts. -/
def value : Pattern :=
  oneOf timestamp [ip6Subnet, ip6, ip4Subnet, ip4, number, quoted, word]

/-! ### Comparisons and expressions -/

/-- A column by one of its names in the schema. -/
def column : Pattern := whole .column (.seq (exactly "%") (atLeastOne nameChar))

/-- A stored column by its element numbers. -/
def rawColumn : Pattern :=
  whole .rawColumn (inOrder (exactly "e")
    [atLeastOne digit, exactly "id", atLeastOne digit, .opt (.seq (exactly "p") (atLeastOne digit)), wordEnd])

/-- A column of either form. -/
def anyColumn : Pattern := .alt rawColumn column

/-- A column with a bit operator applied to it. -/
def masked : Pattern := spaced .masked (inOrder anyColumn [bitOperator, number])

/-- The left side of a comparison; brackets may stand around a masked column. -/
def subject : Pattern :=
  oneOf (inOrder (exactly "(") [masked, exactly ")"]) [masked, anyColumn]

/-- A left side, a relation that may be left out, and a value. -/
def comparison : Pattern := spaced .comparison (inOrder subject [.opt relation, value])

/-- A comparison, or an expression in brackets. -/
def primary : Pattern := .alt comparison (inOrder (exactly "(") [.nested, exactly ")"])

/-- Comparisons and bracketed expressions with connectives between them. -/
def expr : Pattern :=
  spaced .expr (inOrder (.many negation)
    [primary, .many (inOrder connective [.many negation, primary])])

/-- Nothing may follow. -/
def endOfInput : Pattern := spaced .endOfInput .finish

/-- A whole filter, which may be empty. -/
def program : Pattern := spaced .program (inOrder .start [.opt expr, endOfInput])

/-- The pattern of a rule's name, for rules that leave no token of their own too. -/
def pattern? : String → Option Pattern
  | "WHITESPACE" => some blank
  | "program" => some program
  | "expr" => some expr
  | "infix" => some connective
  | "prefix" => some negation
  | "primary" => some primary
  | "ident_char" => some nameChar
  | "keyword" => some keyword
  | "and" => some conjunction
  | "or" => some disjunction
  | "neg" => some negation
  | "comparison" => some comparison
  | "left" => some subject
  | "bit_col_val" => some masked
  | "column_ref" => some anyColumn
  | "column" => some column
  | "raw_column" => some rawColumn
  | "cmp_op" => some relation
  | "bit_op" => some bitOperator
  | "value" => some value
  | "timestamp" => some timestamp
  | "ipv6_body" => some ip6Body
  | "ipv6" => some ip6
  | "ipv6_subnet" => some ip6Subnet
  | "ipv4_body" => some ip4Body
  | "ipv4" => some ip4
  | "ipv4_subnet" => some ip4Subnet
  | "number" => some number
  | "quoted_string" => some quoted
  | "string_inner" => some quotedText
  | "word" => some word
  | _ => none

/-! ### Matching -/

/-- Matches an expression with brackets nested at most `depth` deep. -/
def matchExpr : (depth : Nat) → Matcher
  | 0 => fun _ _ => none
  | depth + 1 => expr.run (matchExpr depth)

/-- Brackets nest at most as deep as there are characters. -/
def depthOf (text : String) : Nat := text.toList.length

/-- Matches a pattern at the start of a text. -/
def matchText (p : Pattern) (text : String) : Option Match :=
  p.run (matchExpr (depthOf text)) .loose (Cursor.ofText text)

/-- The tokens of a text, if a pattern matches a front part of it. -/
def tokens? (p : Pattern) (text : String) : Option (List Token) :=
  (matchText p text).map Match.tokens

end Language
end FlowSelect
