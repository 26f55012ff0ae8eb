/-
# Faults

Why a filter cannot be compiled. Each cause is a constructor with the data that
led to it; the wording is in the `message` functions at the end of each section.

Key definitions: `Fault` (everything that can go wrong), `Rejection` (a fault and
the stretch of the filter it concerns).
-/
import FlowSelect.Comparison.Relation
import FlowSelect.Grammar.Rule
import FlowSelect.Text.Location

namespace FlowSelect

/-! ### Literals -/

/-- The kinds of literal whose text can be malformed. -/
inductive LiteralKind where
  | number | ip4 | ip4Subnet | ip6 | ip6Subnet | timestamp | flags | url
  deriving DecidableEq, Repr

/-- What a message calls a kind of literal. -/
def LiteralKind.label : LiteralKind → String
  | .number => "number"
  | .ip4 => "IPv4 address"
  | .ip4Subnet => "IPv4 subnet"
  | .ip6 => "IPv6 address"
  | .ip6Subnet => "IPv6 subnet"
  | .timestamp => "timestamp"
  | .flags => "TCP flags"
  | .url => "URL"

/-- What is wrong with the text of a literal. -/
inductive FormatFault where
  | hexDigitsMissing
  | hexTooLarge
  | digitsMissing
  | unknownSuffix (suffix : String)
  | outOfRange
  | octetCount (found : Nat)
  | octetNotNumber (octet : String)
  | octetTooLarge (octet : String)
  | maskMissing
  | maskWidth (bits : String) (most : Nat)
  | ip6Form
  | timeForm
  | timeRange
  | flagsMissing
  | unknownFlag (letter : Char)
  | percentEncoding
  deriving DecidableEq, Repr

/-- The wording of a format fault. -/
def FormatFault.message : FormatFault → String
  | .hexDigitsMissing => "expected hexadecimal digits after 0x"
  | .hexTooLarge => "number too large to fit in target type"
  | .digitsMissing => "missing digits"
  | .unknownSuffix suffix => "unknown suffix '" ++ suffix ++ "', expected one of k, m, g, t"
  | .outOfRange => "out of range"
  | .octetCount found => "expected 4 octets, found " ++ toString found
  | .octetNotNumber octet => "'" ++ octet ++ "' is not a number"
  | .octetTooLarge octet => "octet " ++ octet ++ " is out of range 0-255"
  | .maskMissing => "missing '/bits'"
  | .maskWidth bits most =>
    "mask width '" ++ bits ++ "' must be between 0 and " ++ toString most
  | .ip6Form => "invalid IPv6 address syntax"
  | .timeForm => "expected YYYY/MM/DD.hh:mm:ss"
  | .timeRange => "input is out of range"
  | .flagsMissing => "no flags given"
  | .unknownFlag letter =>
    "unknown flag '" ++ letter.toString ++ "', expected letters from FSRPAUEC"
  | .percentEncoding => "invalid percent-encoding"

/-! ### Sides that do not fit -/

/-- Why the two sides of a comparison do not fit together. -/
inductive MismatchFault where
  | operatorNeedsNumber (op : BitOperator)
  | operatorNeedsColumn (op : BitOperator)
  | leftNotColumn
  | rightNotLiteral
  | subnetOrdered (relation : Relation)
  | subnetMasked
  | subnetExpected
  | notIp4
  | notIp6
  | ip6Masked
  | notNumeric
  | notTime
  | notText
  | equalityOnly (relation : Relation)
  | flagsMasked
  | textWithOperator
  deriving DecidableEq, Repr

/-- The wording of a mismatch. -/
def MismatchFault.message : MismatchFault → String
  | .operatorNeedsNumber op => "operator " ++ op.symbol ++ " needs a number"
  | .operatorNeedsColumn op => "operator " ++ op.symbol ++ " applies to columns only"
  | .leftNotColumn => "the left side of a comparison must be a column"
  | .rightNotLiteral => "the right side of a comparison must be a literal"
  | .subnetOrdered relation => "a subnet cannot be compared with " ++ relation.symbol
  | .subnetMasked => "subnets cannot be tested on bitwise expressions"
  | .subnetExpected => "expected a subnet"
  | .notIp4 => "not an IPv4 column"
  | .notIp6 => "not an IPv6 column"
  | .ip6Masked => "IPv6 addresses cannot be used with bitwise operators"
  | .notNumeric => "column is not numeric"
  | .notTime => "column does not hold times"
  | .notText => "column does not hold strings"
  | .equalityOnly relation => "only == and != apply, not " ++ relation.symbol
  | .flagsMasked => "flags already test a bit mask"
  | .textWithOperator => "strings cannot be combined with operators"

/-! ### Texts outside the language -/

/-- A text the grammar does not accept: where reading got stuck, and which rules
would have allowed it to go on there. -/
structure Unreadable where
  span : Span
  location : Location
  atEnd : Bool
  expected : List Rule
  deriving DecidableEq, Repr

/-- A list with each run of equal neighbours written once. -/
def withoutRepeats : List String → List String
  | [] => []
  | [a] => [a]
  | a :: b :: rest => if a = b then withoutRepeats (b :: rest) else a :: withoutRepeats (b :: rest)

/-- What would have been accepted, with at most three things named. -/
def Unreadable.expectation (u : Unreadable) : String :=
  match u.expected with
  | [] => "Unexpected input"
  | [rule] => "Expected " ++ rule.label
  | rules =>
    let labels := withoutRepeats (rules.map Rule.label)
    let more := if labels.length ≤ 3 then "" else ", ..."
    "Expected one of: " ++ String.intercalate ", " (labels.take 3) ++ more

/-- Advice on how to mend the text. -/
def Unreadable.help (u : Unreadable) : Option String :=
  if u.expected.contains .number || u.expected.contains .word then
    if u.atEnd then some "Add a value after the column, like: %dp 80"
    else some "Expected a value (number, address, timestamp, string or name)"
  else if u.atEnd then some "Filter is incomplete. Add a comparison after the operator."
  else if u.expected.contains .endOfInput then
    some "Unexpected input. Check for unbalanced parentheses or quotes."
  else none

/-! ### Broken promises

Faults that a validated schema and a text from the grammar never lead to. -/

/-- A promise of the compiler's parts to each other that was not kept. -/
inductive InternalFault where
  | unknownRelation (symbol : String)
  | unknownBitOperator (symbol : String)
  | columnHasNoParts (name : String)
  | columnWithoutParts
  | emptyGroup
  | strayToken
  deriving DecidableEq, Repr

/-- The wording of a broken promise. -/
def InternalFault.message : InternalFault → String
  | .unknownRelation symbol => "unknown comparison operator '" ++ symbol ++ "'"
  | .unknownBitOperator symbol => "unknown bitwise operator '" ++ symbol ++ "'"
  | .columnHasNoParts name => "column " ++ name ++ " has no parts"
  | .columnWithoutParts => "column without parts"
  | .emptyGroup => "comparison over an empty column group"
  | .strayToken => "unexpected token"

/-! ### All faults -/

/-- Everything that can go wrong while a filter is compiled. -/
inductive Fault where
  | unreadable (stuck : Unreadable)
  | format (kind : LiteralKind) (text : String) (reason : FormatFault)
  | unknownColumn (name : String) (suggestions : List String)
  | unknownGroup (name : String) (suggestions : List String)
  | unknownProtocol (name : String)
  | mismatch (left right : String) (reason : MismatchFault)
  | internal (reason : InternalFault)
  deriving DecidableEq, Repr

namespace Fault

/-- The wording of a fault. -/
def message : Fault → String
  | .unreadable u =>
    "Syntax error at line " ++ toString u.location.line ++ ", column "
      ++ toString u.location.column ++ ": " ++ u.expectation
  | .format kind text reason =>
    "Malformed " ++ kind.label ++ " '" ++ text ++ "': " ++ reason.message
  | .unknownColumn name _ => "Unknown column: '" ++ name ++ "'"
  | .unknownGroup name _ => "Unknown column group: '" ++ name ++ "'"
  | .unknownProtocol name => "Unknown protocol: '" ++ name ++ "'"
  | .mismatch left right reason =>
    "Cannot compare " ++ left ++ " with " ++ right ++ ": " ++ reason.message
  | .internal reason => "Internal compiler error: " ++ reason.message

/-- The code under which a fault is reported. -/
def code : Fault → String
  | .unreadable _ => "syntax"
  | .format _ _ _ => "format"
  | .unknownColumn _ _ => "unknown_column"
  | .unknownGroup _ _ => "unknown_group"
  | .unknownProtocol _ => "unknown_protocol"
  | .mismatch _ _ _ => "type_mismatch"
  | .internal _ => "internal"

/-- The sentence that proposes similar aliases, if there are any. -/
def suggestion : List String → Option String
  | [] => none
  | aliases => some ("Did you mean: " ++ String.intercalate ", " aliases ++ "?")

/-- Advice that goes with a fault. -/
def help : Fault → Option String
  | .unreadable u => u.help
  | .unknownColumn _ suggestions => suggestion suggestions
  | .unknownGroup _ suggestions => suggestion suggestions
  | .unknownProtocol _ =>
    some "Use a protocol number or one of: tcp, udp, icmp, icmpv6, gre, esp, ah, sctp, ..."
  | _ => none

/-- Whether the fault is that two sides do not fit together. -/
def isMismatch : Fault → Bool
  | .mismatch _ _ _ => true
  | _ => false

end Fault

/-- A filter that was not compiled: the fault, and the part of the text it
concerns. -/
structure Rejection where
  span : Option Span
  cause : Fault
  deriving DecidableEq, Repr

namespace Rejection

/-- The wording of a rejection. -/
def message (r : Rejection) : String := "Invalid filter: " ++ r.cause.message

/-- The code under which a rejection is reported. -/
def code : String := "invalid_filter"

/-- The line and column of a text outside the language. -/
def location (r : Rejection) : Option Location :=
  match r.cause with
  | .unreadable u => some u.location
  | _ => none

end Rejection

end FlowSelect
