/-
# Names of the grammar's rules

Every rule that can appear in a token tree, in the order in which an error
report lists them. `name` is the rule's name in token listings, `label` what a
report calls the thing the rule stands for.
-/

namespace FlowSelect

/-- A rule of the filter language that produces a token. -/
inductive Rule where
  | endOfInput
  | program
  | expr
  | keyword
  | and
  | or
  | not
  | comparison
  | masked
  | column
  | rawColumn
  | relation
  | bitOperator
  | timestamp
  | ip6
  | ip6Subnet
  | ip4
  | ip4Subnet
  | number
  | quoted
  | quotedText
  | word
  deriving DecidableEq, Repr

namespace Rule

/-- All rules, in the order of reports. -/
def all : List Rule :=
  [.endOfInput, .program, .expr, .keyword, .and, .or, .not, .comparison, .masked, .column,
    .rawColumn, .relation, .bitOperator, .timestamp, .ip6, .ip6Subnet, .ip4, .ip4Subnet,
    .number, .quoted, .quotedText, .word]

/-- The rule's name in token listings. -/
def name : Rule → String
  | .endOfInput => "EOI"
  | .program => "program"
  | .expr => "expr"
  | .keyword => "keyword"
  | .and => "and"
  | .or => "or"
  | .not => "neg"
  | .comparison => "comparison"
  | .masked => "bit_col_val"
  | .column => "column"
  | .rawColumn => "raw_column"
  | .relation => "cmp_op"
  | .bitOperator => "bit_op"
  | .timestamp => "timestamp"
  | .ip6 => "ipv6"
  | .ip6Subnet => "ipv6_subnet"
  | .ip4 => "ipv4"
  | .ip4Subnet => "ipv4_subnet"
  | .number => "number"
  | .quoted => "quoted_string"
  | .quotedText => "string_inner"
  | .word => "word"

/-- What an error report calls the thing the rule stands for. -/
def label : Rule → String
  | .endOfInput => "end of filter"
  | .program | .expr => "expression"
  | .keyword => "keyword"
  | .and => "and"
  | .or => "or"
  | .not => "not"
  | .comparison => "comparison"
  | .masked => "bitwise expression"
  | .column => "column (%alias)"
  | .rawColumn => "raw column (e<N>id<M>)"
  | .relation => "comparison operator"
  | .bitOperator => "bitwise operator"
  | .timestamp => "timestamp"
  | .ip4 | .ip6 => "address"
  | .ip4Subnet | .ip6Subnet => "subnet"
  | .number => "number"
  | .quoted | .quotedText => "quoted string"
  | .word => "value"

end Rule

end FlowSelect
