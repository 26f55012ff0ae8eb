/-
# Tokens

A token is a stretch of the filter text that a rule of the grammar matched,
together with the tokens matched inside it.
-/
import FlowSelect.Grammar.Rule
import FlowSelect.Text.Location

namespace FlowSelect

/-- A stretch of text matched by a rule. `start` is a byte offset. -/
inductive Token where
  | node (rule : Rule) (start : Nat) (text : String) (children : List Token)
  deriving Repr

namespace Token

/-- The rule that matched. -/
def rule : Token → Rule
  | .node rule _ _ _ => rule

/-- The byte offset at which the token starts. -/
def start : Token → Nat
  | .node _ start _ _ => start

/-- The text of the token. -/
def text : Token → String
  | .node _ _ text _ => text

/-- The tokens inside the token. -/
def children : Token → List Token
  | .node _ _ _ children => children

/-- The byte offset at which the token ends. -/
def stop (t : Token) : Nat := t.start + Text.byteLength t.text.toList

/-- The token's stretch of the filter text. -/
def span (t : Token) : Span := { offset := t.start, length := Text.byteLength t.text.toList }

mutual

/-- A token and all tokens inside it with their depths, parents first. -/
def listing (depth : Nat) : Token → List (Nat × Token)
  | .node rule start text children =>
    (depth, .node rule start text children) :: listingAll (depth + 1) children

/-- The listings of several tokens. -/
def listingAll (depth : Nat) : List Token → List (Nat × Token)
  | [] => []
  | t :: ts => listing depth t ++ listingAll depth ts

end

end Token

end FlowSelect
