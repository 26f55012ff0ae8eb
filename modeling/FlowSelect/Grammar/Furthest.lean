/-
# Where reading gets stuck

When a text does not match, the report names the furthest offset at which a rule
was tried and failed, and the rules that failed there. A rule stands for the
rules tried inside it at the same offset, unless only one of them failed.

Key definitions: `Furthest.fail` (one more failure), `Pattern.trace` (all
failures of a match), `Language.read` (tokens, or the report).
-/
import FlowSelect.Fault
import FlowSelect.Grammar.Language

namespace FlowSelect

/-- The furthest offset of a failure so far, and the rules that failed there in
the order of their failures. -/
structure Furthest where
  offset : Nat
  rules : List Rule
  deriving DecidableEq, Repr

namespace Furthest

/-- Before anything was tried. -/
def initial : Furthest := { offset := 0, rules := [] }

/-- How many failures are known at an offset. -/
def countAt (f : Furthest) (offset : Nat) : Nat :=
  if f.offset = offset then f.rules.length else 0

/-- A rule tried at an offset has failed: `earlier` was known when it was tried,
`f` is known now. A single failure inside the rule says more than the rule itself
and is kept; several are replaced by the rule. -/
def fail (earlier : Furthest) (r : Rule) (offset : Nat) (f : Furthest) : Furthest :=
  if f.countAt offset = earlier.countAt offset + 1 then f
  else if f.offset < offset then { offset, rules := [r] }
  else if f.offset = offset then
    { offset, rules := f.rules.take (earlier.countAt offset) ++ [r] }
  else f

end Furthest

namespace Pattern

/-- Something that adds the failures of a match at a cursor to those known. -/
abbrev Tracer := Spacing → Cursor → Furthest → Furthest

/-- The failures of repeating a step up to the repetition that does not match. -/
def traceRepeated (spacing : Spacing) (step : Cursor → Option Match)
    (trace : Cursor → Furthest → Furthest) : (fuel : Nat) → Cursor → Furthest → Furthest
  | 0, _, f => f
  | fuel + 1, c, f =>
    let c := c.skip spacing
    match step c with
    | none => trace c f
    | some m => traceRepeated spacing step trace fuel m.after (trace c f)

/-- Adds the failures met while a pattern is matched. Rules inside a rule that is
matched as a whole are not looked at, nor is what must be absent. -/
def trace (nested : Matcher) (nestedTrace : Tracer) : Pattern → Tracer
  | .seq p q, s, c, f =>
    match p.run nested s c with
    | none => p.trace nested nestedTrace s c f
    | some m =>
      q.trace nested nestedTrace s (m.after.skip s) (p.trace nested nestedTrace s c f)
  | .alt p q, s, c, f =>
    match p.run nested s c with
    | some _ => p.trace nested nestedTrace s c f
    | none => q.trace nested nestedTrace s c (p.trace nested nestedTrace s c f)
  | .many p, s, c, f =>
    match p.run nested s c with
    | none => p.trace nested nestedTrace s c f
    | some m =>
      traceRepeated s (p.run nested s) (p.trace nested nestedTrace s) (m.after.rest.length + 1)
        m.after (p.trace nested nestedTrace s c f)
  | .opt p, s, c, f => p.trace nested nestedTrace s c f
  | .rule r spacing body, s, c, f =>
    if s = .tight then f
    else
      match body.run nested (spacing.getD s) c with
      | some _ => body.trace nested nestedTrace (spacing.getD s) c f
      | none => f.fail r c.offset (body.trace nested nestedTrace (spacing.getD s) c f)
  | .nested, s, c, f => nestedTrace s c f
  | _, _, _, f => f

end Pattern

namespace Language

/-- The failures of an expression with brackets nested at most `depth` deep. -/
def traceExpr : (depth : Nat) → Pattern.Tracer
  | 0 => fun _ _ f => f
  | depth + 1 => expr.trace (matchExpr depth) (traceExpr depth)

/-- The furthest failures of matching a pattern at the start of a text. -/
def furthest (p : Pattern) (text : String) : Furthest :=
  p.trace (matchExpr (depthOf text)) (traceExpr (depthOf text)) .loose (Cursor.ofText text)
    .initial

/-- The stretch a report points at: the byte at the offset, or the last byte at
the end of the text. -/
def pointAt (length offset : Nat) : Span :=
  if offset < length then { offset, length := 1 }
  else if 0 < offset then { offset := offset - 1, length := 1 }
  else { offset := 0, length := 0 }

/-- The report of a text that a pattern does not match. -/
def report (p : Pattern) (text : String) : Unreadable :=
  let f := furthest p text
  let length := Text.byteLength text.toList
  { span := pointAt length f.offset
    location := Text.locate text f.offset
    atEnd := length ≤ f.offset
    expected := Rule.all.filter f.rules.contains }

/-- The tokens of a text, or why a pattern does not match it. -/
def read (p : Pattern) (text : String) : Except Fault (List Token) :=
  match tokens? p text with
  | some ts => .ok ts
  | none => .error (.unreadable (report p text))

end Language

end FlowSelect
