/-
# Filters

A filter is compiled once from a configuration. It hands the part of its
predicate that an engine can evaluate to the engine as text, and evaluates the
whole predicate on single rows.

Key definitions: `Filter.compile`, `Filter.engineText`, `Filter.accepts`.
-/
import FlowSelect.Compile.Clause
import FlowSelect.Configuration
import FlowSelect.Text.Blank

namespace FlowSelect

/-- A compiled filter. Without a predicate it accepts every row. -/
structure Filter where
  predicate : Option Predicate
  window : Option TimeWindow
  timestampColumn : String
  deriving DecidableEq, Repr

namespace Filter

/-- The filter that accepts every row, at any time. -/
def all : Filter :=
  { predicate := none, window := none, timestampColumn := Schema.defaultTimestampColumn }

/-- A filter with the window and the time column of a configuration. -/
def ofPredicate (c : Configuration) (predicate : Option Predicate) : Filter :=
  { predicate, window := c.window, timestampColumn := c.schema.timestampColumn }

/-- Compiles a configuration. A filter text of blanks accepts every row. -/
def compile (c : Configuration) : Except Rejection Filter :=
  if Text.isAllBlank c.filter then .ok (ofPredicate c none)
  else (compileText c.schema c.filter).map (ofPredicate c)

/-- Engine text of the predicate, without the time window. -/
def predicateText (f : Filter) : String :=
  match f.predicate with
  | some p => p.engineText
  | none => ""

/-- Engine text of a time window. -/
def windowText (column : String) (w : TimeWindow) : String :=
  column ++ " >= " ++ toString w.start.toInt ++ " AND " ++ column ++ " <= "
    ++ toString w.stop.toInt

/-- Engine text of a filter, with its time window. -/
def engineText (f : Filter) : String :=
  match f.window with
  | none => f.predicateText
  | some w =>
    if f.predicateText.isEmpty then windowText f.timestampColumn w
    else "(" ++ f.predicateText ++ ") AND " ++ windowText f.timestampColumn w

/-- Whether the predicate of a filter accepts a row. -/
def accepts (f : Filter) (row : Row) : Bool :=
  match f.predicate with
  | some p => p.accepts row
  | none => true

/-- Whether rows that the engine returns have to be looked at once more. -/
def needsRow (f : Filter) : Bool :=
  match f.predicate with
  | some p => p.needsRow
  | none => false

end Filter

end FlowSelect
