/-
# Configurations

Everything a filter is compiled from: its text, a schema, and a time window.
-/
import FlowSelect.Schema.Codec

namespace FlowSelect

/-- A stretch of time in seconds, both ends included. -/
structure TimeWindow where
  start : Int64
  stop : Int64
  deriving DecidableEq, Repr

namespace TimeWindow

/-- A time window in JSON. -/
def toJson (w : TimeWindow) : Json := .obj [("start", .int w.start.toInt), ("end", .int w.stop.toInt)]

/-- Reads a time window. -/
def ofJson? (j : Json) : Option TimeWindow :=
  match j.record? ["start", "end"] with
  | some [start, stop] => do
    return { start := ← Json.required Json.int64? start, stop := ← Json.required Json.int64? stop }
  | _ => none

end TimeWindow

/-- What a filter is compiled from. -/
structure Configuration where
  filter : String
  schema : Schema
  window : Option TimeWindow
  deriving DecidableEq, Repr

namespace Configuration

/-- A configuration in JSON; an absent window is left out. -/
def toJson (c : Configuration) : Json :=
  .obj ([("filter", .str c.filter), ("schema", c.schema.toJson)]
    ++ Json.fieldIf "time_window" (c.window.map TimeWindow.toJson))

/-- Reads a configuration; its schema is not checked. -/
def ofJson? (j : Json) : Option Configuration :=
  match j.record? ["filter", "schema", "time_window"] with
  | some [filter, schema, window] => do
    return {
      filter := ← Json.defaulted "" Json.text? filter
      schema := ← Json.required Schema.ofJson? schema
      window := ← Json.optional TimeWindow.ofJson? window }
  | _ => none

/-- Reads the text of a configuration. -/
def parse? (text : String) : Option Configuration :=
  match Json.read? text with
  | some j => ofJson? j
  | none => none

end Configuration

end FlowSelect
