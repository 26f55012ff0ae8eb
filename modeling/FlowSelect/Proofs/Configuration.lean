/-
# Configurations read back

A configuration is written as a JSON object and read back as it was. Writing leaves out what is
absent, and reading puts a default in its place: the default of an optional field is that it is
absent. All other fields are always written, so their defaults are never used. Names of kinds and
meanings are read back since no two are alike, and times since they fit into 64 bits.

Nothing here asks that the schema is valid.

Key theorems: `ColumnSpec.ofJson?_toJson`, `Schema.ofJson?_toJson`, `Configuration.ofJson?_toJson`,
`configuration_reads_back`.
-/
import FlowSelect.Configuration
import FlowSelect.Proofs.Json.ReadBack

namespace FlowSelect

namespace Json

variable {α : Type}

/-! ### Fields -/

/-- A list is decoded if its members are. -/
theorem list?_arr_map {encode : α → Json} {decode : Json → Option α}
    (h : ∀ a, decode (encode a) = some a) (xs : List α) : list? decode (.arr (xs.map encode)) = some xs := by
  have heach : ∀ xs : List α, each? decode (xs.map encode) = some xs := by
    intro xs
    induction xs with
    | nil => rfl
    | cons x xs ih => simp [each?, h, ih]
  exact heach xs

theorem list?_texts (xs : List String) : list? text? (texts xs) = some xs := by
  have htext (s : String) : text? (.str s) = some s := rfl
  exact list?_arr_map htext xs

theorem plain_arr_map {encode : α → Json} (h : ∀ a, (encode a).Plain) (xs : List α) :
    (Json.arr (xs.map encode)).Plain := by
  refine .arr fun v hv => ?_
  obtain ⟨a, -, rfl⟩ := List.mem_map.mp hv
  exact h a

theorem plain_texts (xs : List String) : (texts xs).Plain := plain_arr_map .str xs

theorem plain_fieldIf {encode : α → Json} (h : ∀ a, (encode a).Plain) {name : String} {o : Option α} :
    ∀ f ∈ fieldIf name (o.map encode), f.2.Plain := by
  cases o with
  | none => simp [fieldIf]
  | some a => simpa [fieldIf] using h a

/-- The signed 64-bit integers are read back. -/
theorem int64?_toInt (n : Int64) : int64? (.int n.toInt) = some n := by
  have hlow : Int64.minValue.toInt ≤ n.toInt := Int64.le_iff_toInt_le.mp (Int64.minValue_le n)
  have hhigh : n.toInt ≤ Int64.maxValue.toInt := Int64.le_iff_toInt_le.mp (Int64.le_maxValue n)
  rw [int64?, if_pos ⟨hlow, hhigh⟩, Int64.ofInt_toInt]

end Json

theorem Kind.ofName?_name (k : Kind) : ofName? k.name = some k := by
  cases k <;> decide

theorem Semantics.ofName?_name (s : Semantics) : ofName? s.name = some s := by
  cases s <;> decide

/-! ### Records -/

attribute [local simp] Json.record? Json.fieldsNamed? Json.field? Json.required Json.defaulted Json.optional
  Json.choice? Json.text? Json.bool? Json.fieldIf

namespace ColumnSpec

theorem ofJson?_toJson (c : ColumnSpec) : ofJson? c.toJson = some c := by
  obtain ⟨aliases, parts, kind, semantics, aggregation⟩ := c
  -- whether an optional field is written decides what the reader finds under the names
  cases semantics <;> cases aggregation <;>
    simp [ofJson?, toJson, Json.list?_texts, Kind.ofName?_name, Semantics.ofName?_name]

theorem plain_toJson (c : ColumnSpec) : c.toJson.Plain := by
  refine .obj fun f hf => ?_
  rcases List.mem_append.mp hf with hf | hf
  · rcases List.mem_append.mp hf with hf | hf
    · simp only [List.mem_cons, List.not_mem_nil, or_false] at hf
      rcases hf with rfl | rfl | rfl
      · exact Json.plain_texts c.aliases
      · exact Json.plain_texts c.parts
      · exact .str c.kind.name
    · exact Json.plain_fieldIf (fun s : Semantics => .str s.name) f hf
  · exact Json.plain_fieldIf .str f hf

end ColumnSpec

namespace GroupSpec

theorem ofJson?_toJson (g : GroupSpec) : ofJson? g.toJson = some g := by
  simp [ofJson?, toJson, Json.list?_texts]

theorem plain_toJson (g : GroupSpec) : g.toJson.Plain := by
  refine .obj fun f hf => ?_
  simp only [List.mem_cons, List.not_mem_nil, or_false] at hf
  rcases hf with rfl | rfl | rfl
  · exact .str g.name
  · exact Json.plain_texts g.members
  · exact .bool g.aggregate

end GroupSpec

namespace Schema

theorem ofJson?_toJson (s : Schema) : ofJson? s.toJson = some s := by
  have hcolumns := Json.list?_arr_map ColumnSpec.ofJson?_toJson s.columns
  have hgroups := Json.list?_arr_map GroupSpec.ofJson?_toJson s.groups
  simp [ofJson?, toJson, hcolumns, hgroups]

theorem plain_toJson (s : Schema) : s.toJson.Plain := by
  refine .obj fun f hf => ?_
  simp only [List.mem_cons, List.not_mem_nil, or_false] at hf
  rcases hf with rfl | rfl | rfl
  · exact Json.plain_arr_map ColumnSpec.plain_toJson s.columns
  · exact Json.plain_arr_map GroupSpec.plain_toJson s.groups
  · exact .str s.timestampColumn

end Schema

namespace TimeWindow

theorem ofJson?_toJson (w : TimeWindow) : ofJson? w.toJson = some w := by
  simp [ofJson?, toJson, Json.int64?_toInt]

theorem plain_toJson (w : TimeWindow) : w.toJson.Plain := by
  refine .obj fun f hf => ?_
  simp only [List.mem_cons, List.not_mem_nil, or_false] at hf
  rcases hf with rfl | rfl
  · exact .int w.start.toInt
  · exact .int w.stop.toInt

end TimeWindow

namespace Configuration

theorem ofJson?_toJson (c : Configuration) : ofJson? c.toJson = some c := by
  obtain ⟨filter, schema, window⟩ := c
  cases window with
  | none =>
    simp [ofJson?, toJson, Schema.ofJson?_toJson]
  | some w =>
    have hwindow : Json.optional TimeWindow.ofJson? (some w.toJson) = some (some w) := by
      rw [Json.optional, TimeWindow.ofJson?_toJson]
      · rfl
      · simp [TimeWindow.toJson]
    simp [ofJson?, toJson, Schema.ofJson?_toJson, hwindow, -Json.optional]

theorem plain_toJson (c : Configuration) : c.toJson.Plain := by
  refine .obj fun f hf => ?_
  rcases List.mem_append.mp hf with hf | hf
  · simp only [List.mem_cons, List.not_mem_nil, or_false] at hf
    rcases hf with rfl | rfl
    · exact .str c.filter
    · exact c.schema.plain_toJson
  · exact Json.plain_fieldIf TimeWindow.plain_toJson f hf

end Configuration

/-- **A configuration reads back as it was written**, whatever its filter, schema and time window. -/
theorem configuration_reads_back (c : Configuration) : Configuration.parse? c.toJson.render = some c := by
  rw [Configuration.parse?, Json.read?_render c.plain_toJson]
  exact c.ofJson?_toJson

end FlowSelect
