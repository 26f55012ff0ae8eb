/-
# The names in a compiled predicate

If the stored columns and the aggregations of a schema go by names, so do the operands of every
predicate that is compiled with it: each comparison needs a look at the row, or its operand is named
(`compileText_named`). Raw columns of the filter text are names by the grammar, and an aggregation
that the schema leaves out has a name of its own.

Key definitions: `Schema.Named`, `Predicate.Named`.
Key theorems: `Target.Leaf.named`, `ColumnName.Stands.named`, `compileText_named`.
-/
import FlowSelect.Proofs.Compile.Leaves
import FlowSelect.Proofs.Engine.Lexemes

namespace FlowSelect

/-- A schema whose stored columns and aggregations go by names. -/
structure Schema.Named (s : Schema) : Prop where
  parts : ∀ c ∈ s.columns, ∀ part ∈ c.parts, Text.isName part = true
  aggregations : ∀ c ∈ s.columns, ∀ function ∈ c.aggregation, Text.isName function = true
  timestamp : Text.isName s.timestampColumn = true

/-- A column that goes by names. -/
structure Column.Named (c : Column) : Prop where
  parts : ∀ part ∈ c.parts, Text.isName part = true
  aggregation : Text.isName c.aggregationFunction = true

/-- Every comparison needs a look at the row, or its operand is named. -/
def Predicate.Named (p : Predicate) : Prop := ∀ c ∈ p.atoms, c.needsRow = true ∨ c.operand.Named

namespace Target

variable {t : Target}

theorem operand_named (h : t.column.Named) {part : String} (hpart : part ∈ t.column.parts) :
    (t.operand part).Named := by
  have hbase : Operand.Named
      (if t.aggregate then .aggregate t.column.aggregationFunction part else .column part) := by
    split
    · exact ⟨h.aggregation, h.parts part hpart⟩
    · exact h.parts part hpart
  unfold operand
  simp only
  split
  · exact hbase
  · exact hbase

/-- **The comparisons of a target that goes by names have named operands**, or need a look at the
row. -/
theorem Leaf.named (h : t.column.Named) {right : Side} {c : Comparison} (hc : t.Leaf right c) :
    c.needsRow = true ∨ c.operand.Named := by
  cases hc with
  | @flags part hpart _ _ n =>
    exact .inr (operand_named (t := { t with mask := some (.and, n) }) h hpart)
  | @text part hpart =>
    unfold textOperand
    split
    · exact .inl rfl
    · exact .inr (h.parts part hpart)
  | _ => exact .inr (operand_named h ‹_›)

end Target

variable {s : Schema}

/-- The aggregation of a column that states none. -/
theorem isName_sum : Text.isName "sum" = true := by decide

theorem ColumnName.Stands.named (hs : s.Named) {n : ColumnName} (hn : n.WellWritten) {c : Column}
    (h : n.Stands s c) : c.Named := by
  cases n with
  | raw name =>
    obtain rfl : c = Column.raw name := h
    have hname : Text.isName name = true := Text.isName_of_isRawColumn hn
    exact ⟨by simpa [Column.raw] using hname, isName_sum⟩
  | registered name =>
    obtain ⟨_, spec, hspec, rfl⟩ := h
    refine ⟨hs.parts spec hspec, ?_⟩
    unfold Column.aggregationFunction Column.ofSpec
    cases hf : spec.aggregation with
    | none => exact isName_sum
    | some function => exact hs.aggregations spec hspec function hf

/-- **A filter text compiles to a named predicate**, if the schema goes by names. -/
theorem compileText_named (hs : s.Named) {text : String} {p : Predicate}
    (h : compileText s text = .ok (some p)) : p.Named := by
  intro c hc
  obtain ⟨clause, hclause, left, right, hleft, -, ts, t, hts, ht, hleaf⟩ := compileText_leaves h c hc
  have hstands := (Subject.mem_targets hleft hts ht).1
  have hname : clause.subject.columnName.WellWritten := hclause.subject.columnName
  exact hleaf.named (hstands.named hs hname)

end FlowSelect
