/-
# Comparisons with integers

A comparison with a number holds on a row exactly if its operand has an integer there that stands in
the relation to the number (`comparison_integer_iff`). A range asks for an integer between its bounds,
and the complement of a range for an integer that is not: the complement does not accept rows where
there is no integer at all (`inRange_integer_iff`, `inRange_complement_integer_iff`).

Key definitions: `Row.Stores`, `Constant.integer?`.
Key theorems: `comparison_integer_iff`, `inRange_integer_iff`, `inRange_complement_integer_iff`.
-/
import FlowSelect.Compile.Compare
import FlowSelect.Proofs.Kleene

namespace FlowSelect

/-- A row stores an integer under a name, signed or unsigned. -/
def Row.Stores (row : Row) (name : String) (n : Int) : Prop :=
  (row.get? name).bind Cell.integer? = some n

instance Row.decidableStores (row : Row) (name : String) (n : Int) : Decidable (row.Stores name n) :=
  inferInstanceAs (Decidable (_ = _))

/-- A column has the integer that the row stores under its name. -/
theorem Operand.value?_eq_int_iff {row : Row} {name : String} {n : Int} :
    (Operand.column name).value? row = some (.int n) ↔ row.Stores name n := by
  unfold Row.Stores
  simp only [Operand.value?]
  rcases row.get? name with _ | k | k | s <;> simp [Cell.integer?, Cell.scalar]

/-- The integer that a constant is, unless it is a text. -/
def Constant.integer? : Constant → Option Int
  | .int n => some n.toInt
  | .uint n => some n.toNat
  | .text _ => none

variable {row : Row} {o : Operand} {k low high : Constant} {n a b : Int}

/-- **A comparison with a number holds of the integers in that relation to it.** -/
theorem comparison_integer_iff (hk : k.integer? = some n) (r : Relation) :
    (comparison o r k).accepts row = true ↔ ∃ x, o.value? row = some (.int x) ∧ r.Between x n := by
  rw [Predicate.accepts_comparison, Comparison.Holds]
  have hrelated : ∀ value : Scalar, value.Related r k ↔ ∃ x, value = .int x ∧ r.Between x n := by
    intro value
    cases k with
    | text u => cases hk
    | _ => cases hk; cases value <;> simp [Scalar.Related]
  simp only [hrelated, Option.mem_def]
  constructor
  · rintro ⟨value, hvalue, x, rfl, hbetween⟩
    exact ⟨x, hvalue, hbetween⟩
  · rintro ⟨x, hvalue, hbetween⟩
    exact ⟨.int x, hvalue, x, rfl, hbetween⟩

/-- A range holds of the integers between its bounds. -/
theorem inRange_integer_iff (hlow : low.integer? = some a) (hhigh : high.integer? = some b) :
    (inRange o low high).accepts row = true ↔
      ∃ x, o.value? row = some (.int x) ∧ a ≤ x ∧ x ≤ b := by
  rw [inRange, Predicate.accepts_and, comparison_integer_iff hlow, comparison_integer_iff hhigh]
  simp only [Relation.Between]
  constructor
  · rintro ⟨⟨x, hx, hge⟩, y, hy, hle⟩
    obtain rfl : x = y := by simpa [hx] using hy
    exact ⟨x, hx, hge, hle⟩
  · rintro ⟨x, hx, hge, hle⟩
    exact ⟨⟨x, hx, hge⟩, x, hx, hle⟩

/-- The complement of a range holds of the other integers. -/
theorem inRange_complement_integer_iff (hlow : low.integer? = some a) (hhigh : high.integer? = some b) :
    (inRange o low high).complement.accepts row = true ↔
      ∃ x, o.value? row = some (.int x) ∧ ¬(a ≤ x ∧ x ≤ b) := by
  have hor : (inRange o low high).complement = .or (comparison o .lt low) (comparison o .gt high) := rfl
  rw [hor, Predicate.accepts_or, comparison_integer_iff hlow, comparison_integer_iff hhigh]
  simp only [Relation.Between, ← exists_or, ← and_or_left]
  refine exists_congr fun x => and_congr_right fun _ => ?_
  omega

end FlowSelect
