/-
# Negation is Kleene negation

A comparison whose operand has no value on a row, or a value that cannot be related to its constant,
does not hold, and neither does its opposite. So the complement of a predicate is not the Boolean
complement of its truth. In strong Kleene logic, where such a comparison is unknown, it is: a
predicate accepts the rows on which it is true, and its complement those on which it is false
(`Predicate.accepts_iff_truth`, `Predicate.complement_accepts_iff_truth`).

Key definitions: `Truth`, `Operand.Undefined`, `Comparison.Unknown`, `Comparison.truth`,
`Predicate.truth`.
Key theorems: `Operand.value?_eq_none_iff`, `Comparison.complement_truth`,
`Predicate.complement_accepts_iff_truth`.
-/
import Mathlib
import FlowSelect.Filter

namespace FlowSelect

/-- The truth values of three-valued logic. -/
inductive Truth where
  | yes | no | unknown
  deriving DecidableEq, Repr

namespace Truth

/-- The strong Kleene conjunction: false as soon as one side is. -/
def and : Truth → Truth → Truth
  | .no, _ => .no
  | _, .no => .no
  | .yes, .yes => .yes
  | _, _ => .unknown

/-- The strong Kleene disjunction: true as soon as one side is. -/
def or : Truth → Truth → Truth
  | .yes, _ => .yes
  | _, .yes => .yes
  | .no, .no => .no
  | _, _ => .unknown

/-- The strong Kleene negation: the unknown stays unknown. -/
def not : Truth → Truth
  | .yes => .no
  | .no => .yes
  | .unknown => .unknown

theorem and_eq_yes_iff (a b : Truth) : a.and b = .yes ↔ a = .yes ∧ b = .yes := by
  cases a <;> cases b <;> simp [and]

theorem or_eq_yes_iff (a b : Truth) : a.or b = .yes ↔ a = .yes ∨ b = .yes := by
  cases a <;> cases b <;> simp [or]

theorem not_and (a b : Truth) : (a.and b).not = a.not.or b.not := by
  cases a <;> cases b <;> rfl

theorem not_or (a b : Truth) : (a.or b).not = a.not.and b.not := by
  cases a <;> cases b <;> rfl

theorem not_eq_yes_iff (a : Truth) : a.not = .yes ↔ a = .no := by
  cases a <;> simp [not]

theorem and_eq_unknown {a b : Truth} (h : a.and b = .unknown) : a = .unknown ∨ b = .unknown := by
  cases a <;> cases b <;> simp_all [and]

theorem or_eq_unknown {a b : Truth} (h : a.or b = .unknown) : a = .unknown ∨ b = .unknown := by
  cases a <;> cases b <;> simp_all [or]

end Truth

namespace Formula

variable {α : Type} {t : α → Truth}

/-- The strong Kleene value of a formula whose atoms have the values `t` gives them. -/
def truth (t : α → Truth) : Formula α → Truth
  | .atom a => t a
  | .and l r => (l.truth t).and (r.truth t)
  | .or l r => (l.truth t).or (r.truth t)

theorem eval_iff_truth {v : α → Bool} (hv : ∀ a, v a = true ↔ t a = .yes) :
    ∀ f : Formula α, f.eval v = true ↔ f.truth t = .yes
  | .atom a => hv a
  | .and l r => by
    rw [eval, truth, Bool.and_eq_true_iff, Truth.and_eq_yes_iff, eval_iff_truth hv l,
      eval_iff_truth hv r]
  | .or l r => by
    rw [eval, truth, Bool.or_eq_true_iff, Truth.or_eq_yes_iff, eval_iff_truth hv l,
      eval_iff_truth hv r]

/-- De Morgan's laws hold in Kleene logic, so negation reaches the atoms. -/
theorem negate_truth {complement : α → α} (hc : ∀ a, t (complement a) = (t a).not) :
    ∀ f : Formula α, (f.negate complement).truth t = (f.truth t).not
  | .atom a => hc a
  | .and l r => by
    rw [negate, truth, truth, Truth.not_and, negate_truth hc l, negate_truth hc r]
  | .or l r => by
    rw [negate, truth, truth, Truth.not_or, negate_truth hc l, negate_truth hc r]

/-- An unknown formula has an unknown atom. -/
theorem exists_unknown_atom : ∀ {f : Formula α}, f.truth t = .unknown → ∃ a ∈ f.atoms, t a = .unknown
  | .atom a, h => ⟨a, by simp [atoms], h⟩
  | .and l r, h => by
    rcases Truth.and_eq_unknown h with h | h
    · obtain ⟨a, ha, hu⟩ := exists_unknown_atom h
      exact ⟨a, List.mem_append_left _ ha, hu⟩
    · obtain ⟨a, ha, hu⟩ := exists_unknown_atom h
      exact ⟨a, List.mem_append_right _ ha, hu⟩
  | .or l r, h => by
    rcases Truth.or_eq_unknown h with h | h
    · obtain ⟨a, ha, hu⟩ := exists_unknown_atom h
      exact ⟨a, List.mem_append_left _ ha, hu⟩
    · obtain ⟨a, ha, hu⟩ := exists_unknown_atom h
      exact ⟨a, List.mem_append_right _ ha, hu⟩

end Formula

/-! ### Operands without a value -/

/-- Whether a value is a text. -/
def Scalar.isText : Scalar → Bool
  | .text _ => true
  | .int _ => false

/-- Whether a cell holds a text that is no encoded URL. -/
def Cell.isBadUrl : Cell → Bool
  | .text raw => (Url.decode? raw).isNone
  | _ => false

/-- Whether a bit operator moves bits. -/
def BitOperator.isShift : BitOperator → Bool
  | .shl | .shr => true
  | _ => false

/-- Why an operand has no value on a row: its column is missing, a bit operator meets a text or an
amount outside the word, or a stored URL cannot be decoded. -/
def Operand.Undefined (row : Row) : Operand → Prop
  | .column name => row.get? name = none
  | .aggregate function part => row.get? (aggregateName function part) = none ∧ row.get? part = none
  | .masked operand op argument =>
    operand.Undefined row ∨ (operand.value? row).any Scalar.isText = true ∨
      op.isShift = true ∧ ¬(0 ≤ argument.toInt ∧ argument.toInt ≤ 127)
  | .decoded semantics part =>
    row.get? part = none ∨ semantics = .url ∧ (row.get? part).any Cell.isBadUrl = true

instance Operand.decidableUndefined (row : Row) : (o : Operand) → Decidable (o.Undefined row)
  | .column name => inferInstanceAs (Decidable (row.get? name = none))
  | .aggregate function part =>
    inferInstanceAs (Decidable (row.get? (aggregateName function part) = none ∧ row.get? part = none))
  | .masked operand op argument =>
    have := Operand.decidableUndefined row operand
    inferInstanceAs (Decidable (operand.Undefined row ∨
      (operand.value? row).any Scalar.isText = true ∨
        op.isShift = true ∧ ¬(0 ≤ argument.toInt ∧ argument.toInt ≤ 127)))
  | .decoded semantics part =>
    inferInstanceAs (Decidable (row.get? part = none ∨
      semantics = .url ∧ (row.get? part).any Cell.isBadUrl = true))

theorem BitOperator.result?_eq_none_iff (op : BitOperator) (x : Int) (argument : Int64) :
    op.result? x argument = none ↔
      op.isShift = true ∧ ¬(0 ≤ argument.toInt ∧ argument.toInt ≤ 127) := by
  have hamount : shiftAmount? argument = none ↔ ¬(0 ≤ argument.toInt ∧ argument.toInt ≤ 127) := by
    unfold shiftAmount?
    simp only [ite_eq_right_iff, reduceCtorEq, imp_false]
    omega
  cases op with
  | shl => simpa [result?, isShift] using hamount
  | shr => simpa [result?, isShift] using hamount
  | _ => simp [result?, isShift]

/-- **An operand has no value exactly for one of these reasons.** -/
theorem Operand.value?_eq_none_iff (row : Row) : ∀ o : Operand,
    o.value? row = none ↔ o.Undefined row
  | .column name => by simp [value?, Undefined]
  | .aggregate function part => by
    unfold value? Undefined
    cases row.get? (aggregateName function part) <;> simp
  | .masked operand op argument => by
    have ih := value?_eq_none_iff row operand
    unfold value? Undefined
    rw [← ih]
    rcases operand.value? row with _ | x | s
    · simp
    · simpa [Scalar.isText] using BitOperator.result?_eq_none_iff op x argument
    · simp [Scalar.isText]
  | .decoded semantics part => by
    unfold value? Undefined
    rcases row.get? part with _ | n | n | raw
    · simp
    · simp [Cell.isBadUrl]
    · simp [Cell.isBadUrl]
    · cases semantics <;> simp [Cell.isBadUrl, Semantics.decode?]

/-! ### Comparisons -/

/-- The relation as a relation of integers. -/
def Relation.Between : Relation → Int → Int → Prop
  | .eq, x, y => x = y
  | .ne, x, y => x ≠ y
  | .lt, x, y => x < y
  | .le, x, y => x ≤ y
  | .gt, x, y => y < x
  | .ge, x, y => y ≤ x

instance Relation.decidableBetween (x y : Int) : (r : Relation) → Decidable (r.Between x y)
  | .eq => inferInstanceAs (Decidable (x = y))
  | .ne => inferInstanceAs (Decidable (x ≠ y))
  | .lt => inferInstanceAs (Decidable (x < y))
  | .le => inferInstanceAs (Decidable (x ≤ y))
  | .gt => inferInstanceAs (Decidable (y < x))
  | .ge => inferInstanceAs (Decidable (y ≤ x))

theorem Relation.holds_compare_iff (r : Relation) (x y : Int) :
    r.holds (compare x y) = true ↔ r.Between x y := by
  rcases lt_trichotomy x y with h | h | h
  · have hc : compare x y = .lt := compare_lt_iff_lt.mpr h
    cases r <;> simp [holds, Between, hc] <;> omega
  · have hc : compare x y = .eq := compare_eq_iff_eq.mpr h
    cases r <;> simp [holds, Between, hc] <;> omega
  · have hc : compare x y = .gt := compare_gt_iff_gt.mpr h
    cases r <;> simp [holds, Between, hc] <;> omega

theorem Relation.complement_between (r : Relation) (x y : Int) :
    r.complement.Between x y ↔ ¬r.Between x y := by
  cases r <;> simp [complement, Between]

/-- A value and a constant of which one is a text and the other is not. -/
def Scalar.Differs : Scalar → Constant → Prop
  | .text _, .text _ => False
  | .text _, _ => True
  | .int _, .text _ => True
  | .int _, _ => False

/-- What a relation says of a value and a constant of the same type. -/
def Scalar.Related (r : Relation) : Scalar → Constant → Prop
  | .int x, .int n => r.Between x n.toInt
  | .int x, .uint n => r.Between x n.toNat
  | .text s, .text u => r = .eq ∧ s = u ∨ r = .ne ∧ s ≠ u
  | _, _ => False

instance Scalar.decidableDiffers : (value : Scalar) → (k : Constant) → Decidable (value.Differs k)
  | .text _, .text _ => .isFalse id
  | .text _, .int _ => .isTrue trivial
  | .text _, .uint _ => .isTrue trivial
  | .int _, .text _ => .isTrue trivial
  | .int _, .int _ => .isFalse id
  | .int _, .uint _ => .isFalse id

instance Scalar.decidableRelated (r : Relation) :
    (value : Scalar) → (k : Constant) → Decidable (value.Related r k)
  | .int x, .int n => inferInstanceAs (Decidable (r.Between x n.toInt))
  | .int x, .uint n => inferInstanceAs (Decidable (r.Between x n.toNat))
  | .text s, .text u => inferInstanceAs (Decidable (r = .eq ∧ s = u ∨ r = .ne ∧ s ≠ u))
  | .int _, .text _ => .isFalse id
  | .text _, .int _ => .isFalse id
  | .text _, .uint _ => .isFalse id

namespace Comparison

variable (row : Row)

/-- A comparison is unknown on a row if its operand has no value there, if the value's type is not
the constant's, or if it asks for an order of texts. -/
def Unknown (c : Comparison) : Prop :=
  c.operand.Undefined row ∨
    ∃ value ∈ c.operand.value? row,
      value.Differs c.constant ∨ value.isText = true ∧ c.relation.isOrdering = true

instance decidableUnknown (c : Comparison) : Decidable (c.Unknown row) :=
  inferInstanceAs (Decidable (_ ∨ ∃ value ∈ c.operand.value? row, _))

/-- What a comparison says of a row. -/
def Holds (c : Comparison) : Prop :=
  ∃ value ∈ c.operand.value? row, value.Related c.relation c.constant

instance decidableHolds (c : Comparison) : Decidable (c.Holds row) :=
  inferInstanceAs (Decidable (∃ value ∈ c.operand.value? row, _))

/-- The Kleene value of a comparison on a row. -/
def truth (c : Comparison) : Truth :=
  if c.Unknown row then .unknown else if c.Holds row then .yes else .no

theorem not_holds_of_unknown {c : Comparison} (h : c.Unknown row) : ¬c.Holds row := by
  rintro ⟨value, hv, hr⟩
  rw [Option.mem_def] at hv
  rcases h with hu | ⟨value', hv', hd⟩
  · rw [← Operand.value?_eq_none_iff, hv] at hu
    cases hu
  · obtain rfl : value = value' := by simpa [hv] using hv'
    rcases hd with hd | ⟨ht, ho⟩
    · rcases value with x | s <;> rcases hk : c.constant with n | n | u <;>
        simp_all [Scalar.Differs, Scalar.Related]
    · rcases value with x | s
      · cases ht
      · rcases hk : c.constant with n | n | u
        · simp [hk, Scalar.Related] at hr
        · simp [hk, Scalar.Related] at hr
        · rw [hk] at hr
          rcases hr with ⟨he, -⟩ | ⟨he, -⟩ <;> simp [he, Relation.isOrdering] at ho

theorem accepts_iff_holds (c : Comparison) : c.accepts row = true ↔ c.Holds row := by
  unfold accepts Holds
  rcases c.operand.value? row with _ | x | s
  · simp
  · rcases hk : c.constant with n | n | u
    · simp [related, Scalar.Related, Relation.holds_compare_iff]
    · simp [related, Scalar.Related, Relation.holds_compare_iff]
    · simp [related, Scalar.Related]
  · rcases hk : c.constant with n | n | u
    · simp [related, Scalar.Related]
    · simp [related, Scalar.Related]
    · cases c.relation <;> simp [related, Scalar.Related]

theorem truth_eq_yes_iff (c : Comparison) : c.truth row = .yes ↔ c.Holds row := by
  unfold truth
  by_cases hu : c.Unknown row
  · simp [hu, not_holds_of_unknown row hu]
  · by_cases hh : c.Holds row <;> simp [hu, hh]

/-- The opposite of a comparison is unknown where the comparison is. -/
theorem complement_unknown (c : Comparison) : c.complement.Unknown row ↔ c.Unknown row := by
  have ho : c.relation.complement.isOrdering = c.relation.isOrdering := by cases c.relation <;> rfl
  simp [Unknown, complement, ho]

/-- Where a comparison is not unknown, its opposite holds exactly if it does not. -/
theorem complement_holds (c : Comparison) (h : ¬c.Unknown row) :
    c.complement.Holds row ↔ ¬c.Holds row := by
  unfold Unknown at h
  rw [not_or, ← Operand.value?_eq_none_iff] at h
  obtain ⟨hdef, hfits⟩ := h
  obtain ⟨value, hv⟩ := Option.ne_none_iff_exists'.mp hdef
  have hfits := fun hbad => hfits ⟨value, hv, hbad⟩
  simp only [Holds, complement, hv, Option.mem_def, Option.some.injEq, exists_eq_left']
  rcases value with x | s
  · rcases hk : c.constant with n | n | u
    · exact Relation.complement_between c.relation x n.toInt
    · exact Relation.complement_between c.relation x n.toNat
    · exact absurd (.inl (by rw [hk]; trivial)) hfits
  · rcases hk : c.constant with n | n | u
    · exact absurd (.inl (by rw [hk]; trivial)) hfits
    · exact absurd (.inl (by rw [hk]; trivial)) hfits
    · cases hr : c.relation with
      | eq => simp [Relation.complement, Scalar.Related]
      | ne => simp [Relation.complement, Scalar.Related]
      | _ => exact absurd (.inr ⟨rfl, by rw [hr]; rfl⟩) hfits

/-- **The opposite of a comparison has the negated value.** -/
theorem complement_truth (c : Comparison) : c.complement.truth row = (c.truth row).not := by
  unfold truth
  by_cases hu : c.Unknown row
  · simp [(complement_unknown row c).mpr hu, hu, Truth.not]
  · have hu' : ¬c.complement.Unknown row := fun h => hu ((complement_unknown row c).mp h)
    have hh := complement_holds row c hu
    by_cases h : c.Holds row <;> simp [hu, hu', hh, h, Truth.not]

end Comparison

namespace Predicate

variable (row : Row)

theorem accepts_and (p q : Predicate) :
    accepts row (.and p q) = true ↔ p.accepts row = true ∧ q.accepts row = true :=
  Bool.and_eq_true_iff

theorem accepts_or (p q : Predicate) :
    accepts row (.or p q) = true ↔ p.accepts row = true ∨ q.accepts row = true :=
  Bool.or_eq_true_iff

theorem accepts_comparison (o : Operand) (r : Relation) (k : Constant) :
    (comparison o r k).accepts row = true ↔ Comparison.Holds row ⟨o, r, k⟩ :=
  Comparison.accepts_iff_holds row ⟨o, r, k⟩

/-- The Kleene value of a predicate on a row. -/
def truth (p : Predicate) : Truth := Formula.truth (Comparison.truth row) p

theorem accepts_iff_truth (p : Predicate) : p.accepts row = true ↔ p.truth row = .yes :=
  Formula.eval_iff_truth
    (fun c => (Comparison.accepts_iff_holds row c).trans (Comparison.truth_eq_yes_iff row c).symm) p

theorem complement_accepts_iff_truth (p : Predicate) :
    p.complement.accepts row = true ↔ p.truth row = .no := by
  rw [accepts_iff_truth, ← Truth.not_eq_yes_iff]
  have h := Formula.negate_truth (Comparison.complement_truth row) p
  exact ⟨fun hy => h.symm.trans hy, fun hy => h.trans hy⟩

/-- A row on which no comparison is unknown is accepted by the predicate or by its complement. -/
theorem truth_ne_unknown (p : Predicate) (h : ∀ c ∈ p.atoms, ¬c.Unknown row) :
    p.truth row ≠ .unknown := by
  intro hu
  obtain ⟨c, hc, ht⟩ := Formula.exists_unknown_atom hu
  refine h c hc ?_
  unfold Comparison.truth at ht
  by_contra hknown
  rw [if_neg hknown] at ht
  split at ht <;> cases ht

end Predicate

end FlowSelect
