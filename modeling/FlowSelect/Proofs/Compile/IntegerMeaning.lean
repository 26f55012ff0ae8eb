/-
# What comparisons with integers mean

A number, a time or an IPv4 address on the right side is an integer, and the left side is looked at
part by part: of each column that the literal fits, each stored part. In an aggregate group the
aggregate of a part stands for the part where the row has it. What is read has to be an integer,
stored signed or unsigned, and the bit operator has to be defined on it; then the two integers are
compared as numbers. So one statement covers columns, raw columns and groups, masked or not
(`integer_comparison_meaning`).

Key definitions: `Side.columns`, `Side.cell?`, `Side.applied?`, `Literal.integer?`, `Column.Admits`.
Key theorems: `Side.operand_integer_iff`, `Target.compareLiteral_accepts_iff`,
`integer_comparison_meaning`.
-/
import FlowSelect.Proofs.Comparison.TwosComplement
import FlowSelect.Proofs.Compile.Integers
import FlowSelect.Proofs.Compile.Union
import FlowSelect.Proofs.Net.Ip4

namespace FlowSelect

/-! ### Left sides -/

namespace Side

/-- The columns of a left side. -/
def columns : Side → List Column
  | .column c => [c]
  | .group g => g.members
  | .masked side _ _ => side.columns
  | _ => []

/-- Whether a left side is an aggregate group. -/
def isAggregate : Side → Bool
  | .group g => g.aggregate
  | .masked side _ _ => side.isAggregate
  | _ => false

/-- The bit operator over a left side; of several, the outermost one. -/
def operator? : Side → Option (BitOperator × Int64)
  | .masked _ op argument => some (op, argument)
  | _ => none

/-- The cell that is read for a part of a column. In an aggregate group it is that of the aggregate, if
the row has one. -/
def cell? (left : Side) (row : Row) (c : Column) (part : String) : Option Cell :=
  if left.isAggregate then
    (row.get? (Operand.aggregateName c.aggregationFunction part)).or (row.get? part)
  else row.get? part

/-- What the bit operator makes of an integer; without an operator, the integer itself. -/
def applied? (left : Side) (x : Int) : Option Int :=
  match left.operator? with
  | some (op, argument) => op.onIntegers? x argument.toInt
  | none => some x

/-- The target that a column of a left side stands for. -/
def target (left : Side) (c : Column) : Target :=
  { column := c, aggregate := left.isAggregate, mask := left.operator? }

/-- A left side has a target for each of its columns, and what is no left side has no columns. -/
theorem targets_cases : ∀ left : Side,
    left.targets = .ok (left.columns.map left.target) ∨
      (∃ fault, left.targets = .error fault) ∧ left.columns = []
  | .column c => .inl rfl
  | .group g => .inl rfl
  | .masked side op argument => by
    rcases targets_cases side with h | ⟨⟨fault, h⟩, hcolumns⟩
    · refine .inl ?_
      rw [targets, h]
      simp [Except.map, columns, target, isAggregate, operator?]
    · refine .inr ⟨⟨fault, ?_⟩, hcolumns⟩
      rw [targets, h]
      rfl
  | .literal l => .inr ⟨⟨_, rfl⟩, rfl⟩
  | .network n => .inr ⟨⟨_, rfl⟩, rfl⟩

end Side

/-! ### Integers that are read -/

theorem Cell.scalar_eq_int_iff {cell : Cell} {x : Int} : cell.scalar = .int x ↔ cell.integer? = some x := by
  cases cell <;> simp [scalar, integer?]

/-- An integer of 64 bits, with or without a sign, is one of 128 bits. -/
theorem Cell.integer?_bounds {cell : Cell} {x : Int} (h : cell.integer? = some x) :
    -2 ^ 127 ≤ x ∧ x < 2 ^ 127 := by
  cases cell with
  | int n =>
    obtain rfl : n.toInt = x := by simpa [integer?] using h
    have hleast := n.le_toInt
    have hmost := n.toInt_lt
    omega
  | uint n =>
    obtain rfl : (n.toNat : Int) = x := by simpa [integer?] using h
    have hmost := n.toNat_lt
    omega
  | text s => cases h

section Operands

variable {row : Row} {part : String}

/-- The operand of a part, before a bit operator, has the cell that is read for it. -/
theorem Side.unmasked_value? (left : Side) (row : Row) (c : Column) (part : String) :
    Operand.value? row (if left.isAggregate then .aggregate c.aggregationFunction part else .column part) =
      (left.cell? row c part).map Cell.scalar := by
  unfold cell?
  by_cases haggregate : left.isAggregate = true
  · rw [if_pos haggregate, if_pos haggregate, Operand.value?]
    cases row.get? (Operand.aggregateName c.aggregationFunction part) <;> rfl
  · rw [if_neg haggregate, if_neg haggregate, Operand.value?]

/-- **The operand of a part is an integer where an integer is read for it and the bit operator is
defined on that.** -/
theorem Side.operand_integer_iff (left : Side) (c : Column) {y : Int} :
    ((left.target c).operand part).value? row = some (.int y) ↔
      ∃ x, (left.cell? row c part).bind Cell.integer? = some x ∧ left.applied? x = some y := by
  have hread : ∀ x, (left.cell? row c part).map Cell.scalar = some (.int x) ↔
      (left.cell? row c part).bind Cell.integer? = some x := by
    intro x
    rw [Option.map_eq_some_iff, Option.bind_eq_some_iff]
    exact exists_congr fun cell => and_congr_right fun _ => Cell.scalar_eq_int_iff
  have hbase := left.unmasked_value? row c part
  unfold Target.operand target applied?
  cases hoperator : left.operator? with
  | none =>
    simp only [hbase, hread]
    simp
  | some mask =>
    obtain ⟨op, argument⟩ := mask
    simp only [Operand.value?, hbase]
    constructor
    · intro hvalue
      split at hvalue
      · next x hx =>
        have hcell := (hread x).mp hx
        obtain ⟨cell, -, hinteger⟩ := Option.bind_eq_some_iff.mp hcell
        obtain ⟨hlow, hhigh⟩ := Cell.integer?_bounds hinteger
        rw [op.result?_eq_onIntegers? hlow hhigh] at hvalue
        exact ⟨x, hcell, by simpa using hvalue⟩
      · cases hvalue
    · rintro ⟨x, hcell, happlied⟩
      obtain ⟨cell, -, hinteger⟩ := Option.bind_eq_some_iff.mp hcell
      obtain ⟨hlow, hhigh⟩ := Cell.integer?_bounds hinteger
      rw [(hread x).mpr hcell]
      simp only [op.result?_eq_onIntegers? hlow hhigh, happlied, Option.map_some]

end Operands

/-! ### Literals that are integers -/

namespace Literal

/-- The integer of a number, a time or an IPv4 address. -/
def integer? : Literal → Option Int
  | .number n => some n.toInt
  | .timestamp seconds => some seconds.toInt
  | .ip4 a => some (a.toNat : Int)
  | _ => none

/-- The kinds of columns that may be compared with an integer. -/
def kinds : Literal → List Kind
  | .number _ => [.number, .ip4, .timestamp]
  | .timestamp _ => [.timestamp, .number]
  | .ip4 _ => [.ip4]
  | _ => []

end Literal

/-- A column may be compared with a literal: its kind is one of the literal's, or it is raw. -/
def Column.Admits (c : Column) (l : Literal) : Prop := ∀ kind ∈ c.kind, kind ∈ l.kinds

instance Column.decidableAdmits (c : Column) (l : Literal) : Decidable (c.Admits l) :=
  inferInstanceAs (Decidable (∀ kind ∈ c.kind, kind ∈ l.kinds))

namespace Target

variable {t : Target} {r : Relation} {l : Literal} {n : Int}

theorem accepts_kinds_iff : t.accepts l.kinds = true ↔ t.column.Admits l := by
  unfold accepts Column.Admits
  cases t.column.kind <;> simp

/-- A column that is no column of the literal's kinds does not fit, and of the others each part is
compared with the literal's integer. -/
theorem compareLiteral_integer (hl : l.integer? = some n) (t : Target) (r : Relation) :
    ∃ k : Constant, k.integer? = some n ∧
      (t.column.Admits l → t.compareLiteral r l = t.compareParts r k) ∧
      (¬t.column.Admits l → ∃ reason, t.compareLiteral r l = .error (t.mismatch (.literal l) reason)) := by
  simp only [← accepts_kinds_iff]
  cases l with
  | number m =>
    refine ⟨.int m, hl, fun h => ?_, fun h => ⟨.notNumeric, ?_⟩⟩
    · exact if_pos h
    · exact if_neg h
  | timestamp m =>
    refine ⟨.int m, hl, fun h => ?_, fun h => ⟨.notTime, ?_⟩⟩
    · exact if_pos h
    · exact if_neg h
  | ip4 a =>
    refine ⟨a.constant, a.constant_integer?.trans hl, fun h => ?_, fun h => ⟨.notIp4, ?_⟩⟩
    · exact if_pos h
    · exact if_neg h
  | ip6 a => cases hl
  | quoted s => cases hl
  | word s => cases hl

/-- Parts are compared if there are any, and to have none is no misfit. -/
theorem exists_compareParts_iff (t : Target) (r : Relation) (k : Constant) :
    ((∃ p, t.compareParts r k = .ok p) ↔ t.column.parts ≠ []) ∧
      ((∀ fault, t.compareParts r k = .error fault → fault.isMismatch = true) ↔ t.column.parts ≠ []) := by
  by_cases hparts : t.column.parts = []
  · have hnone : t.compareParts r k = .error (.internal (.columnHasNoParts t.column.name)) := by
      simp [compareParts, eachPart?, hparts, Formula.disjoin?]
    rw [hnone]
    simp [hparts, Fault.isMismatch]
  · obtain ⟨p, hp⟩ := eachPart?_of_parts hparts fun part => .atom ⟨t.operand part, r, k⟩
    have hsome : t.compareParts r k = .ok p := by simp [compareParts, hp]
    rw [hsome]
    simp [hparts]

/-- The parts accept a row where one of them has an integer in the relation. -/
theorem compareParts_accepts_iff {k : Constant} (hk : k.integer? = some n) {p : Predicate}
    (hp : t.compareParts r k = .ok p) (row : Row) :
    p.accepts row = true ↔
      ∃ part ∈ t.column.parts, ∃ y, (t.operand part).value? row = some (.int y) ∧ r.Between y n := by
  unfold compareParts at hp
  split at hp
  · next q hq =>
    obtain rfl : q = p := by simpa using hp
    rw [eachPart?_accepts hq]
    exact exists_congr fun part => and_congr_right fun _ => comparison_integer_iff hk r
  · cases hp

/-- A column of the right kind compiles unless it has no parts, which is no misfit. -/
theorem compareLiteral_compiles_iff (hl : l.integer? = some n) (t : Target) (r : Relation) :
    ((∃ p, t.compareLiteral r l = .ok p) ↔ t.column.Admits l ∧ t.column.parts ≠ []) ∧
      ((∀ fault, t.compareLiteral r l = .error fault → fault.isMismatch = true) ↔
        (t.column.Admits l → t.column.parts ≠ [])) := by
  obtain ⟨k, -, hfits, hmisfit⟩ := compareLiteral_integer hl t r
  by_cases hkind : t.column.Admits l
  · rw [hfits hkind, (t.exists_compareParts_iff r k).1, (t.exists_compareParts_iff r k).2]
    simp [hkind]
  · obtain ⟨reason, hreason⟩ := hmisfit hkind
    rw [hreason]
    simp [hkind, mismatch, Fault.isMismatch]

/-- A target accepts a row where some part of it has an integer in the relation. -/
theorem compareLiteral_accepts_iff (hl : l.integer? = some n) {p : Predicate}
    (hp : t.compareLiteral r l = .ok p) (row : Row) :
    p.accepts row = true ↔
      ∃ part ∈ t.column.parts, ∃ y, (t.operand part).value? row = some (.int y) ∧ r.Between y n := by
  obtain ⟨k, hk, hfits, hmisfit⟩ := compareLiteral_integer hl t r
  by_cases hkind : t.column.Admits l
  · rw [hfits hkind] at hp
    exact compareParts_accepts_iff hk hp row
  · obtain ⟨reason, hreason⟩ := hmisfit hkind
    rw [hreason] at hp
    cases hp

end Target

/-! ### Comparisons -/

namespace Side

variable {r : Relation} {l : Literal} {n : Int}

/-- A left side compiles if the literal fits a column of it and every column that it fits has a part. -/
theorem exists_compare_integer_iff (hl : l.integer? = some n) (left : Side) (r : Relation) :
    (∃ p, left.compare r (.literal l) = .ok p) ↔
      (∃ c ∈ left.columns, c.Admits l) ∧ ∀ c ∈ left.columns, c.Admits l → c.parts ≠ [] := by
  rw [compare_eq_broadcast rfl, broadcast]
  rcases left.targets_cases with htargets | ⟨⟨fault, htargets⟩, hcolumns⟩
  · have hcompiles := fun c => Target.compareLiteral_compiles_iff hl (left.target c) r
    rw [htargets]
    simp only [exists_compileAll_iff, List.mem_map, exists_exists_and_eq_and, forall_exists_index, and_imp,
      forall_apply_eq_imp_iff₂, targetCompare, (hcompiles _).1, (hcompiles _).2]
    constructor
    · rintro ⟨⟨c, hc, hadmits, -⟩, hparts⟩
      exact ⟨⟨c, hc, hadmits⟩, hparts⟩
    · rintro ⟨⟨c, hc, hadmits⟩, hparts⟩
      exact ⟨⟨c, hc, hadmits, hparts c hc hadmits⟩, hparts⟩
  · rw [htargets, hcolumns]
    simp

/-- What a left side compiles to accepts a row where some part of a column that the literal fits is
read as an integer in the relation. -/
theorem compare_integer_accepts_iff (hl : l.integer? = some n) {left : Side} {p : Predicate}
    (hp : left.compare r (.literal l) = .ok p) (row : Row) :
    p.accepts row = true ↔
      ∃ c ∈ left.columns, c.Admits l ∧ ∃ part ∈ c.parts, ∃ x y : Int,
        (left.cell? row c part).bind Cell.integer? = some x ∧ left.applied? x = some y ∧
          r.Between y n := by
  rw [compare_eq_broadcast rfl, broadcast] at hp
  rcases left.targets_cases with htargets | ⟨⟨fault, htargets⟩, -⟩
  · rw [htargets] at hp
    rw [compileAll_accepts_iff hp row]
    simp only [List.mem_map, exists_exists_and_eq_and, targetCompare]
    refine exists_congr fun c => and_congr_right fun _ => ?_
    have hcompiles := (Target.compareLiteral_compiles_iff hl (left.target c) r).1
    constructor
    · rintro ⟨q, hq, haccepts⟩
      obtain ⟨hadmits, -⟩ := hcompiles.mp ⟨q, hq⟩
      obtain ⟨part, hpart, y, hvalue, hbetween⟩ :=
        (Target.compareLiteral_accepts_iff hl hq row).mp haccepts
      obtain ⟨x, hx, hy⟩ := (left.operand_integer_iff c).mp hvalue
      exact ⟨hadmits, part, hpart, x, y, hx, hy, hbetween⟩
    · rintro ⟨hadmits, part, hpart, x, y, hx, hy, hbetween⟩
      obtain ⟨q, hq⟩ := hcompiles.mpr ⟨hadmits, List.ne_nil_of_mem hpart⟩
      have hvalue := (left.operand_integer_iff c).mpr ⟨x, hx, hy⟩
      exact ⟨q, hq, (Target.compareLiteral_accepts_iff hl hq row).mpr ⟨part, hpart, y, hvalue, hbetween⟩⟩
  · rw [htargets] at hp
    cases hp

end Side

/-- **What a comparison with an integer means**, whatever stands on its left side. It compiles if the
literal fits a column of the left side and every column that it fits has a part. It then accepts a row
exactly if some part of such a column is read as an integer on which the bit operator is defined, and
the result stands in the relation to the literal's integer. -/
theorem integer_comparison_meaning (left : Side) (r : Relation) (l : Literal) (n : Int)
    (hl : l.integer? = some n) :
    ((∃ p, left.compare r (.literal l) = .ok p) ↔
        (∃ c ∈ left.columns, c.Admits l) ∧ ∀ c ∈ left.columns, c.Admits l → c.parts ≠ []) ∧
      ∀ p, left.compare r (.literal l) = .ok p → ∀ row : Row,
        (p.accepts row = true ↔
          ∃ c ∈ left.columns, c.Admits l ∧ ∃ part ∈ c.parts, ∃ x y : Int,
            (left.cell? row c part).bind Cell.integer? = some x ∧ left.applied? x = some y ∧
              r.Between y n) := by
  refine ⟨left.exists_compare_integer_iff hl r, ?_⟩
  intro p hp row
  exact Side.compare_integer_accepts_iff hl hp row

/-- The sums of a group under a shift: a text does not fit, an unsigned sum is read to its last bit, and
a sum that is a text hides the column below it. -/
theorem integer_comparison_meaning_shifted_sums :
    let host : Column := ⟨"%host", ["e1id2"], some .text, none, none⟩
    let bytes : Column := ⟨"%byt", ["e0id1", "e0id23"], some .number, none, none⟩
    let left : Side := .masked (.group ⟨"%all", [host, bytes], true⟩) .shr 60
    let shown : Row := ⟨[("e0id1", .int 7), ("sum(e0id23)", .uint 0xffffffffffffffff)]⟩
    let hidden : Row := ⟨[("sum(e0id1)", .text "15"), ("e0id1", .uint 0xffffffffffffffff)]⟩
    Literal.integer? (.number 15) = some 15 ∧
      ∃ p, left.compare .ge (.literal (.number 15)) = .ok p ∧ p.accepts shown = true ∧
        p.accepts hidden = false := by
  intro host bytes left shown hidden
  have hl : Literal.integer? (.number 15) = some 15 := rfl
  obtain ⟨hcompiles, hrows⟩ := integer_comparison_meaning left .ge (.number 15) 15 hl
  obtain ⟨p, hp⟩ := hcompiles.mpr ⟨⟨bytes, by decide, by decide⟩, by decide⟩
  refine ⟨hl, p, hp, ?_, ?_⟩
  · exact (hrows p hp shown).mpr ⟨bytes, by decide, by decide, "e0id23", by decide,
      0xffffffffffffffff, 15, by decide, by decide, by decide⟩
  · rw [← Bool.not_eq_true, hrows p hp hidden]
    rintro ⟨c, hc, hadmits, part, hpart, x, y, hx, -⟩
    have hcell : ∀ c ∈ left.columns, c.Admits (.number 15) → ∀ part ∈ c.parts,
        (left.cell? hidden c part).bind Cell.integer? = none := by decide
    rw [hcell c hc hadmits part hpart] at hx
    cases hx

end FlowSelect
