/-
# The order of addresses stored in two halves

An address in two columns is compared half by half: the upper halves decide unless they are equal,
and then the lower halves decide. Since the lower half is a number below 2^64, this is the order of
the 128-bit numbers that the halves make up, for each of the six relations
(`compareHalves_accepts_iff`). A row that stores both halves leaves no comparison unknown, so the
complement accepts the other rows (`ip6_comparison_is_numeric`).

Key theorems: `Ip6.toNat_eq_halves`, `compareHalves_accepts_iff`, `ip6_comparison_is_numeric`.
-/
import FlowSelect.Proofs.Compile.Leaves
import FlowSelect.Proofs.Net.Halves

namespace FlowSelect

theorem Ip6.toNat_eq_halves (a : Ip6) :
    a.toNat = (Ip6.high a).toNat * 2 ^ 64 + (Ip6.low a).toNat := by
  rw [Ip6.toNat_high, Ip6.toNat_low]
  omega

variable {row : Row} {high low : String} {h l : Nat}

/-- **Halves compare as the number they make up.** -/
theorem compareHalves_accepts_iff (hhigh : row.Stores high h) (hlow : row.Stores low l)
    (hl : l < 2 ^ 64) (r : Relation) (a : Ip6) :
    (compareHalves (.column high) (.column low) r a).accepts row = true ↔
      r.Between (h * 2 ^ 64 + l) a.toNat := by
  have hupper : ∀ r : Relation, (comparison (.column high) r (.uint (Ip6.high a))).accepts row = true ↔
      r.Between h (a.toNat / 2 ^ 64) := by
    intro r
    rw [Comparison.accepts_uint_iff hhigh, Ip6.toNat_high]
    rfl
  have hlower : ∀ r : Relation, (comparison (.column low) r (.uint (Ip6.low a))).accepts row = true ↔
      r.Between l (a.toNat % 2 ^ 64) := by
    intro r
    rw [Comparison.accepts_uint_iff hlow, Ip6.toNat_low]
    rfl
  cases r with
  | eq =>
    simp only [compareHalves, Predicate.accepts_and, hupper, hlower, Relation.Between]
    omega
  | ne =>
    simp only [compareHalves, Predicate.accepts_or, hupper, hlower, Relation.Between]
    omega
  | lt | le | gt | ge =>
    -- the upper halves decide, or they are equal and the lower halves decide
    simp only [compareHalves, strictOrder, Predicate.accepts_or, Predicate.accepts_and, hupper, hlower,
      Relation.Between]
    omega

theorem compareHalves_known (hhigh : row.Stores high h) (hlow : row.Stores low l) (r : Relation)
    (a : Ip6) : ∀ c ∈ (compareHalves (.column high) (.column low) r a).atoms, ¬c.Unknown row :=
  Target.compareHalves_all (fun r n => Comparison.not_unknown_of_stores hhigh r n)
    (fun r n => Comparison.not_unknown_of_stores hlow r n)

/-- The predicate of an address on a column with two halves. -/
theorem Side.compare_ip6 {c : Column} (hkind : c.kind = some .ip6) (hparts : c.parts = [high, low])
    (r : Relation) (a : Ip6) :
    (Side.column c).compare r (.literal (.ip6 a)) =
      .ok (compareHalves (.column high) (.column low) r a) := by
  simp [compare, broadcast, targets, compileAll, compileEach, targetCompare, Target.compareLiteral,
    Target.halves, Target.operand, hkind, hparts, Formula.disjoin?]

/-- **Comparing an IPv6 column is comparing 128-bit numbers.** Whatever the relation, the comparison
of a column of two halves with an address accepts a row that stores both halves exactly if the stored
address stands in the relation to the given one, both read as 128-bit numbers; the complement accepts
the row exactly if it does not. -/
theorem ip6_comparison_is_numeric (r : Relation) (a : Ip6) (c : Column) (high low : String)
    (hkind : c.kind = some .ip6) (hparts : c.parts = [high, low]) :
    ∃ p : Predicate, (Side.column c).compare r (.literal (.ip6 a)) = .ok p ∧
      ∀ (row : Row) (h l : Nat), h < 2 ^ 64 → l < 2 ^ 64 → row.Stores high h → row.Stores low l →
        (p.accepts row = true ↔
          r.Between (h * 2 ^ 64 + l) ((Ip6.high a).toNat * 2 ^ 64 + (Ip6.low a).toNat)) ∧
        (p.complement.accepts row = true ↔
          ¬r.Between (h * 2 ^ 64 + l) ((Ip6.high a).toNat * 2 ^ 64 + (Ip6.low a).toNat)) := by
  refine ⟨_, Side.compare_ip6 hkind hparts r a, ?_⟩
  intro row h l _ hl hhigh hlow
  have haccepts := compareHalves_accepts_iff hhigh hlow hl r a
  have hhalves : (a.toNat : Int) = (Ip6.high a).toNat * 2 ^ 64 + (Ip6.low a).toNat := by
    exact_mod_cast a.toNat_eq_halves
  rw [hhalves] at haccepts
  refine ⟨haccepts, ?_⟩
  rw [Predicate.complement_accepts_iff (compareHalves_known hhigh hlow r a), haccepts]

/-- Equal upper halves at the end of their range, with the lower half just below the given one. -/
theorem ip6_comparison_is_numeric_tie :
    let a : Ip6 := 0xffffffffffffffff8000000000000000
    let c : Column := ⟨"%sa6", ["e0id27p0", "e0id27p1"], some .ip6, none, none⟩
    let row : Row :=
      ⟨[("e0id27p0", .uint 0xffffffffffffffff), ("e0id27p1", .int 0x7fffffffffffffff)]⟩
    row.Stores "e0id27p0" 0xffffffffffffffff ∧ row.Stores "e0id27p1" 0x7fffffffffffffff ∧
      ∃ p : Predicate, (Side.column c).compare .ge (.literal (.ip6 a)) = .ok p ∧
        ¬p.accepts row = true ∧ p.complement.accepts row = true := by
  intro a c row
  have hhigh : row.Stores "e0id27p0" 0xffffffffffffffff := by decide
  have hlow : row.Stores "e0id27p1" 0x7fffffffffffffff := by decide
  obtain ⟨p, hp, hrows⟩ := ip6_comparison_is_numeric .ge a c "e0id27p0" "e0id27p1" rfl rfl
  obtain ⟨hyes, hno⟩ := hrows row 0xffffffffffffffff 0x7fffffffffffffff (by decide) (by decide) hhigh hlow
  have hless : ¬Relation.Between .ge (0xffffffffffffffff * 2 ^ 64 + 0x7fffffffffffffff)
      ((Ip6.high a).toNat * 2 ^ 64 + (Ip6.low a).toNat) := by decide
  exact ⟨hhigh, hlow, p, hp, fun haccepted => hless (hyes.mp haccepted), hno.mpr hless⟩

end FlowSelect
