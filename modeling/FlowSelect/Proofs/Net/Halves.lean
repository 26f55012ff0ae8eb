/-
# Addresses stored in two halves

An IPv6 address is stored in two columns of 64 bits. A subnet becomes a range for each half, and the
range of the lower half is left out where it covers all values. The two ranges together say that the
address lies in the range of the subnet: either the subnet's bounds share their upper half, or the
lower half is free (`Subnet.halves_cases`). So membership is agreement on the leading bits, on both
sides of the seam between the halves (`ip6_membership_is_prefix`).

Key theorems: `Subnet.halves_cases`, `halvesInSubnet_accepts_iff`, `ip6_membership_is_prefix`.
-/
import FlowSelect.Proofs.Compile.Integers
import FlowSelect.Proofs.Net.Prefix

namespace FlowSelect

/-! ### Stored integers -/

namespace Comparison

variable {row : Row} {name : String} {n : Int}

/-- Where a row stores an integer, a comparison with a number says what the relation says. -/
theorem accepts_uint_iff (h : row.Stores name n) (r : Relation) (k : UInt64) :
    (comparison (.column name) r (.uint k)).accepts row = true ↔ r.Between n k.toNat := by
  rw [comparison_integer_iff rfl]
  simp [Operand.value?_eq_int_iff.mpr h]

theorem not_unknown_of_stores (h : row.Stores name n) (r : Relation) (k : UInt64) :
    ¬Unknown row ⟨.column name, r, .uint k⟩ := by
  rintro (hundefined | ⟨value, hvalue, hbad⟩)
  · rw [← Operand.value?_eq_none_iff, Operand.value?_eq_int_iff.mpr h] at hundefined
    cases hundefined
  · obtain rfl : .int n = value := by simpa [Operand.value?_eq_int_iff.mpr h] using hvalue
    rcases hbad with hdiffers | ⟨htext, -⟩
    · exact hdiffers
    · cases htext

end Comparison

/-- Where no comparison is unknown, the complement accepts the rows that are not accepted. -/
theorem Predicate.complement_accepts_iff {row : Row} {p : Predicate}
    (h : ∀ c ∈ p.atoms, ¬c.Unknown row) : p.complement.accepts row = true ↔ ¬p.accepts row = true := by
  have hknown := truth_ne_unknown row p h
  rw [complement_accepts_iff_truth, accepts_iff_truth]
  cases ht : p.truth row <;> simp_all

theorem inRange_accepts_iff {row : Row} {name : String} {n : Nat} (h : row.Stores name n)
    (low high : UInt64) :
    (inRange (.column name) (.uint low) (.uint high)).accepts row = true ↔
      low.toNat ≤ n ∧ n ≤ high.toNat := by
  rw [inRange, Predicate.accepts_and, Comparison.accepts_uint_iff h, Comparison.accepts_uint_iff h]
  simp only [Relation.Between, Int.ofNat_le]

theorem inRange_known {row : Row} {name : String} {n : Int} (h : row.Stores name n)
    (low high : UInt64) :
    ∀ c ∈ (inRange (.column name) (.uint low) (.uint high)).atoms, ¬c.Unknown row := by
  intro c hc
  rcases List.mem_cons.mp hc with rfl | hc
  · exact Comparison.not_unknown_of_stores h .ge low
  · rw [List.mem_singleton.mp hc]
    exact Comparison.not_unknown_of_stores h .le high

/-! ### Halves -/

theorem Ip6.toNat_high (a : Ip6) : (Ip6.high a).toNat = a.toNat / 2 ^ 64 := by
  have hlt := a.isLt
  have hhigh : (Ip6.high a).toNat = (a.extractLsb' 64 64).toNat := rfl
  rw [hhigh, BitVec.extractLsb'_toNat, Nat.shiftRight_eq_div_pow]
  omega

theorem Ip6.toNat_low (a : Ip6) : (Ip6.low a).toNat = a.toNat % 2 ^ 64 := by
  have hlow : (Ip6.low a).toNat = (a.extractLsb' 0 64).toNat := rfl
  rw [hlow, BitVec.extractLsb'_toNat, Nat.shiftRight_zero]

/-- Either the lower half is free in a subnet, or its bounds share their upper half. -/
theorem Subnet.halves_cases (s : Subnet 128) :
    s.low.toNat % 2 ^ 64 = 0 ∧ s.high.toNat % 2 ^ 64 = 2 ^ 64 - 1 ∨
      s.low.toNat / 2 ^ 64 = s.high.toNat / 2 ^ 64 := by
  rw [s.toNat_high, s.toNat_low]
  generalize s.address.toNat / 2 ^ (128 - s.bits) = q
  rcases Nat.lt_or_ge (128 - s.bits) 64 with hk | hk
  · -- the seam lies among the leading bits
    obtain ⟨d, hd⟩ := Nat.exists_eq_add_of_lt hk
    have hpow : 2 ^ 64 = 2 ^ (128 - s.bits) * 2 ^ (d + 1) := by
      rw [← pow_add]
      congr 1
    have hpos : 0 < 2 ^ (128 - s.bits) := Nat.two_pow_pos _
    have hlast : (q * 2 ^ (128 - s.bits) + (2 ^ (128 - s.bits) - 1)) / 2 ^ (128 - s.bits) = q := by
      rw [Nat.div_eq_iff hpos]
      omega
    right
    rw [hpow, ← Nat.div_div_eq_div_mul, ← Nat.div_div_eq_div_mul, Nat.mul_div_cancel _ hpos, hlast]
  · -- all bits of the lower half are free
    obtain ⟨d, hd⟩ := Nat.exists_eq_add_of_le hk
    have hpow : 2 ^ (128 - s.bits) = 2 ^ 64 * 2 ^ d := by rw [hd, pow_add]
    have hpos : 0 < 2 ^ d := Nat.two_pow_pos _
    left
    rw [hpow]
    constructor
    · rw [Nat.mul_left_comm]
      exact Nat.mul_mod_right _ _
    · rw [Nat.mul_left_comm, Nat.mul_add_mod]
      omega

variable {row : Row} {high low : String} {h l : Nat}

/-- **The ranges of the two halves are the range of the subnet.** -/
theorem halvesInSubnet_accepts_iff (hhigh : row.Stores high h) (hlow : row.Stores low l)
    (hl : l < 2 ^ 64) (s : Subnet 128) :
    (halvesInSubnet (.column high) (.column low) s).accepts row = true ↔
      s.low.toNat ≤ h * 2 ^ 64 + l ∧ h * 2 ^ 64 + l ≤ s.high.toNat := by
  have hupper := inRange_accepts_iff hhigh (Ip6.high s.low) (Ip6.high s.high)
  have hlower := inRange_accepts_iff hlow (Ip6.low s.low) (Ip6.low s.high)
  rw [Ip6.toNat_high, Ip6.toNat_high] at hupper
  rw [Ip6.toNat_low, Ip6.toNat_low] at hlower
  have hfree : Ip6.low s.low = 0 ∧ Ip6.low s.high = 0xffffffffffffffff ↔
      s.low.toNat % 2 ^ 64 = 0 ∧ s.high.toNat % 2 ^ 64 = 2 ^ 64 - 1 := by
    rw [← UInt64.toNat_inj, ← UInt64.toNat_inj, Ip6.toNat_low, Ip6.toNat_low]
    rfl
  unfold halvesInSubnet
  simp only [hfree]
  split
  · rw [hupper]
    omega
  · next hbound =>
    have hshared := s.halves_cases.resolve_left hbound
    rw [Predicate.accepts_and, hupper, hlower]
    omega

theorem halvesInSubnet_known (hhigh : row.Stores high h) (hlow : row.Stores low l) (s : Subnet 128) :
    ∀ c ∈ (halvesInSubnet (.column high) (.column low) s).atoms, ¬c.Unknown row := by
  intro c hc
  unfold halvesInSubnet at hc
  simp only at hc
  split at hc
  · exact inRange_known hhigh _ _ c hc
  · rcases List.mem_append.mp hc with hc | hc
    · exact inRange_known hhigh _ _ c hc
    · exact inRange_known hlow _ _ c hc

/-! ### Subnets of a column -/

/-- The predicate of a subnet on a column with two halves. -/
theorem Side.within_ip6 {c : Column} (hkind : c.kind = some .ip6) (hparts : c.parts = [high, low])
    (s : Subnet 128) :
    (Side.column c).within (.network (.ip6 s)) =
      .ok (halvesInSubnet (.column high) (.column low) s) := by
  simp [within, broadcast, targets, compileAll, compileEach, targetWithin, Target.inNetwork,
    Target.halves, Target.operand, hkind, hparts, Formula.disjoin?]

/-- **Membership in an IPv6 subnet is agreement on its leading bits.** Testing a column of two halves
for a subnet, with or without `==`, accepts a row that stores both halves exactly if the stored
address agrees with the subnet's address on as many leading bits as the subnet counts; testing it
with `!=` accepts the row exactly if it does not. -/
theorem ip6_membership_is_prefix (text : String) (s : Subnet 128)
    (hs : Subnet.parseIp6 text = .ok s) (c : Column) (high low : String)
    (hkind : c.kind = some .ip6) (hparts : c.parts = [high, low]) :
    (∃ address bits, text.toList = address ++ '/' :: bits ∧ Ip6.read? address = some s.address ∧
        Subnet.width? 128 bits = some s.bits) ∧
      ∃ p q : Predicate,
        (Side.column c).within (.network (.ip6 s)) = .ok p ∧
        (Side.column c).compare .eq (.network (.ip6 s)) = .ok p ∧
        (Side.column c).compare .ne (.network (.ip6 s)) = .ok q ∧
        ∀ (row : Row) (h l : Nat), h < 2 ^ 64 → l < 2 ^ 64 → row.Stores high h → row.Stores low l →
          (p.accepts row = true ↔ SamePrefix 128 s.bits (h * 2 ^ 64 + l) s.address.toNat) ∧
          (q.accepts row = true ↔ ¬SamePrefix 128 s.bits (h * 2 ^ 64 + l) s.address.toNat) := by
  have hwithin := Side.within_ip6 hkind hparts s
  have hne : (Side.column c).compare .ne (.network (.ip6 s)) =
      .ok (halvesInSubnet (.column high) (.column low) s).complement := by
    simp [Side.compare, hwithin, Except.map]
  refine ⟨Subnet.parseIp6_eq_ok hs, _, _, hwithin, hwithin, hne, ?_⟩
  intro row h l hh hl hhigh hlow
  have hlt : h * 2 ^ 64 + l < 2 ^ 128 := by omega
  have haccepts := halvesInSubnet_accepts_iff hhigh hlow hl s
  rw [← s.samePrefix_iff hlt] at haccepts
  refine ⟨haccepts, ?_⟩
  rw [Predicate.complement_accepts_iff (halvesInSubnet_known hhigh hlow s), haccepts]

/-- One bit beyond the seam, with the upper half stored signed and the lower half unsigned. -/
theorem ip6_membership_is_prefix_beyond_seam :
    let text := "2001:db8::8000:0:0:1/65"
    let s : Subnet 128 := ⟨0x20010db8000000008000000000000001, 65, by decide⟩
    let c : Column := ⟨"%sa6", ["e0id27p0", "e0id27p1"], some .ip6, none, none⟩
    let row : Row :=
      ⟨[("e0id27p0", .int 0x20010db800000000), ("e0id27p1", .uint 0x7fffffffffffffff)]⟩
    Subnet.parseIp6 text = .ok s ∧ row.Stores "e0id27p0" 0x20010db800000000 ∧
      row.Stores "e0id27p1" 0x7fffffffffffffff ∧
      ∃ p q : Predicate, (Side.column c).compare .eq (.network (.ip6 s)) = .ok p ∧
        (Side.column c).compare .ne (.network (.ip6 s)) = .ok q ∧
        ¬p.accepts row = true ∧ q.accepts row = true := by
  intro text s c row
  have hs : Subnet.parseIp6 text = .ok s := by decide
  have hhigh : row.Stores "e0id27p0" 0x20010db800000000 := by decide
  have hlow : row.Stores "e0id27p1" 0x7fffffffffffffff := by decide
  obtain ⟨-, p, q, -, heq, hne, hrows⟩ :=
    ip6_membership_is_prefix text s hs c "e0id27p0" "e0id27p1" rfl rfl
  obtain ⟨hp, hq⟩ := hrows row 0x20010db800000000 0x7fffffffffffffff (by decide) (by decide) hhigh hlow
  have hdiffer : ¬SamePrefix 128 s.bits (0x20010db800000000 * 2 ^ 64 + 0x7fffffffffffffff)
      s.address.toNat := by decide
  exact ⟨hs, hhigh, hlow, p, q, heq, hne, fun haccepted => hdiffer (hp.mp haccepted), hq.mpr hdiffer⟩

end FlowSelect
