/-
# Membership in IPv4 subnets

An IPv4 address is stored as one integer. A subnet becomes a range of integers, from its first address
to its last, and the integers of the range are the addresses of 32 bits that agree with the subnet's
address on the leading bits (`Subnet.contains_iff`): negative integers and integers of more than 32
bits lie outside, whichever bits they share with the address. So testing a column for a subnet is
testing a prefix (`ip4_membership_is_prefix`).

Key definition: `Subnet.Contains`.
Key theorems: `Subnet.contains_iff`, `Subnet.range_bounds`, `ip4_membership_is_prefix`.
-/
import FlowSelect.Proofs.Compile.Integers
import FlowSelect.Proofs.Net.Prefix

namespace FlowSelect

/-! ### The range of a subnet -/

namespace Subnet

variable {w : Nat} (s : Subnet w)

/-- An integer is an address that agrees with the subnet's address on its leading bits. -/
def Contains (x : Int) : Prop :=
  ∃ n : Nat, x = n ∧ n < 2 ^ w ∧ SamePrefix w s.bits n s.address.toNat

/-- The integers in a subnet lie between its first and its last address. -/
theorem contains_iff (x : Int) : s.Contains x ↔ (s.low.toNat : Int) ≤ x ∧ x ≤ s.high.toNat := by
  constructor
  · rintro ⟨n, rfl, hn, hprefix⟩
    have hrange := (s.samePrefix_iff hn).mp hprefix
    omega
  · rintro ⟨hlow, hhigh⟩
    have hlt := s.high.isLt
    have hn : x.toNat < 2 ^ w := by omega
    refine ⟨x.toNat, by omega, hn, (s.samePrefix_iff hn).mpr ?_⟩
    omega

/-- The address of a subnet lies in its range, which has as many addresses as the other bits have
values. -/
theorem range_bounds : s.low.toNat ≤ s.address.toNat ∧ s.address.toNat ≤ s.high.toNat ∧
    s.high.toNat - s.low.toNat = 2 ^ (w - s.bits) - 1 := by
  have haddress := (s.samePrefix_iff s.address.isLt).mp fun _ _ => rfl
  have hhigh := s.toNat_high
  omega

end Subnet

/-! ### Columns -/

/-- An address of 32 bits is not changed by storing it in 64. -/
theorem Ip4.constant_integer? (a : Ip4) : a.constant.integer? = some (a.toNat : Int) := by
  have hlt := a.isLt
  have hint : (Int64.ofNat a.toNat).toInt = a.toNat := Int64.toInt_ofNat_of_lt (by omega)
  rw [Ip4.constant, Constant.integer?, hint]

/-- The predicate of a subnet on a column with one part. -/
theorem Side.within_ip4 {c : Column} {part : String} (hkind : c.kind = some .ip4 ∨ c.kind = none)
    (hparts : c.parts = [part]) (s : Subnet 32) :
    (Side.column c).within (.network (.ip4 s)) =
      .ok (inRange (.column part) (Ip4.constant s.low) (Ip4.constant s.high)) := by
  have hfits : Target.accepts { column := c, aggregate := false, mask := none } [.ip4] = true := by
    rcases hkind with hkind | hkind <;> simp [Target.accepts, hkind]
  simp [within, broadcast, targets, compileAll, compileEach, targetWithin, Target.inNetwork, hfits,
    Target.eachPart?, Target.operand, hparts, Formula.disjoin?]

/-- **Membership in an IPv4 subnet is agreement on its leading bits.** Testing a column of one part,
with or without `==`, accepts a row exactly if the column holds an integer that is an address of 32
bits and agrees with the subnet's address on as many leading bits as the subnet counts; testing it
with `!=` accepts a row exactly if the column holds any other integer. The bounds of the test lie
around the address, and between them lie all values of the other bits. -/
theorem ip4_membership_is_prefix (text : String) (s : Subnet 32)
    (hs : Subnet.parseIp4 text = .ok s) (c : Column) (part : String)
    (hkind : c.kind = some .ip4 ∨ c.kind = none) (hparts : c.parts = [part]) :
    (∃ address bits, text.toList = address ++ '/' :: bits ∧ Ip4.read address = .ok s.address ∧
        Subnet.width? 32 bits = some s.bits) ∧
      (s.low.toNat ≤ s.address.toNat ∧ s.address.toNat ≤ s.high.toNat ∧
        s.high.toNat - s.low.toNat = 2 ^ (32 - s.bits) - 1) ∧
      ∃ p q : Predicate,
        (Side.column c).within (.network (.ip4 s)) = .ok p ∧
        (Side.column c).compare .eq (.network (.ip4 s)) = .ok p ∧
        (Side.column c).compare .ne (.network (.ip4 s)) = .ok q ∧
        ∀ row : Row,
          (p.accepts row = true ↔ ∃ x, row.Stores part x ∧ s.Contains x) ∧
          (q.accepts row = true ↔ ∃ x, row.Stores part x ∧ ¬s.Contains x) := by
  have hwithin := Side.within_ip4 hkind hparts s
  have hne : (Side.column c).compare .ne (.network (.ip4 s)) =
      .ok (inRange (.column part) (Ip4.constant s.low) (Ip4.constant s.high)).complement := by
    simp [Side.compare, hwithin, Except.map]
  refine ⟨Subnet.parseIp4_eq_ok hs, s.range_bounds, _, _, hwithin, hwithin, hne, fun row => ?_⟩
  have hlow := Ip4.constant_integer? s.low
  have hhigh := Ip4.constant_integer? s.high
  simp only [inRange_integer_iff hlow hhigh, inRange_complement_integer_iff hlow hhigh,
    Operand.value?_eq_int_iff, s.contains_iff, and_self]

/-- A width that is no multiple of eight, on a raw column: the first address of the range is accepted,
and a number with 33 bits whose last 32 are that address is not. -/
theorem ip4_membership_is_prefix_odd_width :
    let text := "192.168.1.77/+026"
    let s : Subnet 32 := ⟨0xc0a8014d, 26, by decide⟩
    let inside : Row := ⟨[("e0id8", .int 0xc0a80140)]⟩
    let outside : Row := ⟨[("e0id8", .uint 0x1c0a80140)]⟩
    Subnet.parseIp4 text = .ok s ∧
      ∃ p q : Predicate, (Side.column (Column.raw "e0id8")).compare .eq (.network (.ip4 s)) = .ok p ∧
        (Side.column (Column.raw "e0id8")).compare .ne (.network (.ip4 s)) = .ok q ∧
        p.accepts inside = true ∧ q.accepts outside = true := by
  intro text s inside outside
  have hs : Subnet.parseIp4 text = .ok s := by decide
  obtain ⟨-, -, p, q, -, heq, hne, hrows⟩ :=
    ip4_membership_is_prefix text s hs (Column.raw "e0id8") "e0id8" (.inr rfl) rfl
  have hinside : s.Contains 0xc0a80140 := by
    rw [s.contains_iff]
    decide
  have houtside : ¬s.Contains 0x1c0a80140 := by
    rw [s.contains_iff]
    decide
  exact ⟨hs, p, q, heq, hne, (hrows inside).1.mpr ⟨_, by decide, hinside⟩,
    (hrows outside).2.mpr ⟨_, by decide, houtside⟩⟩

end FlowSelect
