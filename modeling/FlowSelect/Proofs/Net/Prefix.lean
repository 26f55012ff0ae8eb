/-
# Prefixes of addresses

Two addresses lie in one subnet if they agree on its leading bits. The addresses that agree with a
given one form a range, from the address with all other bits clear to the one with all other bits
set (`Subnet.samePrefix_iff`), whatever the width of the addresses and the number of leading bits.
Where a subnet was read from a text, address and width stand on the two sides of a slash.

Key definition: `SamePrefix`.
Key theorems: `samePrefix_iff_div`, `Subnet.toNat_low`, `Subnet.toNat_high`,
`Subnet.samePrefix_iff`, `Subnet.splitMask_eq_ok`.
-/
import Mathlib
import FlowSelect.Net.Subnet

namespace FlowSelect

/-- Two words of `w` bits agree on their first `m` bits. -/
def SamePrefix (w m x y : Nat) : Prop := ∀ i < m, x.testBit (w - 1 - i) = y.testBit (w - 1 - i)

instance decidableSamePrefix (w m x y : Nat) : Decidable (SamePrefix w m x y) :=
  inferInstanceAs (Decidable (∀ i < m, x.testBit (w - 1 - i) = y.testBit (w - 1 - i)))

/-- The first bits of a word are what is left of it when the others are shifted out. -/
theorem samePrefix_iff_div {w m x y : Nat} (hm : m ≤ w) (hx : x < 2 ^ w) (hy : y < 2 ^ w) :
    SamePrefix w m x y ↔ x / 2 ^ (w - m) = y / 2 ^ (w - m) := by
  constructor
  · intro h
    refine Nat.eq_of_testBit_eq fun j => ?_
    rw [Nat.testBit_div_two_pow, Nat.testBit_div_two_pow]
    by_cases hj : j < m
    · have hbit := h (m - 1 - j) (by omega)
      rwa [show w - 1 - (m - 1 - j) = j + (w - m) by omega] at hbit
    · -- beyond the width both words have no bits
      have hw : 2 ^ w ≤ 2 ^ (j + (w - m)) := Nat.pow_le_pow_right (by decide) (by omega)
      rw [Nat.testBit_lt_two_pow (hx.trans_le hw), Nat.testBit_lt_two_pow (hy.trans_le hw)]
  · intro h i hi
    have hbit := congrArg (fun n => n.testBit (m - 1 - i)) h
    simp only [Nat.testBit_div_two_pow] at hbit
    rwa [show m - 1 - i + (w - m) = w - 1 - i by omega] at hbit

theorem div_eq_iff_range {x y k : Nat} (hk : 0 < k) :
    x / k = y / k ↔ y / k * k ≤ x ∧ x ≤ y / k * k + (k - 1) := by
  rw [Nat.div_eq_iff hk]
  omega

namespace Subnet

variable {w : Nat}

theorem toNat_clearLast (k : Nat) (a : BitVec w) : (clearLast k a).toNat = a.toNat / 2 ^ k * 2 ^ k := by
  have hle : a.toNat / 2 ^ k * 2 ^ k ≤ a.toNat := Nat.div_mul_le_self _ _
  unfold clearLast
  rw [BitVec.toNat_shiftLeft, BitVec.toNat_ushiftRight, Nat.shiftLeft_eq, Nat.shiftRight_eq_div_pow,
    Nat.mod_eq_of_lt (hle.trans_lt a.isLt)]

theorem toNat_low (s : Subnet w) :
    s.low.toNat = s.address.toNat / 2 ^ (w - s.bits) * 2 ^ (w - s.bits) :=
  toNat_clearLast _ _

/-- The complement of what is left of the complement has the last bits set. -/
theorem toNat_high (s : Subnet w) : s.high.toNat = s.low.toNat + (2 ^ (w - s.bits) - 1) := by
  have hlt := s.address.isLt
  have hpow : 2 ^ w = 2 ^ s.bits * 2 ^ (w - s.bits) := by
    rw [← pow_add, Nat.add_sub_cancel' s.bits_le]
  have hpos : 0 < 2 ^ (w - s.bits) := Nat.two_pow_pos _
  rw [high, BitVec.toNat_not, toNat_clearLast, BitVec.toNat_not, toNat_low]
  generalize 2 ^ (w - s.bits) = k at hpow hpos ⊢
  generalize 2 ^ s.bits = n at hpow
  rw [hpow] at hlt ⊢
  -- with the address as `q * k + r`, its complement is `(n - 1 - q) * k + (k - 1 - r)`
  set q := s.address.toNat / k with hq
  set r := s.address.toNat % k with hr
  have haddress : s.address.toNat = q * k + r := (Nat.div_add_mod' _ _).symm
  have hrk : r < k := Nat.mod_lt _ hpos
  have hqn : q < n := by
    rw [hq, Nat.div_lt_iff_lt_mul hpos]
    exact hlt
  obtain ⟨d, rfl⟩ : ∃ d, n = q + 1 + d := ⟨n - (q + 1), by omega⟩
  have hnot : (q + 1 + d) * k - 1 - s.address.toNat = d * k + (k - 1 - r) := by
    rw [haddress, add_mul, add_mul, one_mul]
    omega
  have hdiv : ((q + 1 + d) * k - 1 - s.address.toNat) / k = d := by
    rw [hnot, Nat.div_eq_iff hpos]
    omega
  rw [hdiv, add_mul, add_mul, one_mul]
  omega

/-- **The addresses that agree with a subnet's address on its leading bits are its range.** -/
theorem samePrefix_iff (s : Subnet w) {n : Nat} (hn : n < 2 ^ w) :
    SamePrefix w s.bits n s.address.toNat ↔ s.low.toNat ≤ n ∧ n ≤ s.high.toNat := by
  rw [samePrefix_iff_div s.bits_le hn s.address.isLt, div_eq_iff_range (Nat.two_pow_pos _),
    toNat_high, toNat_low]

end Subnet

/-! ### Subnets as written -/

theorem Text.eq_append_of_cutAt? {separator : Char} : ∀ {cs left right : List Char},
    cutAt? separator cs = some (left, right) → cs = left ++ separator :: right
  | [], left, right, h => by cases h
  | c :: cs, left, right, h => by
    rw [cutAt?] at h
    by_cases hc : c = separator
    · obtain ⟨rfl, rfl⟩ : [] = left ∧ cs = right := by simpa [hc] using h
      rw [hc, List.nil_append]
    · rw [if_neg hc] at h
      obtain ⟨⟨before, after⟩, hcut, hx⟩ := Option.map_eq_some_iff.mp h
      obtain ⟨rfl, rfl⟩ : c :: before = left ∧ after = right := by simpa using hx
      rw [eq_append_of_cutAt? hcut, List.cons_append]

namespace Subnet

/-- A mask is split off at the first slash, and its width is judged there. -/
theorem splitMask_eq_ok {most : Nat} {cs address : List Char} {n : { n : Nat // n ≤ most }}
    (h : splitMask most cs = .ok (address, n)) :
    ∃ bits, Text.cutAt? '/' cs = some (address, bits) ∧ width? most bits = some n.val := by
  unfold splitMask at h
  cases hcut : Text.cutAt? '/' cs with
  | none => simp [hcut] at h
  | some parts =>
    obtain ⟨before, bits⟩ := parts
    rw [hcut] at h
    cases hwidth : width? most bits with
    | none => simp [hwidth] at h
    | some k =>
      simp only [hwidth] at h
      split at h
      · cases h
        exact ⟨bits, rfl, hwidth⟩
      · cases h

/-- What was read of a subnet was cut at the first slash of its text. -/
theorem cutAt?_of_parseIp4 {text : String} {s : Subnet 32} (hs : parseIp4 text = .ok s) :
    ∃ address bits, Text.cutAt? '/' text.toList = some (address, bits) ∧
      Ip4.read address = .ok s.address ∧ width? 32 bits = some s.bits := by
  unfold parseIp4 at hs
  cases hsplit : splitMask 32 text.toList with
  | error reason => simp [hsplit] at hs
  | ok x =>
    obtain ⟨address, n, hn⟩ := x
    rw [hsplit] at hs
    cases hread : Ip4.read address with
    | error reason => simp [Ip4.parseAs, hread] at hs
    | ok a =>
      obtain rfl : (⟨a, n, hn⟩ : Subnet 32) = s := by simpa [Ip4.parseAs, hread] using hs
      obtain ⟨bits, hcut, hwidth⟩ := splitMask_eq_ok hsplit
      exact ⟨address, bits, hcut, hread, hwidth⟩

theorem cutAt?_of_parseIp6 {text : String} {s : Subnet 128} (hs : parseIp6 text = .ok s) :
    ∃ address bits, Text.cutAt? '/' text.toList = some (address, bits) ∧
      Ip6.read? address = some s.address ∧ width? 128 bits = some s.bits := by
  unfold parseIp6 at hs
  cases hsplit : splitMask 128 text.toList with
  | error reason => simp [hsplit] at hs
  | ok x =>
    obtain ⟨address, n, hn⟩ := x
    rw [hsplit] at hs
    cases hread : Ip6.read? address with
    | none => simp [hread] at hs
    | some a =>
      obtain rfl : (⟨a, n, hn⟩ : Subnet 128) = s := by simpa [hread] using hs
      obtain ⟨bits, hcut, hwidth⟩ := splitMask_eq_ok hsplit
      exact ⟨address, bits, hcut, hread, hwidth⟩

/-- What was read of a subnet stands on the two sides of a slash. -/
theorem parseIp4_eq_ok {text : String} {s : Subnet 32} (hs : parseIp4 text = .ok s) :
    ∃ address bits, text.toList = address ++ '/' :: bits ∧ Ip4.read address = .ok s.address ∧
      width? 32 bits = some s.bits := by
  obtain ⟨address, bits, hcut, hread⟩ := cutAt?_of_parseIp4 hs
  exact ⟨address, bits, Text.eq_append_of_cutAt? hcut, hread⟩

theorem parseIp6_eq_ok {text : String} {s : Subnet 128} (hs : parseIp6 text = .ok s) :
    ∃ address bits, text.toList = address ++ '/' :: bits ∧ Ip6.read? address = some s.address ∧
      width? 128 bits = some s.bits := by
  obtain ⟨address, bits, hcut, hread⟩ := cutAt?_of_parseIp6 hs
  exact ⟨address, bits, Text.eq_append_of_cutAt? hcut, hread⟩

end Subnet

end FlowSelect
