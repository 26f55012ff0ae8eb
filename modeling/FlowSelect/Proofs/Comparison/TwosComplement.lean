/-
# Bit operators on integers

A bit operator works on words of 128 bits. Seen from the integers it works on their two's complement,
which goes on forever to the left: a word and the integer it stands for have the same bits, and beyond
the word every bit is the sign (`Bits.testBit_toInt`). So `and`, `or` and `xor` of two words stand for
the same operators of the integers, without a bound. A shift to the right is a division that rounds
down. Only a shift to the left can leave the word, and what leaves it is lost.

Key definition: `BitOperator.onIntegers?`.
Key theorems: `Bits.testBit_toInt`, `Bits.eq_of_testBit_eq`, `BitOperator.result?_eq_onIntegers?`.
-/
import Mathlib
import FlowSelect.Comparison.Relation

namespace FlowSelect

/-! ### Words and integers -/

namespace Bits

variable {w : Nat}

/-- A negative word stands for the integer below zero by the complement of the word. -/
theorem toInt_of_msb {v : BitVec w} (h : v.msb = true) : v.toInt = Int.negSucc (~~~v).toNat := by
  have hlt := v.isLt
  have hnot : (~~~v).toNat = 2 ^ w - 1 - v.toNat := BitVec.toNat_not
  have hsucc : Int.negSucc (~~~v).toNat = -((~~~v).toNat + 1 : Int) := rfl
  rw [BitVec.toInt_eq_msb_cond, if_pos h, hsucc, hnot]
  push_cast [Nat.sub_sub, Nat.cast_sub (show 1 + v.toNat ≤ 2 ^ w by omega)]
  ring

/-- **An integer has the bits of its word, and beyond the word those of its sign.** -/
theorem testBit_toInt (v : BitVec w) (i : Nat) :
    v.toInt.testBit i = if i < w then v.getLsbD i else v.msb := by
  cases hsign : v.msb with
  | false =>
    have hint : v.toInt = v.toNat := by simp [BitVec.toInt_eq_msb_cond, hsign]
    rw [hint]
    show v.toNat.testBit i = _
    rw [BitVec.testBit_toNat]
    split
    · rfl
    · next hi => exact BitVec.getLsbD_of_ge v i (by omega)
  | true =>
    rw [toInt_of_msb hsign]
    show (!(~~~v).toNat.testBit i) = _
    rw [BitVec.testBit_toNat, BitVec.getLsbD_not]
    by_cases hi : i < w <;> simp [hi]

/-- Integers with the same bits are equal: in the end the bits of one show its sign. -/
theorem eq_of_testBit_eq {x y : Int} (h : ∀ i, x.testBit i = y.testBit i) : x = y := by
  -- no bit of a natural number is set as far to the left as the number is large
  have hfar : ∀ m n : Nat, m.testBit (m + n) = false := by
    intro m n
    refine Nat.testBit_lt_two_pow ?_
    calc m ≤ m + n := Nat.le_add_right m n
      _ < 2 ^ (m + n) := Nat.lt_two_pow_self
  have hsigns : ∀ m n : Nat, ¬∀ i, m.testBit i = !n.testBit i := by
    intro m n hbits
    have hone := hbits (m + n)
    rw [hfar m n, Nat.add_comm, hfar n m] at hone
    cases hone
  cases x with
  | ofNat m =>
    cases y with
    | ofNat n => exact congrArg Int.ofNat (Nat.eq_of_testBit_eq h)
    | negSucc n => exact absurd h (hsigns m n)
  | negSucc m =>
    cases y with
    | ofNat n => exact absurd (fun i => (h i).symm) (hsigns n m)
    | negSucc n =>
      refine congrArg Int.negSucc (Nat.eq_of_testBit_eq fun i => ?_)
      exact Bool.not_inj (h i)

theorem toInt_and (x y : BitVec w) : (x &&& y).toInt = x.toInt.land y.toInt := by
  refine eq_of_testBit_eq fun i => ?_
  rw [Int.testBit_land, testBit_toInt, testBit_toInt, testBit_toInt]
  by_cases hi : i < w <;> simp [hi, BitVec.msb_and]

theorem toInt_or (x y : BitVec w) : (x ||| y).toInt = x.toInt.lor y.toInt := by
  refine eq_of_testBit_eq fun i => ?_
  rw [Int.testBit_lor, testBit_toInt, testBit_toInt, testBit_toInt]
  by_cases hi : i < w <;> simp [hi, BitVec.msb_or]

theorem toInt_xor (x y : BitVec w) : (x ^^^ y).toInt = x.toInt.xor y.toInt := by
  refine eq_of_testBit_eq fun i => ?_
  rw [Int.testBit_lxor, testBit_toInt, testBit_toInt, testBit_toInt]
  by_cases hi : i < w <;> simp [hi, BitVec.msb_xor]

theorem toInt_shiftLeft_ofInt (x : Int) (n : Nat) :
    (BitVec.ofInt w x <<< n).toInt = (x * 2 ^ n).bmod (2 ^ w) := by
  have hpower : BitVec.twoPow w n = BitVec.ofInt w (2 ^ n) := by
    apply BitVec.eq_of_toNat_eq
    rw [BitVec.toNat_twoPow, BitVec.toNat_ofInt]
    norm_cast
  rw [BitVec.shiftLeft_eq_mul_twoPow, hpower, ← BitVec.ofInt_mul, BitVec.toInt_ofInt]

end Bits

/-! ### Operators -/

namespace BitOperator

/-- The operator on integers. A shift is defined for 0 to 127 places; to the left it keeps 128 bits. -/
def onIntegers? (x y : Int) : BitOperator → Option Int
  | .and => some (x.land y)
  | .or => some (x.lor y)
  | .xor => some (x.xor y)
  | .shl => if 0 ≤ y ∧ y ≤ 127 then some ((x * 2 ^ y.toNat).bmod (2 ^ 128)) else none
  | .shr => if 0 ≤ y ∧ y ≤ 127 then some (x / 2 ^ y.toNat) else none

/-- **On integers of a word, a bit operator is the operator of the integers.** -/
theorem result?_eq_onIntegers? (op : BitOperator) {x : Int} (hlow : -2 ^ 127 ≤ x) (hhigh : x < 2 ^ 127)
    (argument : Int64) : op.result? x argument = op.onIntegers? x argument.toInt := by
  have hx : (BitVec.ofInt 128 x).toInt = x := BitVec.toInt_ofInt_eq_self (by decide) hlow hhigh
  have hy : (BitVec.ofInt 128 argument.toInt).toInt = argument.toInt := by
    have hleast := argument.le_toInt
    have hmost := argument.toInt_lt
    refine BitVec.toInt_ofInt_eq_self (by decide) ?_ ?_ <;> omega
  have hamount : shiftAmount? argument =
      if 0 ≤ argument.toInt ∧ argument.toInt ≤ 127 then some argument.toInt.toNat else none := by
    have hbound : argument.toInt < 128 ↔ argument.toInt ≤ 127 := Int.lt_add_one_iff (b := 127)
    simp only [shiftAmount?, hbound]
  cases op with
  | and => simp only [result?, onIntegers?, Bits.toInt_and, hx, hy]
  | or => simp only [result?, onIntegers?, Bits.toInt_or, hx, hy]
  | xor => simp only [result?, onIntegers?, Bits.toInt_xor, hx, hy]
  | shl =>
    simp only [result?, onIntegers?, hamount]
    split
    · rw [Option.map_some, Bits.toInt_shiftLeft_ofInt]
    · rfl
  | shr =>
    simp only [result?, onIntegers?, hamount]
    split
    · rw [Option.map_some, BitVec.toInt_sshiftRight, hx, Int.shiftRight_eq_div_pow]
      norm_cast
    · rfl

end BitOperator

end FlowSelect
