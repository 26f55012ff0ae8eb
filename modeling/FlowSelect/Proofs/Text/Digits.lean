/-
# Numbers written in digits

Integers are written in decimal, without needless zeros. The digits are a run that denotes the number
again, so whatever takes a run of digits from the front of a text gets the number back, and so does
the reader of numbers in filters.

Key theorems: `Digits.toList_toString`, `Digits.decimal_toDigits`, `Digits.eq_nil_of_toDigits_zero`,
`Number.parse_toString`.
-/
import Mathlib
import FlowSelect.Number

namespace FlowSelect

namespace Digits

theorem isDigit_of_mem_toDigits {n : Nat} {c : Char} (h : c ∈ Nat.toDigits 10 n) : c.isDigit = true :=
  Nat.isDigit_of_mem_toDigits (by decide) (by decide) h

theorem toDigits_eq_cons (n : Nat) : ∃ d ds, Nat.toDigits 10 n = d :: ds ∧ d.isDigit = true := by
  obtain ⟨d, ds, h⟩ := List.exists_cons_of_ne_nil (Nat.toDigits_ne_nil (b := 10) (n := n))
  exact ⟨d, ds, h, isDigit_of_mem_toDigits (h ▸ List.mem_cons_self)⟩

theorem isRun_toDigits (n : Nat) : isRun (Nat.toDigits 10 n) = true := by
  have hdigits : ∀ c ∈ Nat.toDigits 10 n, c.isDigit = true := fun c hc => isDigit_of_mem_toDigits hc
  simpa [isRun, Nat.toDigits_ne_nil] using hdigits

@[simp] theorem decimal_toDigits (n : Nat) : decimal (Nat.toDigits 10 n) = n :=
  Nat.ofDigitChars_ten_toDigits

/-- The characters of an integer: its digits, after a minus sign if it is below zero. -/
theorem toList_toString (n : Int) : (toString n).toList =
    if 0 ≤ n then Nat.toDigits 10 n.toNat else '-' :: Nat.toDigits 10 (-n).toNat := by
  rw [Int.toString_eq_repr, Int.repr_eq_if]
  split <;> simp [Nat.repr_eq_ofList_toDigits]

/-- Zero is the only number that starts with a zero. -/
theorem eq_nil_of_toDigits_zero {n : Nat} : ∀ {cs : List Char}, Nat.toDigits 10 n = '0' :: cs → cs = [] := by
  induction n using Nat.strong_induction_on with
  | _ n ih =>
    intro cs h
    rw [Nat.toDigits_eq_if (by decide)] at h
    split at h
    · exact (List.cons.inj h).2.symm
    · next hn =>
      -- the digits before the last one start with the zero too, so there are none of them
      obtain ⟨d, ds, hds, -⟩ := toDigits_eq_cons (n / 10)
      rw [hds, List.cons_append] at h
      obtain ⟨rfl, -⟩ := List.cons.inj h
      have hnil : ds = [] := ih (n / 10) (by omega) hds
      have hzero : n / 10 = 0 := by
        rw [← decimal_toDigits (n / 10), hds, hnil]
        rfl
      omega

/-! ### Runs at the front of a text -/

variable {cs rest : List Char}

/-- The text does not start with a digit. -/
def Breaks (rest : List Char) : Prop := ∀ c ∈ rest.head?, c.isDigit = false

theorem takeWhile_run (hcs : isRun cs = true) (hrest : Breaks rest) :
    (cs ++ rest).takeWhile Char.isDigit = cs := by
  simp only [isRun, Bool.and_eq_true, List.all_eq_true] at hcs
  rw [List.takeWhile_append_of_pos hcs.2]
  cases rest with
  | nil => simp
  | cons c rest => simp [hrest c rfl]

theorem dropWhile_run (hcs : isRun cs = true) (hrest : Breaks rest) :
    (cs ++ rest).dropWhile Char.isDigit = rest := by
  simp only [isRun, Bool.and_eq_true, List.all_eq_true] at hcs
  rw [List.dropWhile_append_of_pos hcs.2]
  cases rest with
  | nil => simp
  | cons c rest => simp [hrest c rfl]

end Digits

namespace Number

theorem ofInt_ne_minValue {n : Int} (hlow : -2 ^ 63 < n) (hhigh : n < 2 ^ 63) :
    Int64.ofInt n ≠ Int64.minValue := by
  intro h
  have hint : (Int64.ofInt n).toInt = n := Int64.toInt_ofInt_of_le (by omega) (by omega)
  have hmin : Int64.minValue.toInt = -9223372036854775808 := rfl
  rw [h] at hint
  omega

theorem ofNat_ne_minValue {n : Nat} (h : n < 2 ^ 63) : Int64.ofNat n ≠ Int64.minValue :=
  ofInt_ne_minValue (n := n) (by omega) (by omega)

theorem magnitude_toDigits {n : Nat} (hn : n ≤ limit) : magnitude (Nat.toDigits 10 n) = .ok n := by
  have hrun := Digits.isRun_toDigits n
  have hend : Digits.Breaks [] := by simp [Digits.Breaks]
  have htake : (Nat.toDigits 10 n).takeWhile Char.isDigit = Nat.toDigits 10 n := by
    simpa using Digits.takeWhile_run hrun hend
  have hdrop : (Nat.toDigits 10 n).dropWhile Char.isDigit = [] := by
    simpa using Digits.dropWhile_run hrun hend
  have hdecimal : decimalMagnitude (Nat.toDigits 10 n) = .ok n := by
    simp [decimalMagnitude, htake, hdrop, scale?, hn]
  unfold magnitude
  split
  · next hex h => exact absurd (h ▸ hrun) (by simp [Digits.isRun, show 'x'.isDigit = false from rfl])
  · next hex h => exact absurd (h ▸ hrun) (by simp [Digits.isRun, show 'X'.isDigit = false from rfl])
  · exact hdecimal

theorem value_toDigits {n : Nat} (hn : n ≤ limit) : value (Nat.toDigits 10 n) = .ok (n : Int) := by
  have hrun := Digits.isRun_toDigits n
  unfold value
  split
  · next ds h => exact absurd (h ▸ hrun) (by simp [Digits.isRun, show '-'.isDigit = false from rfl])
  · rw [magnitude_toDigits hn]
    rfl

/-- **A number is read back**, the least one apart: its magnitude is out of range. -/
theorem parse_toString {n : Int64} (hn : n ≠ Int64.minValue) : parse (toString n.toInt) = .ok n := by
  have hlow : Int64.minValue.toInt < n.toInt := by
    have hle : Int64.minValue.toInt ≤ n.toInt := Int64.le_iff_toInt_le.mp (Int64.minValue_le n)
    have hne : n.toInt ≠ Int64.minValue.toInt := fun h => hn (Int64.toInt_inj.mp h)
    omega
  have hhigh : n.toInt ≤ Int64.maxValue.toInt := Int64.le_iff_toInt_le.mp (Int64.le_maxValue n)
  have hmin : Int64.minValue.toInt = -9223372036854775808 := rfl
  have hmax : Int64.maxValue.toInt = 9223372036854775807 := rfl
  have hvalue : value (toString n.toInt).toList = .ok n.toInt := by
    rw [Digits.toList_toString]
    split
    · rw [value_toDigits (by simp only [limit]; omega), Int.toNat_of_nonneg (by omega)]
    · rw [value, magnitude_toDigits (by simp only [limit]; omega)]
      change Except.ok (-((-n.toInt).toNat : Int)) = _
      rw [Int.toNat_of_nonneg (by omega), Int.neg_neg]
  rw [parse, hvalue]
  simp

end Number

end FlowSelect
