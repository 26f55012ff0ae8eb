/-
# Numerals

What the characters of a number say, apart from how they are read: a sign, digits in a radix, the highest
one first, and the factor of a unit (`Numeral.Written`). A text is read as a number exactly if it writes a
numeral of at most 2^63 - 1, the sign apart, and the number read is the value of that numeral. What comes
up on the way, digit by digit, is never more than the whole, so the bound on the whole is the only one that
is needed. The bound is the same below zero. So every integer of 64 bits is read back from its decimal
form, but for the least one.

Key definitions: `Numeral`, `Numeral.Written`, `Numeral.WritesDecimal`, `Numeral.steps`.
Key theorems: `Digits.hexValue?_eq_some_iff`, `Number.magnitude_of_unsigned`,
`Number.unsigned_of_magnitude`, `Number.value_eq_ok_iff`, `numbers_are_bounded_numerals`,
`integers_read_back_but_the_least`.
-/
import FlowSelect.Comparison.Basic
import FlowSelect.Proofs.Text.Characters
import FlowSelect.Proofs.Text.Digits

namespace FlowSelect

/-- A number as it is written. -/
structure Numeral where
  negative : Bool
  radix : Nat
  /-- The values of the digits, the highest one first. -/
  digits : List Nat
  /-- What the unit multiplies by, 1 without a unit. -/
  factor : Nat

namespace Numeral

/-- The letters for units, with the number of zeros they stand for. -/
def units : List (Char × Nat) := [('k', 3), ('m', 6), ('g', 9), ('t', 12)]

/-- The characters are digits of these values, at least one, with letters in either case. -/
def Spells (radix : Nat) (cs : List Char) (ds : List Nat) : Prop :=
  cs ≠ [] ∧ List.Forall₂ (fun c d => d < radix ∧ c.toLower = Nat.digitChar d) cs ds

instance (radix : Nat) (cs : List Char) (ds : List Nat) : Decidable (Spells radix cs ds) :=
  inferInstanceAs (Decidable (_ ∧ _))

/-- The characters write the numeral without its sign. -/
inductive Unsigned : Numeral → List Char → Prop where
  | hexadecimal {negative : Bool} {x : Char} {cs : List Char} {ds : List Nat} (hx : x = 'x' ∨ x = 'X')
      (hcs : Spells 16 cs ds) : Unsigned ⟨negative, 16, ds, 1⟩ ('0' :: x :: cs)
  | decimal {negative : Bool} {cs : List Char} {ds : List Nat} (hcs : Spells 10 cs ds) :
      Unsigned ⟨negative, 10, ds, 1⟩ cs
  | scaled {negative : Bool} {cs : List Char} {ds : List Nat} {u : Char} {zeros : Nat}
      (hcs : Spells 10 cs ds) (hu : (u.toLower, zeros) ∈ units) :
      Unsigned ⟨negative, 10, ds, 10 ^ zeros⟩ (cs ++ [u])

/-- The characters write the numeral, with a minus sign in front if it is negative. -/
def Written (x : Numeral) (cs : List Char) : Prop :=
  ∃ ds, x.Unsigned ds ∧ cs = if x.negative then '-' :: ds else ds

def magnitude (x : Numeral) : Nat := Nat.ofDigits x.radix x.digits.reverse * x.factor

def value (x : Numeral) : Int := if x.negative then -(x.magnitude : Int) else x.magnitude

/-- What comes up while digits are taken in one after the other: the number so far is multiplied by the
radix, and then the digit is added. -/
def partials (radix : Nat) : Nat → List Nat → List Nat
  | _, [] => []
  | n, d :: ds => radix * n :: (radix * n + d) :: partials radix (radix * n + d) ds

/-- What comes up while the value is computed: the digits are taken in, the number is multiplied by the
factor, and then the sign is looked at. -/
def steps (x : Numeral) : List Int :=
  (partials x.radix 0 x.digits).map (fun n => (n : Int)) ++ [(x.magnitude : Int), x.value]

end Numeral

/-! ### Digits -/

namespace Digits

theorem lt_of_hexValue? {c : Char} {n : Nat} (h : hexValue? c = some n) : c.toNat < 128 := by
  unfold hexValue? at h
  split at h
  · next hdigit =>
    have hmost : c.toNat ≤ 57 := (Char.isDigit_iff_toNat.mp hdigit).2
    omega
  split at h
  · next hlower =>
    have hmost : c.toNat ≤ 102 := hlower.2
    omega
  split at h
  · next hupper =>
    have hmost : c.toNat ≤ 70 := hupper.2
    omega
  · cases h

/-- A character is the digit of a value if it is that digit in either letter case. -/
theorem hexValue?_eq_some_iff {c : Char} {n : Nat} :
    hexValue? c = some n ↔ n < 16 ∧ c.toLower = Nat.digitChar n := by
  constructor
  · intro h
    have hall : ∀ m < 128, ∀ n ∈ hexValue? (Char.ofNat m),
        n < 16 ∧ (Char.ofNat m).toLower = Nat.digitChar n := by decide
    have hascii := hall c.toNat (lt_of_hexValue? h)
    rw [Char.ofNat_toNat] at hascii
    exact hascii n h
  · rintro ⟨hn, h⟩
    have hlower : ∀ n < 16, hexValue? (Nat.digitChar n) = some n := by decide
    have hupper : ∀ n < 16, (Char.ofNat ((Nat.digitChar n).toNat - 32)).toLower = Nat.digitChar n →
        hexValue? (Char.ofNat ((Nat.digitChar n).toNat - 32)) = some n := by decide
    rcases Text.eq_or_of_toLower h with rfl | rfl
    · exact hlower n hn
    · exact hupper n hn h

/-- The decimal digits are the hexadecimal ones below ten. -/
theorem isDigit_and_iff {c : Char} {n : Nat} :
    c.isDigit = true ∧ c.toNat - '0'.toNat = n ↔ n < 10 ∧ c.toLower = Nat.digitChar n := by
  have hten : n < 10 ∧ c.toLower = Nat.digitChar n ↔ n < 10 ∧ hexValue? c = some n := by
    rw [hexValue?_eq_some_iff]
    constructor
    · rintro ⟨hn, h⟩
      exact ⟨hn, by omega, h⟩
    · rintro ⟨hn, -, h⟩
      exact ⟨hn, h⟩
  rw [hten]
  by_cases hdigit : c.isDigit = true
  · have hmost : c.toNat ≤ 57 := (Char.isDigit_iff_toNat.mp hdigit).2
    have hzero : '0'.toNat = 48 := rfl
    simp only [hexValue?, hdigit, if_true, true_and, Option.some.injEq]
    omega
  · -- the letters stand for ten and more
    have hletter : hexValue? c = some n → 10 ≤ n := by
      unfold hexValue?
      rw [if_neg hdigit]
      intro h
      split at h
      · simp only [Option.some.injEq] at h
        omega
      split at h
      · simp only [Option.some.injEq] at h
        omega
      · cases h
    constructor
    · exact fun h => absurd h.1 hdigit
    · rintro ⟨hn, h⟩
      have hleast := hletter h
      omega

theorem isHex_and_iff {c : Char} {n : Nat} :
    isHex c = true ∧ (hexValue? c).getD 0 = n ↔ n < 16 ∧ c.toLower = Nat.digitChar n := by
  rw [← hexValue?_eq_some_iff, isHex]
  cases hexValue? c <;> simp

end Digits

namespace Numeral

variable {radix n : Nat} {cs : List Char} {ds : List Nat}

/-- Digits that a function reads one by one. -/
theorem spells_iff {isDigit : Char → Bool} {digit : Char → Nat}
    (h : ∀ c d, isDigit c = true ∧ digit c = d ↔ d < radix ∧ c.toLower = Nat.digitChar d) :
    Spells radix cs ds ↔ (cs ≠ [] ∧ ∀ c ∈ cs, isDigit c = true) ∧ cs.map digit = ds := by
  simp only [Spells, ← h, List.forall₂_and_left, and_assoc]
  rw [← List.forall₂_map_left_iff, List.forall₂_eq_eq_eq]

theorem spells_hexadecimal : Spells 16 cs ds ↔
    Digits.isHexRun cs = true ∧ cs.map (fun c => (Digits.hexValue? c).getD 0) = ds := by
  rw [spells_iff fun _ _ => Digits.isHex_and_iff]
  simp [Digits.isHexRun]

theorem spells_decimal : Spells 10 cs ds ↔
    Digits.isRun cs = true ∧ cs.map (fun c => c.toNat - '0'.toNat) = ds := by
  rw [spells_iff fun _ _ => Digits.isDigit_and_iff]
  simp [Digits.isRun]

theorem ofDigits_reverse (radix : Nat) (ds : List Nat) :
    Nat.ofDigits radix ds.reverse = ds.foldl (fun n d => radix * n + d) 0 := by
  rw [Nat.ofDigits_eq_foldr, List.foldr_reverse]
  simp [Nat.add_comm]

theorem hexadecimal_eq (h : Spells 16 cs ds) : Digits.hexadecimal cs = Nat.ofDigits 16 ds.reverse := by
  obtain ⟨-, rfl⟩ := spells_hexadecimal.mp h
  rw [ofDigits_reverse, List.foldl_map]
  rfl

theorem decimal_eq (h : Spells 10 cs ds) : Digits.decimal cs = Nat.ofDigits 10 ds.reverse := by
  obtain ⟨-, rfl⟩ := spells_decimal.mp h
  rw [ofDigits_reverse, List.foldl_map, Digits.decimal, Nat.ofDigitChars_eq_foldl]

/-- The characters are decimal digits of the number, at least one, perhaps with zeros in front. -/
def WritesDecimal (cs : List Char) (n : Nat) : Prop :=
  ∃ ds, Spells 10 cs ds ∧ n = Nat.ofDigits 10 ds.reverse

theorem writesDecimal_iff : WritesDecimal cs n ↔ Digits.isRun cs = true ∧ Digits.decimal cs = n := by
  constructor
  · rintro ⟨ds, hcs, rfl⟩
    exact ⟨(spells_decimal.mp hcs).1, decimal_eq hcs⟩
  · rintro ⟨hrun, rfl⟩
    have hcs := spells_decimal.mpr ⟨hrun, rfl⟩
    exact ⟨_, hcs, decimal_eq hcs⟩

theorem isAlpha_of_mem_units {u : Char} {zeros : Nat} (h : (u.toLower, zeros) ∈ units) :
    u.isAlpha = true := by
  have hall : ∀ unit ∈ units, unit.1.isAlpha = true := by decide
  exact Text.isAlpha_of_toLower (hall _ h)

/-! ### What comes up on the way -/

theorem le_foldl (hradix : 0 < radix) : ∀ (ds : List Nat) (n : Nat),
    n ≤ ds.foldl (fun n d => radix * n + d) n
  | [], _ => Nat.le_refl _
  | d :: ds, n =>
    calc n ≤ radix * n := Nat.le_mul_of_pos_left n hradix
      _ ≤ radix * n + d := Nat.le_add_right _ _
      _ ≤ ds.foldl (fun n d => radix * n + d) (radix * n + d) := le_foldl hradix ds _

/-- **The number so far is never more than the whole.** -/
theorem le_of_mem_partials (hradix : 0 < radix) {m : Nat} : ∀ {ds : List Nat} {n : Nat},
    m ∈ partials radix n ds → m ≤ ds.foldl (fun n d => radix * n + d) n
  | d :: ds, n, h => by
    have hrest : radix * n + d ≤ ds.foldl (fun n d => radix * n + d) (radix * n + d) :=
      le_foldl hradix ds _
    have hcases : m = radix * n ∨ m = radix * n + d ∨ m ∈ partials radix (radix * n + d) ds := by
      simpa [partials] using h
    rw [List.foldl_cons]
    rcases hcases with rfl | rfl | h
    · exact (Nat.le_add_right _ _).trans hrest
    · exact hrest
    · exact le_of_mem_partials hradix h

variable {x : Numeral}

theorem Unsigned.radix_pos (h : x.Unsigned cs) : 0 < x.radix := by
  cases h <;> simp

theorem Unsigned.factor_pos (h : x.Unsigned cs) : 0 < x.factor := by
  cases h <;> simp

theorem natAbs_value (x : Numeral) : x.value.natAbs = x.magnitude := by
  unfold value
  split <;> simp

/-- **No step goes beyond the magnitude.** -/
theorem natAbs_le_of_mem_steps (h : x.Written cs) {m : Int} (hm : m ∈ x.steps) :
    m.natAbs ≤ x.magnitude := by
  obtain ⟨ds, hunsigned, -⟩ := h
  have hcases : (∃ k ∈ partials x.radix 0 x.digits, m = (k : Int)) ∨ m = x.magnitude ∨ m = x.value := by
    simpa [steps] using hm
  rcases hcases with ⟨k, hk, rfl⟩ | rfl | rfl
  · calc k ≤ Nat.ofDigits x.radix x.digits.reverse := by
          rw [ofDigits_reverse]
          exact le_of_mem_partials hunsigned.radix_pos hk
      _ ≤ x.magnitude := Nat.le_mul_of_pos_right _ hunsigned.factor_pos
  · exact Nat.le_refl _
  · exact (natAbs_value x).le

/-! ### The sign -/

theorem Spells.head_ne (h : Spells 10 cs ds) (rest : List Char) : (cs ++ rest).head? ≠ some '-' := by
  obtain ⟨hrun, -⟩ := spells_decimal.mp h
  cases cs with
  | nil => cases hrun
  | cons c cs =>
    intro hhead
    obtain rfl : c = '-' := by simpa using hhead
    simp [Digits.isRun, show '-'.isDigit = false from rfl] at hrun

theorem Unsigned.head_ne (h : x.Unsigned cs) : cs.head? ≠ some '-' := by
  cases h with
  | hexadecimal => simp
  | decimal hcs => simpa using hcs.head_ne []
  | scaled hcs => exact hcs.head_ne _

theorem written_minus {ds : List Char} : x.Written ('-' :: ds) ↔ x.negative = true ∧ x.Unsigned ds := by
  cases hnegative : x.negative with
  | true => simp [Written, hnegative]
  | false =>
    have hplain : ¬x.Unsigned ('-' :: ds) := fun h => h.head_ne rfl
    simp [Written, hnegative, hplain]

theorem written_plain (hcs : ∀ ds, cs ≠ '-' :: ds) :
    x.Written cs ↔ x.negative = false ∧ x.Unsigned cs := by
  cases hnegative : x.negative with
  | true => simp [Written, hnegative, hcs]
  | false => simp [Written, hnegative]

end Numeral

/-! ### Reading numerals -/

namespace Number

open Numeral (Spells)

variable {cs : List Char} {n : Nat}

/-- The unit is left out, or it is one of the letters in either case. -/
theorem scale?_eq_some_iff {unit : List Char} {factor : Nat} : scale? unit = some factor ↔
    unit = [] ∧ factor = 1 ∨
      ∃ u zeros, unit = [u] ∧ (u.toLower, zeros) ∈ Numeral.units ∧ factor = 10 ^ zeros := by
  constructor
  · intro h
    unfold scale? at h
    split at h
    case h_10 => cases h
    all_goals obtain rfl := Option.some.inj h
    · exact .inl ⟨rfl, rfl⟩
    all_goals exact .inr (by simp [Numeral.units])
  · rintro (⟨rfl, rfl⟩ | ⟨u, zeros, rfl, hu, rfl⟩)
    · rfl
    · have hcases : (u.toLower = 'k' ∧ zeros = 3) ∨ (u.toLower = 'm' ∧ zeros = 6) ∨
          (u.toLower = 'g' ∧ zeros = 9) ∨ (u.toLower = 't' ∧ zeros = 12) := by
        simpa [Numeral.units] using hu
      rcases hcases with ⟨hlower, rfl⟩ | ⟨hlower, rfl⟩ | ⟨hlower, rfl⟩ | ⟨hlower, rfl⟩ <;>
        rcases Text.eq_or_of_toLower hlower with rfl | rfl <;> rfl

theorem breaks_of_scale? {unit : List Char} {factor : Nat} (h : scale? unit = some factor) :
    Digits.Breaks unit := by
  rw [scale?_eq_some_iff] at h
  rcases h with ⟨rfl, -⟩ | ⟨u, zeros, rfl, hu, -⟩
  · simp [Digits.Breaks]
  · simpa [Digits.Breaks] using Text.isDigit_of_isAlpha (Numeral.isAlpha_of_mem_units hu)

theorem hexMagnitude_eq_ok_iff : hexMagnitude cs = .ok n ↔
    ∃ ds, Spells 16 cs ds ∧ n ≤ limit ∧ Nat.ofDigits 16 ds.reverse = n := by
  constructor
  · intro h
    unfold hexMagnitude at h
    split at h
    · next hrun =>
      have hcs := Numeral.spells_hexadecimal.mpr ⟨hrun, rfl⟩
      rw [Numeral.hexadecimal_eq hcs] at h
      split at h
      · next hlimit =>
        obtain rfl := Except.ok.inj h
        exact ⟨_, hcs, hlimit, rfl⟩
      · cases h
    · cases h
  · rintro ⟨ds, hcs, hlimit, rfl⟩
    rw [hexMagnitude, if_pos (Numeral.spells_hexadecimal.mp hcs).1, Numeral.hexadecimal_eq hcs, if_pos hlimit]

theorem decimalMagnitude_run {digits unit : List Char} (hdigits : Digits.isRun digits = true)
    {factor : Nat} (hunit : scale? unit = some factor) :
    decimalMagnitude (digits ++ unit) =
      if Digits.decimal digits * factor ≤ limit then .ok (Digits.decimal digits * factor)
      else .error .outOfRange := by
  have hne : digits.isEmpty = false := by
    cases digits with
    | nil => cases hdigits
    | cons => rfl
  have hbreaks := breaks_of_scale? hunit
  simp only [decimalMagnitude, Digits.takeWhile_run hdigits hbreaks, Digits.dropWhile_run hdigits hbreaks,
    hne, hunit, Bool.false_eq_true, if_false]

theorem exists_run_of_decimalMagnitude (h : decimalMagnitude cs = .ok n) :
    ∃ digits unit factor, cs = digits ++ unit ∧ Digits.isRun digits = true ∧ scale? unit = some factor := by
  simp only [decimalMagnitude] at h
  split at h
  · cases h
  · next hne =>
    split at h
    · cases h
    · next factor hunit =>
      refine ⟨_, _, factor, List.takeWhile_append_dropWhile.symm, ?_, hunit⟩
      rw [Digits.isRun, Bool.and_eq_true, List.all_eq_true]
      exact ⟨by simpa using hne, fun c hc => List.mem_takeWhile_imp hc⟩

theorem decimalMagnitude_eq_ok_iff : decimalMagnitude cs = .ok n ↔
    ∃ digits unit ds factor, cs = digits ++ unit ∧ Spells 10 digits ds ∧ scale? unit = some factor ∧
      n ≤ limit ∧ Nat.ofDigits 10 ds.reverse * factor = n := by
  constructor
  · intro h
    obtain ⟨digits, unit, factor, rfl, hrun, hunit⟩ := exists_run_of_decimalMagnitude h
    have hdigits := Numeral.spells_decimal.mpr ⟨hrun, rfl⟩
    rw [decimalMagnitude_run hrun hunit, Numeral.decimal_eq hdigits] at h
    split at h
    · next hlimit =>
      obtain rfl := Except.ok.inj h
      exact ⟨digits, unit, _, factor, rfl, hdigits, hunit, hlimit, rfl⟩
    · cases h
  · rintro ⟨digits, unit, ds, factor, rfl, hdigits, hunit, hlimit, rfl⟩
    rw [decimalMagnitude_run (Numeral.spells_decimal.mp hdigits).1 hunit, Numeral.decimal_eq hdigits,
      if_pos hlimit]

theorem magnitude_hex {x : Char} (hx : x = 'x' ∨ x = 'X') (hs : List Char) :
    magnitude ('0' :: x :: hs) = hexMagnitude hs := by
  rcases hx with rfl | rfl <;> rfl

/-- Digits and a unit are not taken for a number in hexadecimal. -/
theorem magnitude_run {digits unit : List Char} (hdigits : Digits.isRun digits = true)
    {factor : Nat} (hunit : scale? unit = some factor) :
    magnitude (digits ++ unit) = decimalMagnitude (digits ++ unit) := by
  have hdrop := Digits.dropWhile_run hdigits (breaks_of_scale? hunit)
  unfold magnitude
  split
  · next hex h =>
    rw [h] at hdrop
    obtain rfl : 'x' :: hex = unit := hdrop
    cases hex <;> cases hunit
  · next hex h =>
    rw [h] at hdrop
    obtain rfl : 'X' :: hex = unit := hdrop
    cases hex <;> cases hunit
  · rfl

/-- A text with a magnitude is in hexadecimal, or it is digits and a unit. -/
theorem magnitude_cases (h : magnitude cs = .ok n) :
    (∃ x hs, (x = 'x' ∨ x = 'X') ∧ cs = '0' :: x :: hs ∧ hexMagnitude hs = .ok n) ∨
      decimalMagnitude cs = .ok n := by
  unfold magnitude at h
  split at h
  · exact .inl ⟨'x', _, .inl rfl, rfl, h⟩
  · exact .inl ⟨'X', _, .inr rfl, rfl, h⟩
  · exact .inr h

theorem magnitude_scaled {digits unit : List Char} {ds : List Nat} {factor : Nat}
    (hdigits : Spells 10 digits ds) (hunit : scale? unit = some factor)
    (hlimit : Nat.ofDigits 10 ds.reverse * factor ≤ limit) :
    magnitude (digits ++ unit) = .ok (Nat.ofDigits 10 ds.reverse * factor) := by
  rw [magnitude_run (Numeral.spells_decimal.mp hdigits).1 hunit]
  exact decimalMagnitude_eq_ok_iff.mpr ⟨digits, unit, ds, factor, rfl, hdigits, hunit, hlimit, rfl⟩

/-- **A numeral in range has the magnitude that is read.** -/
theorem magnitude_of_unsigned {x : Numeral} (hx : x.Unsigned cs) (hlimit : x.magnitude ≤ limit) :
    magnitude cs = .ok x.magnitude := by
  cases hx with
  | hexadecimal hx hcs =>
    rw [magnitude_hex hx]
    exact hexMagnitude_eq_ok_iff.mpr ⟨_, hcs, hlimit, (Nat.mul_one _).symm⟩
  | decimal hcs =>
    have hunit : scale? [] = some 1 := rfl
    have hread := magnitude_scaled hcs hunit hlimit
    rwa [List.append_nil] at hread
  | @scaled _ _ _ u zeros hcs hu =>
    have hunit : scale? [u] = some (10 ^ zeros) := by
      rw [scale?_eq_some_iff]
      exact .inr ⟨u, zeros, rfl, hu, rfl⟩
    exact magnitude_scaled hcs hunit hlimit

/-- **What has a magnitude is a numeral**, and either sign can be put to it. -/
theorem unsigned_of_magnitude (negative : Bool) (h : magnitude cs = .ok n) :
    ∃ x : Numeral, x.negative = negative ∧ x.Unsigned cs ∧ n ≤ limit ∧ x.magnitude = n := by
  rcases magnitude_cases h with ⟨x, hs, hx, rfl, hhex⟩ | hdecimal
  · obtain ⟨ds, hhs, hlimit, rfl⟩ := hexMagnitude_eq_ok_iff.mp hhex
    exact ⟨_, rfl, .hexadecimal hx hhs, hlimit, Nat.mul_one _⟩
  · obtain ⟨digits, unit, ds, factor, rfl, hdigits, hunit, hlimit, hn⟩ :=
      decimalMagnitude_eq_ok_iff.mp hdecimal
    refine ⟨⟨negative, 10, ds, factor⟩, rfl, ?_, hlimit, hn⟩
    rw [scale?_eq_some_iff] at hunit
    rcases hunit with ⟨rfl, rfl⟩ | ⟨u, zeros, rfl, hu, rfl⟩
    · rw [List.append_nil]
      exact .decimal hdigits
    · exact .scaled hdigits hu

theorem map_eq_ok_iff {f : Int → Int} {e : Except FormatFault Nat} {k : Int} :
    (Except.map f do return (← e : Int)) = .ok k ↔ ∃ n, e = .ok n ∧ f n = k := by
  cases e with
  | error reason => simp [bind, Except.bind, Except.map]
  | ok n => simp [bind, Except.bind, pure, Except.pure, Except.map]

theorem signed_magnitude_iff {negative : Bool} {f : Int → Int}
    (hf : ∀ x : Numeral, x.negative = negative → f x.magnitude = x.value) {k : Int} :
    (∃ n : Nat, magnitude cs = .ok n ∧ f n = k) ↔
      ∃ x : Numeral, (x.negative = negative ∧ x.Unsigned cs) ∧ x.magnitude ≤ limit ∧ x.value = k := by
  constructor
  · rintro ⟨n, hn, rfl⟩
    obtain ⟨x, hnegative, hx, hlimit, rfl⟩ := unsigned_of_magnitude negative hn
    exact ⟨x, ⟨hnegative, hx⟩, hlimit, (hf x hnegative).symm⟩
  · rintro ⟨x, ⟨hnegative, hx⟩, hlimit, rfl⟩
    exact ⟨_, magnitude_of_unsigned hx hlimit, hf x hnegative⟩

/-- **The value is that of the numeral.** -/
theorem value_eq_ok_iff {k : Int} : value cs = .ok k ↔
    ∃ x : Numeral, x.Written cs ∧ x.magnitude ≤ limit ∧ x.value = k := by
  unfold value
  split
  · simp only [map_eq_ok_iff, Numeral.written_minus]
    exact signed_magnitude_iff fun x hnegative => by simp [Numeral.value, hnegative]
  · next hplain =>
    simp only [map_eq_ok_iff, Numeral.written_plain hplain]
    exact signed_magnitude_iff (f := id) fun x hnegative => by simp [Numeral.value, hnegative]

/-- What is read fits 64 bits, so nothing is lost when it is stored in them. -/
theorem parse_eq_ok_iff {text : String} {v : Int64} :
    parse text = .ok v ↔ value text.toList = .ok v.toInt := by
  cases hvalue : value text.toList with
  | error reason => simp [parse, hvalue]
  | ok k =>
    obtain ⟨x, -, hlimit, rfl⟩ := value_eq_ok_iff.mp hvalue
    have habs := x.natAbs_value
    have hint : (Int64.ofInt x.value).toInt = x.value := by
      simp only [limit] at hlimit
      exact Int64.toInt_ofInt_of_le (by omega) (by omega)
    simp only [parse, hvalue, Except.ok.injEq]
    rw [← hint, Int64.toInt_inj, Int64.ofInt_toInt]

end Number

/-- **A number is a numeral of at most 2^63 - 1, the sign apart.** A text is read as a number exactly if it
writes such a numeral, in decimal with one unit at most or in hexadecimal, and the number is the value of
that numeral. On the way to it everything fits 64 bits: the number after each digit and before it, the
number times the factor, and the number with its sign. -/
theorem numbers_are_bounded_numerals (text : String) :
    (∀ v : Int64, Number.parse text = .ok v ↔
      ∃ x : Numeral, x.Written text.toList ∧ x.magnitude ≤ 2 ^ 63 - 1 ∧ v.toInt = x.value) ∧
    ∀ x : Numeral, x.Written text.toList → x.magnitude ≤ 2 ^ 63 - 1 →
      ∀ n ∈ x.steps, -2 ^ 63 ≤ n ∧ n < 2 ^ 63 := by
  refine ⟨fun v => ?_, fun x hx hmagnitude n hn => ?_⟩
  · rw [Number.parse_eq_ok_iff, Number.value_eq_ok_iff]
    simp only [eq_comm, Number.limit]
    rfl
  · have habs := Numeral.natAbs_le_of_mem_steps hx hn
    omega

/-- The widest number in hexadecimal, below zero and with letters in both cases, and zeros in front of a
number with a unit. -/
theorem numbers_are_bounded_numerals_widest :
    let x : Numeral := ⟨true, 16, 7 :: List.replicate 15 15, 1⟩
    let y : Numeral := ⟨false, 10, [0, 0, 9, 2, 2, 3, 3, 7, 2], 10 ^ 12⟩
    (x.Written "-0X7fFFfFFFfffFFFFf".toList ∧ x.magnitude = 2 ^ 63 - 1 ∧
      Number.parse "-0X7fFFfFFFfffFFFFf" = .ok (Int64.minValue + 1) ∧
      ∀ n ∈ x.steps, -2 ^ 63 ≤ n ∧ n < 2 ^ 63) ∧
    y.Written "009223372T".toList ∧ Number.parse "009223372T" = .ok 9223372000000000000 := by
  intro x y
  have hx : x.Written "-0X7fFFfFFFfffFFFFf".toList :=
    ⟨'0' :: 'X' :: "7fFFfFFFfffFFFFf".toList, .hexadecimal (.inr rfl) (by decide), by decide⟩
  have hy : y.Written "009223372T".toList :=
    ⟨"009223372".toList ++ ['T'], .scaled (by decide) (by decide), by decide⟩
  have hwidest : x.magnitude = 2 ^ 63 - 1 := by decide
  obtain ⟨hread, hsteps⟩ := numbers_are_bounded_numerals "-0X7fFFfFFFfffFFFFf"
  refine ⟨⟨hx, hwidest, (hread _).mpr ⟨x, hx, hwidest.le, by decide⟩, hsteps x hx hwidest.le⟩, hy, ?_⟩
  exact ((numbers_are_bounded_numerals "009223372T").1 _).mpr ⟨y, hy, by decide, by decide⟩

/-- **Integers are read back, the least one apart.** The engine's text of an integer is read as that
integer. The least one has a magnitude that is out of range, as the sign is looked at last. -/
theorem integers_read_back_but_the_least (n : Int64) :
    Number.parse (Constant.int n).render =
      if n = Int64.minValue then .error (.format .number (Constant.int n).render .outOfRange)
      else .ok n := by
  split
  · next h =>
    subst h
    decide
  · next h => exact Number.parse_toString h

/-- The least integer is written in the engine's text, and cannot be written in a filter. -/
theorem least_integer_is_out_of_range :
    (Constant.int Int64.minValue).render = "-9223372036854775808" ∧
      Number.parse "-9223372036854775808" =
        .error (.format .number "-9223372036854775808" .outOfRange) := by
  decide

end FlowSelect
