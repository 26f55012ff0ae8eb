/-
# Numbers of fixed width

Texts are ordered by their first difference. Numbers written with the same number of digits, zeros in
front included, are ordered as their texts are (`Text.WritesField.lt_iff`), since the first digit in which
they differ counts for more than all digits after it. So a text made of such numbers, each at its place, is
ordered by the first of them, then by the second, and so on (`Text.WritesField.append_lt_iff`). Characters
below 128 are one byte each, and then the order of the bytes is that of the characters.

Key definition: `Text.WritesField`.
Key theorems: `Digits.decimal_lt_iff`, `Text.WritesField.append_lt_iff`, `Text.bytes_lt_iff`.
-/
import FlowSelect.Proofs.Text.Characters
import FlowSelect.Proofs.Text.Numerals

namespace FlowSelect

/-! ### Digits -/

namespace Digits

theorem decimal_cons (c : Char) (cs : List Char) :
    decimal (c :: cs) = 10 ^ cs.length * (c.toNat - '0'.toNat) + decimal cs := by
  unfold decimal
  rw [Nat.ofDigitChars_cons, Nat.ofDigitChars_eq_ofDigitChars_zero, Nat.mul_zero, Nat.zero_add]

variable {cs ds : List Char}

theorem decimal_lt (h : ∀ c ∈ cs, c.isDigit = true) : decimal cs < 10 ^ cs.length := by
  induction cs with
  | nil => decide
  | cons c cs ih =>
    have hrest := ih fun x hx => h x (List.mem_cons_of_mem c hx)
    have hmost : c.toNat ≤ 57 := (Char.isDigit_iff_toNat.mp (h c List.mem_cons_self)).2
    have hzero : '0'.toNat = 48 := rfl
    have hnine : 10 ^ cs.length * (c.toNat - '0'.toNat) ≤ 10 ^ cs.length * 9 :=
      Nat.mul_le_mul_left _ (by omega)
    rw [decimal_cons, List.length_cons, pow_succ]
    omega

/-- The higher digit decides, and the rest only where it does not. -/
theorem positional_lt_iff {k x y m n : Nat} (hm : m < k) (hn : n < k) :
    k * x + m < k * y + n ↔ x < y ∨ x = y ∧ m < n := by
  rcases lt_trichotomy x y with hlt | rfl | hlt
  · have hstep : k * (x + 1) ≤ k * y := Nat.mul_le_mul_left k hlt
    rw [Nat.mul_add] at hstep
    omega
  · omega
  · have hstep : k * (y + 1) ≤ k * x := Nat.mul_le_mul_left k hlt
    rw [Nat.mul_add] at hstep
    omega

/-- **With as many digits each, numbers are ordered as their digits are.** -/
theorem decimal_lt_iff : ∀ {cs ds : List Char}, cs.length = ds.length → (∀ c ∈ cs, c.isDigit = true) →
    (∀ d ∈ ds, d.isDigit = true) → (cs < ds ↔ decimal cs < decimal ds)
  | [], [], _, _, _ => by simp
  | c :: cs, d :: ds, hlength, hcs, hds => by
    obtain ⟨hc, hcs⟩ := List.forall_mem_cons.mp hcs
    obtain ⟨hd, hds⟩ := List.forall_mem_cons.mp hds
    have hrest : cs.length = ds.length := Nat.succ.inj hlength
    have hleast : 48 ≤ c.toNat := (Char.isDigit_iff_toNat.mp hc).1
    have hleast' : 48 ≤ d.toNat := (Char.isDigit_iff_toNat.mp hd).1
    have hzero : '0'.toNat = 48 := rfl
    have hlt : c < d ↔ c.toNat - '0'.toNat < d.toNat - '0'.toNat := by
      have hval : c < d ↔ c.toNat < d.toNat := Iff.rfl
      rw [hval]
      omega
    have heq : c = d ↔ c.toNat - '0'.toNat = d.toNat - '0'.toNat := by
      rw [← Char.toNat_inj]
      omega
    rw [List.cons_lt_cons_iff, decimal_lt_iff hrest hcs hds, decimal_cons, decimal_cons, hrest, hlt, heq]
    exact (positional_lt_iff (hrest ▸ decimal_lt hcs) (decimal_lt hds)).symm

theorem eq_of_decimal_eq (hlength : cs.length = ds.length) (hcs : ∀ c ∈ cs, c.isDigit = true)
    (hds : ∀ d ∈ ds, d.isDigit = true) (h : decimal cs = decimal ds) : cs = ds := by
  rcases lt_trichotomy cs ds with hlt | heq | hlt
  · have hless := (decimal_lt_iff hlength hcs hds).mp hlt
    omega
  · exact heq
  · have hless := (decimal_lt_iff hlength.symm hds hcs).mp hlt
    omega

end Digits

namespace Text

/-! ### Fields -/

/-- The characters write a number with as many digits as the field has places. -/
def WritesField (width : Nat) (cs : List Char) (n : Nat) : Prop :=
  cs.length = width ∧ Numeral.WritesDecimal cs n

variable {width m n : Nat} {cs ds us vs : List Char}

theorem WritesField.isDigit (h : WritesField width cs n) : ∀ c ∈ cs, c.isDigit = true := by
  have hrun := (Numeral.writesDecimal_iff.mp h.2).1
  simp only [Digits.isRun, Bool.and_eq_true, List.all_eq_true] at hrun
  exact hrun.2

theorem WritesField.decimal_eq (h : WritesField width cs n) : Digits.decimal cs = n :=
  (Numeral.writesDecimal_iff.mp h.2).2

theorem writesField_iff : WritesField width cs n ↔
    cs.length = width ∧ (cs ≠ [] ∧ ∀ c ∈ cs, c.isDigit = true) ∧ Digits.decimal cs = n := by
  simp [WritesField, Numeral.writesDecimal_iff, Digits.isRun]

theorem WritesField.lt (h : WritesField width cs n) : n < 10 ^ width := by
  rw [← h.decimal_eq, ← h.1]
  exact Digits.decimal_lt h.isDigit

theorem WritesField.lt_iff (hm : WritesField width cs m) (hn : WritesField width ds n) :
    cs < ds ↔ m < n := by
  rw [Digits.decimal_lt_iff (hm.1.trans hn.1.symm) hm.isDigit hn.isDigit, hm.decimal_eq, hn.decimal_eq]

theorem WritesField.eq_iff (hm : WritesField width cs m) (hn : WritesField width ds n) :
    cs = ds ↔ m = n := by
  rw [← hm.decimal_eq, ← hn.decimal_eq]
  refine ⟨fun h => h ▸ rfl, Digits.eq_of_decimal_eq (hm.1.trans hn.1.symm) hm.isDigit hn.isDigit⟩

/-! ### The order of texts -/

theorem append_lt_append_iff : ∀ {cs ds : List Char}, cs.length = ds.length →
    (cs ++ us < ds ++ vs ↔ cs < ds ∨ cs = ds ∧ us < vs)
  | [], [], _ => by simp
  | c :: cs, d :: ds, h => by
    simp only [List.cons_append, List.cons_lt_cons_iff, append_lt_append_iff (Nat.succ.inj h),
      List.cons.injEq]
    tauto

/-- **A field decides before all that comes after it.** -/
theorem WritesField.append_lt_iff (hm : WritesField width cs m) (hn : WritesField width ds n)
    (separator : Char) :
    cs ++ separator :: us < ds ++ separator :: vs ↔ m < n ∨ m = n ∧ us < vs := by
  rw [append_lt_append_iff (hm.1.trans hn.1.symm), hm.lt_iff hn, hm.eq_iff hn, List.cons_lt_cons_iff]
  simp

theorem utf8_eq_singleton {c : Char} (h : c.toNat < 128) :
    String.utf8EncodeChar c = [UInt8.ofNat c.toNat] :=
  String.utf8EncodeChar_eq_singleton (utf8Size_eq_one h)

/-- Where each character is one byte, the bytes are ordered as the characters are. -/
theorem utf8_lt_iff : ∀ {cs ds : List Char}, (∀ c ∈ cs, c.toNat < 128) → (∀ d ∈ ds, d.toNat < 128) →
    (cs.flatMap String.utf8EncodeChar < ds.flatMap String.utf8EncodeChar ↔ cs < ds)
  | [], [], _, _ => by simp
  | [], d :: ds, _, hds => by simp [utf8_eq_singleton (hds d List.mem_cons_self)]
  | c :: cs, [], hcs, _ => by simp
  | c :: cs, d :: ds, hcs, hds => by
    obtain ⟨hc, hcs⟩ := List.forall_mem_cons.mp hcs
    obtain ⟨hd, hds⟩ := List.forall_mem_cons.mp hds
    have hbyte : ∀ {x : Char}, x.toNat < 128 → (UInt8.ofNat x.toNat).toNat = x.toNat := fun h =>
      UInt8.toNat_ofNat_of_lt' (h.trans (by decide))
    have hlt : UInt8.ofNat c.toNat < UInt8.ofNat d.toNat ↔ c < d := by
      rw [UInt8.lt_iff_toNat_lt, hbyte hc, hbyte hd]
      rfl
    have heq : UInt8.ofNat c.toNat = UInt8.ofNat d.toNat ↔ c = d := by
      rw [← UInt8.toNat_inj, hbyte hc, hbyte hd, Char.toNat_inj]
    rw [List.flatMap_cons, List.flatMap_cons, utf8_eq_singleton hc, utf8_eq_singleton hd,
      List.singleton_append, List.singleton_append, List.cons_lt_cons_iff, List.cons_lt_cons_iff, hlt, heq,
      utf8_lt_iff hcs hds]

theorem bytes_lt_iff {s t : String} (hs : ∀ c ∈ s.toList, c.toNat < 128)
    (ht : ∀ c ∈ t.toList, c.toNat < 128) : bytes s < bytes t ↔ s.toList < t.toList :=
  utf8_lt_iff hs ht

end Text

end FlowSelect
