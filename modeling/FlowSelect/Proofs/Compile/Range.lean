/-
# The range of constants

A number of a filter has at most the magnitude 2^63 - 1, so the least 64-bit integer is never
written: its own digits could not be read again. The other readers stay far within that range too: a
time has a year of four digits, and protocols and flags are small.

Key definition: `Side.WrittenAs`.
Key theorems: `Number.parse_ne_minValue`, `Timestamp.parse_ne_minValue`, `ValueForm.side_writtenAs`.
-/
import FlowSelect.Proofs.Compile.Leaves
import FlowSelect.Proofs.Time.Timestamp

namespace FlowSelect

/-! ### Numbers -/

/-- **No filter writes the least integer.** -/
theorem Number.parse_ne_minValue {text : String} {n : Int64} (h : parse text = .ok n) :
    n ≠ Int64.minValue := by
  rw [parse_eq_ok_iff, value_eq_ok_iff] at h
  obtain ⟨x, -, hlimit, hvalue⟩ := h
  have habs := x.natAbs_value
  have hmin : Int64.minValue.toInt = -9223372036854775808 := rfl
  rw [limit] at hlimit
  intro hn
  rw [hn] at hvalue
  omega

/-! ### Times -/

theorem Timestamp.parse_ne_minValue {text : String} {n : Int64} (h : parse text = .ok n) :
    n ≠ Int64.minValue := by
  rw [parse_eq_ok_iff] at h
  obtain ⟨t, ht, hreal, hn⟩ := h
  obtain ⟨hlow, -⟩ := ht.seconds_bounds hreal
  have hmin : Int64.minValue.toInt = -9223372036854775808 := rfl
  intro hleast
  rw [hleast] at hn
  omega

/-! ### Words -/

theorem Protocol.parse_ne_minValue {name : String} {n : Int64} (h : parse name = .ok n) :
    n ≠ Int64.minValue := by
  unfold parse at h
  split at h
  · next m hm =>
    cases h
    have hsmall : ∀ e ∈ table, e.2 < 256 := by decide
    obtain ⟨l₁, l₂, htable, -⟩ := List.lookup_eq_some_iff.mp hm
    have hlt : m < 256 := hsmall (lowerCase name, m) (by rw [htable]; simp)
    exact Number.ofNat_ne_minValue (by omega)
  · cases h

theorem TcpFlags.parse_ne_minValue {text : String} {n : Int64} (h : parse text = .ok n) :
    n ≠ Int64.minValue := by
  unfold parse at h
  split at h
  · next m hm =>
    cases h
    exact Number.ofNat_ne_minValue (m.isLt.trans (by decide))
  · cases h

/-! ### Right sides -/

/-- What is known of a right side: a number of it is not the least integer, and a text of it is the
one that the clause holds. -/
def Side.WrittenAs (form : ValueForm) (value : String) : Side → Prop
  | .literal (.number n) => n ≠ Int64.minValue
  | .literal (.timestamp n) => n ≠ Int64.minValue
  | .literal (.quoted text) => form = .quoted ∧ text = value
  | .literal (.word text) => form = .word ∧ text = value
  | _ => True

/-- **The right side of a clause is in range.** -/
theorem ValueForm.side_writtenAs (form : ValueForm) (value : String) :
    Yields (Side.WrittenAs form value) (form.side value) := by
  cases form with
  | timestamp => exact Yields.map (fun _ => Timestamp.parse_ne_minValue) fun _ hn => hn
  | number => exact Yields.map (fun _ => Number.parse_ne_minValue) fun _ hn => hn
  | ip6Subnet => exact Yields.map (P := fun _ => True) (fun _ _ => trivial) fun _ h => h
  | ip6 => exact Yields.map (P := fun _ => True) (fun _ _ => trivial) fun _ h => h
  | ip4Subnet => exact Yields.map (P := fun _ => True) (fun _ _ => trivial) fun _ h => h
  | ip4 => exact Yields.map (P := fun _ => True) (fun _ _ => trivial) fun _ h => h
  | quoted => exact yields_ok ⟨rfl, rfl⟩
  | word => exact yields_ok ⟨rfl, rfl⟩

end FlowSelect
