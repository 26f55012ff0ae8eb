/-
# Characters

UTF-8 loses nothing: bytes are read as a text exactly if they are the bytes of that text, so two texts
with the same bytes are the same. A character below 128 is one byte. Where a character starts can be
seen from the byte alone (`Text.utf8_eq_cons`), and where it ends is settled by its own bytes
(`Text.utf8_append_inj`). Of all characters, lower case moves only the 26 letters in upper case,
and upper case only those in lower case.

Key theorems: `Text.ofBytes?_eq_some_iff`, `Text.bytes_inj`, `Text.utf8_append_inj`, `Text.toLower_cases`,
`Text.toUpper_cases`.
-/
import Mathlib
import FlowSelect.Text.Bytes

namespace FlowSelect
namespace Text

theorem toByteArray_bytes (s : String) : (bytes s).toByteArray = s.toByteArray := by
  rw [← String.utf8Encode_toList]
  rfl

/-- Two texts with the same bytes are the same. -/
theorem bytes_inj {s t : String} : bytes s = bytes t ↔ s = t := by
  rw [← List.toByteArray_inj, toByteArray_bytes, toByteArray_bytes, String.toByteArray_inj]

/-- **Bytes are read as the text whose bytes they are.** -/
theorem ofBytes?_eq_some_iff {bs : List UInt8} {s : String} : ofBytes? bs = some s ↔ bytes s = bs := by
  rw [← List.toByteArray_inj, toByteArray_bytes]
  unfold ofBytes? String.fromUTF8?
  by_cases hvalid : bs.toByteArray.IsValidUTF8
  · rw [dif_pos hvalid, Option.some.injEq, ← String.toByteArray_inj]
    exact eq_comm
  · rw [dif_neg hvalid]
    constructor
    · intro h
      cases h
    · intro h
      rw [← h] at hvalid
      exact absurd s.isValidUTF8 hvalid

theorem bytes_append (s t : String) : bytes (s ++ t) = bytes s ++ bytes t := by
  simp [bytes]

/-- A character below 128 is one byte. -/
theorem utf8Size_eq_one {c : Char} (h : c.toNat < 128) : c.utf8Size = 1 := by
  rw [Char.utf8Size_eq_one_iff, UInt32.le_iff_toNat_le]
  show c.toNat ≤ 127
  omega

theorem bytes_ofNat {n : Nat} (h : n < 128) :
    bytes (String.ofList [Char.ofNat n]) = [UInt8.ofNat n] := by
  have hcode : (Char.ofNat n).toNat = n := by rw [Char.toNat_ofNat, if_pos (.inl (by omega))]
  have hsize : (Char.ofNat n).utf8Size = 1 := utf8Size_eq_one (by omega)
  have hone : bytes (String.ofList [Char.ofNat n]) = [UInt8.ofNat (Char.ofNat n).toNat] := by
    simp only [bytes, String.toList_ofList, List.flatMap_cons, List.flatMap_nil, List.append_nil,
      String.utf8EncodeChar_eq_singleton hsize]
    rfl
  rw [hone, hcode]

/-- A text of characters below 128 has as many bytes as characters. -/
theorem length_bytes {s : String} (h : ∀ c ∈ s.toList, c.toNat < 128) :
    (bytes s).length = s.toList.length := by
  have hone : ∀ c ∈ s.toList, (String.utf8EncodeChar c).length = 1 := by
    intro c hc
    rw [String.length_utf8EncodeChar, utf8Size_eq_one (h c hc)]
  rw [bytes, List.length_flatMap, List.map_congr_left hone]
  simp

/-- A letter in upper case moves by 32 places, and no other character moves. -/
theorem toLower_cases (c : Char) :
    c.toLower = c ∨ 65 ≤ c.toNat ∧ c.toNat ≤ 90 ∧ c.toLower.toNat = c.toNat + 32 := by
  unfold Char.toLower
  split
  · next hupper =>
    have hleast : 65 ≤ c.val.toNat := hupper.1
    have hmost : c.val.toNat ≤ 90 := hupper.2
    have hval : (c.val + 32).toNat = c.val.toNat + 32 := by
      rw [UInt32.toNat_add]
      have h32 : (32 : UInt32).toNat = 32 := rfl
      omega
    exact .inr ⟨hleast, hmost, hval⟩
  · exact .inl rfl

/-- A letter in lower case moves back by 32 places. -/
theorem toUpper_cases (c : Char) : c.toUpper = c ∨ c.toUpper.toNat + 32 = c.toNat := by
  unfold Char.toUpper
  split
  · next hlower =>
    have hleast : 97 ≤ c.val.toNat := hlower.1
    have hmost : c.val.toNat ≤ 122 := hlower.2
    have hval : (c.val + ('A'.val - 'a'.val)).toNat + 32 = c.val.toNat := by
      rw [UInt32.toNat_add]
      have hback : ('A'.val - 'a'.val).toNat = 2 ^ 32 - 32 := rfl
      omega
    exact .inr hval
  · exact .inl rfl

/-- A letter in lower case comes from itself or from the letter 32 places before it. -/
theorem eq_or_of_toLower {c d : Char} (h : c.toLower = d) : c = d ∨ c = Char.ofNat (d.toNat - 32) := by
  rcases toLower_cases c with hsame | ⟨-, -, hmoved⟩
  · exact .inl (hsame ▸ h)
  · right
    rw [← h, hmoved, Nat.add_sub_cancel, Char.ofNat_toNat]

theorem isAlpha_iff {c : Char} : c.isAlpha = true ↔
    65 ≤ c.toNat ∧ c.toNat ≤ 90 ∨ 97 ≤ c.toNat ∧ c.toNat ≤ 122 := by
  simp only [Char.isAlpha, Char.isUpper, Char.isLower, Bool.or_eq_true, Bool.and_eq_true,
    decide_eq_true_eq]
  rfl

/-- What is a letter in lower case is a letter. -/
theorem isAlpha_of_toLower {c : Char} (h : c.toLower.isAlpha = true) : c.isAlpha = true := by
  rcases toLower_cases c with hsame | ⟨hleast, hmost, -⟩
  · rwa [hsame] at h
  · rw [isAlpha_iff]
    exact .inl ⟨hleast, hmost⟩

theorem isDigit_of_isAlpha {c : Char} (h : c.isAlpha = true) : c.isDigit = false := by
  rw [← Bool.not_eq_true]
  intro hdigit
  have hmost : c.toNat ≤ 57 := (Char.isDigit_iff_toNat.mp hdigit).2
  rw [isAlpha_iff] at h
  omega

end Text
end FlowSelect
