/-
# Names in wire format

A name in wire format is a list of labels of 1 to 63 bytes, each after a character whose code is the
length of the label, and perhaps a zero at the end. The reader takes label after label and gives the
labels of exactly those texts (`Dns.wireName?_eq_some_iff`), so every other text is read as it is.

Key definitions: `Dns.IsLabel`, `Dns.wire`, `Dns.WireForm`.
Key theorems: `Dns.labels?_wire`, `Dns.wire_of_labels?`, `Dns.wireName?_eq_some_iff`.
-/
import FlowSelect.Name.Dns
import FlowSelect.Proofs.Text.Characters

namespace FlowSelect
namespace Dns

open Text (bytes)

/-- A label has 1 to 63 bytes. -/
def IsLabel (label : String) : Prop := 1 ≤ (bytes label).length ∧ (bytes label).length ≤ 63

instance decidableIsLabel (label : String) : Decidable (IsLabel label) :=
  inferInstanceAs (Decidable (_ ∧ _))

/-- A label after the character whose code is its length. -/
def labelled (label : String) : String := String.ofList [Char.ofNat (bytes label).length] ++ label

/-- Labels in wire format, without the final zero. -/
def wire : List String → String
  | [] => ""
  | label :: labels => labelled label ++ wire labels

/-- A text is a name in wire format: one label or more, with the final zero or without it. -/
structure WireForm (labels : List String) (raw : String) : Prop where
  labels_ne_nil : labels ≠ []
  labels_fit : ∀ label ∈ labels, IsLabel label
  text : raw = wire labels ∨ raw = wire labels ++ "\x00"

variable {label : String} {labels : List String}

theorem bytes_labelled (h : IsLabel label) (rest : String) :
    bytes (labelled label ++ rest) = UInt8.ofNat (bytes label).length :: (bytes label ++ bytes rest) := by
  have hlt : (bytes label).length < 128 := by
    have := h.2
    omega
  rw [labelled, Text.bytes_append, Text.bytes_append, Text.bytes_ofNat hlt]
  simp

/-- The reader takes a label off the front. -/
theorem labels?_labelled (h : IsLabel label) (bs : List UInt8) :
    labels? (UInt8.ofNat (bytes label).length :: (bytes label ++ bs)) =
      (labels? bs).map (label :: ·) := by
  obtain ⟨hpos, hmost⟩ := h
  have htoNat : (UInt8.ofNat (bytes label).length).toNat = (bytes label).length := by
    rw [UInt8.toNat_ofNat']
    omega
  have hne : UInt8.ofNat (bytes label).length ≠ 0 := by
    intro hzero
    rw [hzero] at htoNat
    have : (0 : UInt8).toNat = 0 := rfl
    omega
  have hread : Text.ofBytes? (bytes label) = some label := Text.ofBytes?_eq_some_iff.mpr rfl
  rw [labels?, if_neg hne, if_pos ⟨by omega, by rw [htoNat, List.length_append]; omega⟩, htoNat,
    List.take_left, List.drop_left, hread]
  cases labels? bs <;> rfl

theorem labels?_wire : ∀ {labels : List String}, (∀ label ∈ labels, IsLabel label) →
    ∀ {raw : String}, raw = wire labels ∨ raw = wire labels ++ "\x00" →
      labels? (bytes raw) = some labels
  | [], _, raw, htext => by
    have hempty : bytes "" = [] ∧ bytes "\x00" = [0] := by decide
    rcases htext with rfl | rfl
    · rw [wire, hempty.1, labels?]
    · rw [wire, String.empty_append, hempty.2, labels?]
      rfl
  | label :: labels, hfit, raw, htext => by
    obtain ⟨hlabel, hlabels⟩ := List.forall_mem_cons.mp hfit
    obtain ⟨rest, hrest, rfl⟩ : ∃ rest, (rest = wire labels ∨ rest = wire labels ++ "\x00") ∧
        raw = labelled label ++ rest := by
      rcases htext with rfl | rfl
      · exact ⟨_, .inl rfl, rfl⟩
      · exact ⟨_, .inr rfl, String.append_assoc⟩
    rw [bytes_labelled hlabel, labels?_labelled hlabel, labels?_wire hlabels hrest]
    rfl

/-- What the reader takes are labels in wire format. -/
theorem wire_of_labels? {bs : List UInt8} {labels : List String} (h : labels? bs = some labels) :
    (∀ label ∈ labels, IsLabel label) ∧
      (bs = bytes (wire labels) ∨ bs = bytes (wire labels ++ "\x00")) := by
  fun_induction labels? bs generalizing labels with
  | case1 =>
    cases h
    exact ⟨by simp, .inl (by decide)⟩
  | case2 rest hrest =>
    cases h
    rw [List.isEmpty_iff.mp hrest]
    exact ⟨by simp, .inr (by decide)⟩
  | case3 => cases h
  | case4 len rest hzero hlen label labels' hrest hlabel ih =>
    cases h
    obtain ⟨hfit, htext⟩ := ih hrest
    obtain ⟨hmost, hle⟩ := hlen
    have hbytes : bytes label = rest.take len.toNat := Text.ofBytes?_eq_some_iff.mp hlabel
    have hlength : (bytes label).length = len.toNat := by rw [hbytes, List.length_take_of_le hle]
    have hpos : len.toNat ≠ 0 := fun h => hzero (UInt8.toNat_inj.mp h)
    have hfits : IsLabel label := ⟨by omega, by omega⟩
    have hsplit : len :: rest =
        UInt8.ofNat (bytes label).length :: (bytes label ++ rest.drop len.toNat) := by
      rw [hlength, UInt8.ofNat_toNat, hbytes, List.take_append_drop]
    refine ⟨List.forall_mem_cons.mpr ⟨hfits, hfit⟩, ?_⟩
    rw [hsplit, wire, String.append_assoc, bytes_labelled hfits, bytes_labelled hfits]
    rcases htext with htext | htext
    · exact .inl (by rw [htext])
    · exact .inr (by rw [htext])
  | case5 => cases h
  | case6 => cases h

/-- **A text has a name in wire format exactly if it is in wire format**, and the name is its labels
with dots between them. -/
theorem wireName?_eq_some_iff {raw name : String} :
    wireName? raw = some name ↔ ∃ labels, WireForm labels raw ∧ name = String.intercalate "." labels := by
  unfold wireName?
  constructor
  · intro h
    split at h
    · cases h
    · next labels hne hlabels =>
      obtain ⟨hfit, htext⟩ := wire_of_labels? hlabels
      rw [Text.bytes_inj, Text.bytes_inj] at htext
      exact ⟨labels, ⟨hne, hfit, htext⟩, (Option.some.inj h).symm⟩
    · cases h
  · rintro ⟨labels, ⟨hne, hfit, htext⟩, rfl⟩
    rw [labels?_wire hfit htext]
    cases labels with
    | nil => exact absurd rfl hne
    | cons label labels => rfl

theorem decode_of_wireForm {raw : String} (h : WireForm labels raw) :
    decode raw = normalize (String.intercalate "." labels) := by
  have hname : wireName? raw = some (String.intercalate "." labels) := by
    rw [wireName?_eq_some_iff]
    exact ⟨labels, h, rfl⟩
  rw [decode, hname]

end Dns
end FlowSelect
