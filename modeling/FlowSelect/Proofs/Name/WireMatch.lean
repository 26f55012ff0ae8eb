/-
# Stored names in wire format

On the wire a name is a row of bytes: for each label a byte with its length and then the label, and
perhaps a zero after the last one. Those are exactly the stored texts that are read in wire format
(`Dns.wireForm_iff_bytes`), and the name that is read has the labels with dots between them. A column of
names is then compared by that name: dots at the end and the case of letters do not count, and nothing
else is overlooked (`wire_names_compare_by_labels`).

Key definitions: `Dns.wireBytes`, `Dns.WireBytes`, `Dns.SameName`.
Key theorems: `Dns.wireForm_iff_bytes`, `Dns.decode_eq_normalize_of_wire_iff`,
`wire_names_compare_by_labels`.
-/
import FlowSelect.Proofs.Name.SelfMatch

namespace FlowSelect

namespace Dns

open Text (bytes)

/-! ### Bytes -/

/-- The bytes of labels in wire format, without the final zero. -/
def wireBytes (labels : List String) : List UInt8 :=
  labels.flatMap fun label => UInt8.ofNat (bytes label).length :: bytes label

/-- Bytes are a name in wire format: one label or more, each of 1 to 63 bytes after a byte with its
length, with the final zero or without it. -/
structure WireBytes (labels : List String) (bs : List UInt8) : Prop where
  labels_ne_nil : labels ≠ []
  labels_fit : ∀ label ∈ labels, IsLabel label
  bytes : bs = wireBytes labels ∨ bs = wireBytes labels ++ [0]

theorem bytes_wire : ∀ {labels : List String}, (∀ label ∈ labels, IsLabel label) →
    bytes (wire labels) = wireBytes labels
  | [], _ => by decide
  | label :: labels, h => by
    obtain ⟨hlabel, hlabels⟩ := List.forall_mem_cons.mp h
    rw [wire, bytes_labelled hlabel, bytes_wire hlabels]
    rfl

/-- **A text is in wire format exactly if its bytes are.** -/
theorem wireForm_iff_bytes {labels : List String} {raw : String} :
    WireForm labels raw ↔ WireBytes labels (bytes raw) := by
  have hzero : bytes "\x00" = [0] := by decide
  constructor
  · rintro ⟨hne, hfit, htext⟩
    refine ⟨hne, hfit, ?_⟩
    rw [← bytes_wire hfit]
    rcases htext with rfl | rfl
    · exact .inl rfl
    · exact .inr (by rw [Text.bytes_append, hzero])
  · rintro ⟨hne, hfit, hbytes⟩
    refine ⟨hne, hfit, ?_⟩
    rw [← bytes_wire hfit] at hbytes
    rcases hbytes with hbytes | hbytes
    · exact .inl (Text.bytes_inj.mp hbytes)
    · refine .inr (Text.bytes_inj.mp ?_)
      rw [hbytes, Text.bytes_append, hzero]

/-! ### Names -/

/-- Two texts write the same name: they agree once the dots at their ends are removed and their letters
are in lower case. -/
def SameName (a b : String) : Prop := trimmed (lower a) = trimmed (lower b)

instance decidableSameName (a b : String) : Decidable (SameName a b) :=
  inferInstanceAs (Decidable (_ = _))

theorem normalize_inj {a b : String} : normalize a = normalize b ↔ SameName a b := by
  rw [normalize_eq, normalize_eq, String.ofList_inj]
  rfl

/-- A name in wire format is read as another name exactly if its labels write that name. -/
theorem decode_eq_normalize_of_wire_iff {labels : List String} {raw : String}
    (h : WireBytes labels (bytes raw)) (name : String) :
    decode raw = normalize name ↔ SameName (String.intercalate "." labels) name := by
  rw [decode_of_wireForm (wireForm_iff_bytes.mpr h), normalize_inj]

end Dns

/-! ### Columns of names -/

/-- A part that stores a name in wire format is equal to a text if the labels write it, and differs from
it if they do not. -/
theorem wire_accepts_iff {row : Row} {part : String} {labels : List String}
    (h : row.Holds (fun w => Dns.WireBytes labels (Text.bytes w)) part) (s : String) :
    ((comparison (.decoded .dns part) .eq (.text (Dns.normalize s))).accepts row = true ↔
        Dns.SameName (String.intercalate "." labels) s) ∧
      ((comparison (.decoded .dns part) .ne (.text (Dns.normalize s))).accepts row = true ↔
        ¬Dns.SameName (String.intercalate "." labels) s) := by
  obtain ⟨w, hw, hwire⟩ := h
  rw [decoded_accepts hw, decoded_accepts hw, ← Dns.decode_eq_normalize_of_wire_iff hwire]
  simp

/-- **Names in wire format are read by their labels and compared by them.** A stored text has a name in
wire format exactly if its bytes are labels after their lengths, with a final zero or without it, and the
name has the labels with dots between them. Where every part of a column stores such a text, `==` accepts
the row exactly if the labels of some part write the given name, and `!=` exactly if those of some part
do not. -/
theorem wire_names_compare_by_labels :
    (∀ w name : String, Dns.wireName? w = some name ↔
        ∃ labels, Dns.WireBytes labels (Text.bytes w) ∧ name = String.intercalate "." labels) ∧
      ∀ (c : Column), c.Decodes .dns → ∀ (l : Literal) (s : String), l.text? = some s →
        ∃ p q : Predicate, (Side.column c).compare .eq (.literal l) = .ok p ∧
          (Side.column c).compare .ne (.literal l) = .ok q ∧
          ∀ (row : Row) (labels : String → List String),
            (∀ part ∈ c.parts, row.Holds (fun w => Dns.WireBytes (labels part) (Text.bytes w)) part) →
              (p.accepts row = true ↔
                ∃ part ∈ c.parts, Dns.SameName (String.intercalate "." (labels part)) s) ∧
              (q.accepts row = true ↔
                ∃ part ∈ c.parts, ¬Dns.SameName (String.intercalate "." (labels part)) s) := by
  refine ⟨?_, ?_⟩
  · intro w name
    simp only [Dns.wireName?_eq_some_iff, Dns.wireForm_iff_bytes]
  · intro c hc l s hl
    have hs : Semantics.constant? .dns s = some (Dns.normalize s) := rfl
    obtain ⟨p, hp⟩ := (hc.exists_compare_iff hl (r := .eq) rfl).mpr ⟨_, hs⟩
    obtain ⟨q, hq⟩ := (hc.exists_compare_iff hl (r := .ne) rfl).mpr ⟨_, hs⟩
    refine ⟨p, q, hp, hq, ?_⟩
    intro row labels hstored
    rw [hc.compare_accepts_iff hl rfl hs hp, hc.compare_accepts_iff hl rfl hs hq]
    refine ⟨exists_congr fun part => and_congr_right fun hpart => ?_,
      exists_congr fun part => and_congr_right fun hpart => ?_⟩
    · exact (wire_accepts_iff (hstored part hpart) s).1
    · exact (wire_accepts_iff (hstored part hpart) s).2

/-- Three labels and a final zero; the last label holds a character of two bytes, and a dot at the end of
it falls away. -/
theorem wire_names_compare_by_labels_rooted :
    let c : Column := ⟨"%dns", ["e8057id4"], some .text, some .dns, none⟩
    let labels := ["WWW", "Example", "é."]
    let row : Row := ⟨[("e8057id4", .text "\x03WWW\x07Example\x03é.\x00")]⟩
    c.Decodes .dns ∧ Literal.text? (.quoted "www.example.é") = some "www.example.é" ∧
      row.Holds (fun w => Dns.WireBytes labels (Text.bytes w)) "e8057id4" ∧
      ∃ p q, (Side.column c).compare .eq (.literal (.quoted "www.example.é")) = .ok p ∧
        (Side.column c).compare .ne (.literal (.quoted "www.example.é")) = .ok q ∧
        p.accepts row = true ∧ q.accepts row = false := by
  intro c labels row
  have hc : c.Decodes .dns := ⟨rfl, rfl, .inl rfl, by decide⟩
  have hl : Literal.text? (.quoted "www.example.é") = some "www.example.é" := rfl
  have hwire : row.Holds (fun w => Dns.WireBytes labels (Text.bytes w)) "e8057id4" := by
    refine ⟨_, rfl, ?_⟩
    exact ⟨by simp [labels], by decide, .inr (by decide)⟩
  have hsame : Dns.SameName (String.intercalate "." labels) "www.example.é" := by decide
  obtain ⟨p, q, hp, hq, hrows⟩ := wire_names_compare_by_labels.2 c hc _ _ hl
  have hstored : ∀ part ∈ c.parts, row.Holds (fun w => Dns.WireBytes labels (Text.bytes w)) part := by
    intro part hpart
    rw [List.mem_singleton.mp hpart]
    exact hwire
  obtain ⟨hequal, hdiffers⟩ := hrows row (fun _ => labels) hstored
  refine ⟨hc, hl, hwire, p, q, hp, hq, ?_, ?_⟩
  · exact hequal.mpr ⟨_, List.mem_singleton.mpr rfl, hsame⟩
  · rw [← Bool.not_eq_true, hdiffers]
    rintro ⟨part, -, hother⟩
    exact hother hsame

end FlowSelect
