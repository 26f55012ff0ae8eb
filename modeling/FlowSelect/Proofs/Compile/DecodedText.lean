/-
# Columns whose texts are decoded

A column of DNS names or of URLs is compared by what its texts stand for. A stored text is decoded
first, and one that cannot be decoded stands in no relation to anything. The text of the filter is
brought into the same form when the filter is compiled, and a text without such a form is a fault
(`Column.Decodes.exists_compare_iff`). The column then holds if one of its parts does
(`Column.Decodes.compare_accepts_iff`).

Key definitions: `Literal.text?`, `Semantics.constant?`, `Column.Decodes`.
Key theorems: `decoded_accepts_iff`, `Column.Decodes.compare_eq_ok_iff`.
-/
import FlowSelect.Proofs.Compile.Union

namespace FlowSelect

/-- The text of a literal that is compared as a text, in quotes or as a bare word. -/
def Literal.text? : Literal → Option String
  | .quoted s => some s
  | .word s => some s
  | _ => none

/-- A text of a filter in the form that decoded texts are compared in, if it has one. -/
def Semantics.constant? (d : Semantics) (text : String) : Option String :=
  match d with
  | .dns => some (Dns.normalize text)
  | .url => Url.decode? text
  | .protocol | .flags => some text

/-- A column of texts that are decoded before they are compared. -/
structure Column.Decodes (c : Column) (d : Semantics) : Prop where
  kind : c.kind = some .text
  semantics : c.semantics = some d
  decoded : d = .dns ∨ d = .url
  parts_ne_nil : c.parts ≠ []

/-- **A decoded part is compared by the text that its cell stands for.** -/
theorem decoded_accepts_iff {row : Row} {part s : String} {d : Semantics} {r : Relation} :
    (comparison (.decoded d part) r (.text s)).accepts row = true ↔
      ∃ stored u, row.get? part = some (.text stored) ∧ d.decode? stored = some u ∧
        (r = .eq ∧ u = s ∨ r = .ne ∧ u ≠ s) := by
  rw [Predicate.accepts_comparison, Comparison.Holds]
  simp only [Operand.value?]
  rcases row.get? part with _ | n | n | stored
  · simp
  · simp [Cell.scalar, Scalar.Related]
  · simp [Cell.scalar, Scalar.Related]
  · cases hdecode : d.decode? stored with
    | none => simp [hdecode]
    | some u => simp [hdecode, Scalar.Related]

namespace Column.Decodes

variable {c : Column} {d : Semantics} {l : Literal} {text s : String} {r : Relation} {p : Predicate}

/-- The column is compared with the text of the literal, however that is written. -/
theorem compare_eq_compareText (hc : c.Decodes d) (hl : l.text? = some text) (r : Relation) :
    (Side.column c).compare r (.literal l) =
      Target.compareText ⟨c, false, none⟩ r (.literal l) text := by
  have hsingle : (Side.column c).compare r (.literal l) = Target.compareLiteral ⟨c, false, none⟩ r l :=
    compileAll_single _
  rw [hsingle]
  cases l with
  | quoted u =>
    obtain rfl : u = text := by simpa [Literal.text?] using hl
    rfl
  | word u =>
    obtain rfl : u = text := by simpa [Literal.text?] using hl
    rw [Target.compareLiteral, Target.compareWord]
    -- a bare word has no meaning of its own among names and URLs
    rcases hc.decoded with rfl | rfl <;> rw [hc.semantics]
  | _ => cases hl

/-- **What a decoded column compiles to**: one comparison for each part with the text in decoded form,
if it has one. -/
theorem compare_eq_ok_iff (hc : c.Decodes d) (hl : l.text? = some text) (hr : r.isOrdering = false) :
    (Side.column c).compare r (.literal l) = .ok p ↔
      ∃ s, d.constant? text = some s ∧
        Target.eachPart? ⟨c, false, none⟩ (fun part => comparison (.decoded d part) r (.text s)) = some p := by
  have hkind : Target.accepts ⟨c, false, none⟩ [.text] = true := by simp [Target.accepts, hc.kind]
  have hoperand : ∀ part, Target.textOperand ⟨c, false, none⟩ part = .decoded d part := by
    intro part
    rcases hc.decoded with rfl | rfl <;> simp [Target.textOperand, hc.semantics, Target.decoding]
  have hparts : ∀ s, ∃ q, Target.eachPart? ⟨c, false, none⟩
      (fun part => comparison (.decoded d part) r (.text s)) = some q := fun s =>
    Target.eachPart?_of_parts hc.parts_ne_nil _
  have hconstant : ∀ s, Target.textConstant ⟨c, false, none⟩ text = .ok s ↔ d.constant? text = some s := by
    intro s
    unfold Target.textConstant
    rcases hc.decoded with rfl | rfl
    · simp [hc.semantics, Semantics.constant?]
    · simp only [hc.semantics, Semantics.constant?]
      cases Url.decode? text <;> simp
  rw [hc.compare_eq_compareText hl]
  simp only [Target.compareText, hkind, hr, Bool.not_true, Bool.false_eq_true, if_false, Option.isSome_none,
    Bool.or_self, hoperand]
  cases htext : Target.textConstant ⟨c, false, none⟩ text with
  | error fault =>
    simp [← hconstant, htext]
  | ok s =>
    obtain ⟨q, hq⟩ := hparts s
    simp [(hconstant s).mp htext, hq]

/-- A decoded column compiles if the text has a decoded form. -/
theorem exists_compare_iff (hc : c.Decodes d) (hl : l.text? = some text) (hr : r.isOrdering = false) :
    (∃ p, (Side.column c).compare r (.literal l) = .ok p) ↔ ∃ s, d.constant? text = some s := by
  simp only [hc.compare_eq_ok_iff hl hr]
  constructor
  · rintro ⟨p, s, hs, -⟩
    exact ⟨s, hs⟩
  · rintro ⟨s, hs⟩
    obtain ⟨p, hp⟩ := Target.eachPart?_of_parts (t := ⟨c, false, none⟩) hc.parts_ne_nil
      fun part => comparison (.decoded d part) r (.text s)
    exact ⟨p, s, hs, hp⟩

/-- It accepts the rows that the comparison of one of its parts accepts. -/
theorem compare_accepts_iff (hc : c.Decodes d) (hl : l.text? = some text) (hr : r.isOrdering = false)
    (hs : d.constant? text = some s) (hp : (Side.column c).compare r (.literal l) = .ok p) (row : Row) :
    p.accepts row = true ↔
      ∃ part ∈ c.parts, (comparison (.decoded d part) r (.text s)).accepts row = true := by
  obtain ⟨s', hs', hparts⟩ := (hc.compare_eq_ok_iff hl hr).mp hp
  obtain rfl : s = s' := Option.some.inj (hs.symm.trans hs')
  exact Target.eachPart?_accepts hparts

end Column.Decodes

end FlowSelect
