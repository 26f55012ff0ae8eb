/-
# Engine texts are fixed points of the compiler

The text that a filter hands to an engine is a filter text again, and compiling it changes nothing
more (`engineText_is_fixed_point`). Its columns are stored columns, so no schema is asked; numbers
come back signed and words as quoted texts, which are written the same. Chains come back joined from
the left, and their text does not show it: a member of a chain is in brackets if and only if it is a
chain of the other connective (`Predicate.readsAs`).

Key definitions: `Comparison.isPlain`, `Predicate.ReadsAs`.
Key theorems: `Predicate.readsAs`, `compileText_legible`, `engineText_is_fixed_point`.
-/
import FlowSelect.Proofs.Compile.Range
import FlowSelect.Proofs.Engine.Legible
import FlowSelect.Proofs.Pushdown

namespace FlowSelect

/-! ### The text of what is read -/

theorem Constant.settled_render (k : Constant) : k.settled.render = k.render := by
  unfold settled
  split
  · next n =>
    split
    · next hn =>
      rw [render, toInt_ofInt_toNat hn]
      rfl
    · rfl
  · rfl

theorem Comparison.settled_render (c : Comparison) : c.settled.render = c.render := by
  simp [render, settled, Constant.settled_render]

namespace Predicate

theorem memberText_join (k : Connective) (p q : Predicate) : memberText k (k.join p q) = text (k.join p q) := by
  rw [memberText, Connective.rooted_join, decide_eq_false (Connective.ne_other k)]
  rfl

/-- After a member of a chain, a predicate's text is read as the next member: what is read is a chain
with the text of the two. -/
def ReadsAfter (k : Connective) (a p : Predicate) : Prop :=
  ∃ b c, (p.layout.wrap (p.rooted k.other)).readingAfter (some (k, a)) = k.join b c ∧
    text (k.join b c) = linkedText k (a.memberText k) (p.memberText k)

/-- Reading a predicate's text back gives the same text: alone, and after a member of a chain. -/
structure ReadsAs (p : Predicate) : Prop where
  text : p.layout.reading.text = p.text
  rooted : ∀ k, p.layout.reading.rooted k = p.rooted k
  after : ∀ k a, ReadsAfter k a p

theorem memberText_congr {p q : Predicate} (htext : p.text = q.text)
    (hrooted : ∀ k, p.rooted k = q.rooted k) (k : Connective) : p.memberText k = q.memberText k := by
  rw [memberText, memberText, htext, hrooted]

theorem readsAs_atom (c : Comparison) : ReadsAs (.atom c) := by
  have htext : Predicate.text (.atom c.settled) = Predicate.text (.atom c) := c.settled_render
  have hrooted : ∀ (k : Connective) (x : Comparison), Formula.rooted k (.atom x) = false := by
    intro k x
    cases k <;> rfl
  have hsame : ∀ k, Formula.rooted k (.atom c.settled) = Formula.rooted k (.atom c) := fun k => by
    rw [hrooted, hrooted]
  refine ⟨htext, hsame, fun k a => ⟨a, .atom c.settled, ?_, ?_⟩⟩
  · rw [hrooted]
    rfl
  · rw [text_join, memberText_congr htext hsame]

theorem readsAs_join (k : Connective) {l r : Predicate} (hl : l.ReadsAs) (hr : r.ReadsAs) :
    ReadsAs (k.join l r) := by
  have hwrap : ∀ b : Bool, (l.layout.wrap b).readingAfter none = l.layout.reading := by
    intro b
    cases b <;> rfl
  obtain ⟨b, c, hread, htext⟩ := hr.after k l.layout.reading
  have hreading : (layout (k.join l r)).reading = k.join b c := by
    rw [layout_join, Engine.Layout.reading, Engine.Layout.readingAfter, hwrap, hread]
  have htext : (layout (k.join l r)).reading.text = text (k.join l r) := by
    rw [hreading, htext, memberText_congr hl.text hl.rooted, text_join]
  have hrooted : ∀ k', (layout (k.join l r)).reading.rooted k' = (k.join l r).rooted k' := by
    intro k'
    rw [hreading, Connective.rooted_join, Connective.rooted_join]
  refine ⟨htext, hrooted, fun k' a => ?_⟩
  by_cases hk : k = k'.other
  · -- a chain of the other connective is read in its brackets
    refine ⟨a, (layout (k.join l r)).reading, ?_, ?_⟩
    · rw [Connective.rooted_join, decide_eq_true hk]
      rfl
    · rw [text_join, memberText_congr htext hrooted]
  · obtain rfl : k = k' := by cases k <;> cases k' <;> simp_all [Connective.other]
    -- the members of the left side come first, each joined to what was read before
    obtain ⟨b', c', hleft, htext'⟩ := hl.after k a
    obtain ⟨b'', c'', hright, htext''⟩ := hr.after k (k.join b' c')
    refine ⟨b'', c'', ?_, ?_⟩
    · rw [← hright, ← hleft, Connective.rooted_join, decide_eq_false hk, layout_join]
      rfl
    · rw [htext'', memberText_join, htext', memberText_join, text_join]
      simp only [linkedText, String.append_assoc]

/-- **Reading a predicate's text back gives the same text.** -/
theorem readsAs : ∀ p : Predicate, p.ReadsAs
  | .atom c => readsAs_atom c
  | .and l r => readsAs_join .and (readsAs l) (readsAs r)
  | .or l r => readsAs_join .or (readsAs l) (readsAs r)

end Predicate

/-! ### What a filter hands over can be written in a filter -/

/-- Whether an aggregate stands in an operand. -/
def Operand.hasAggregate : Operand → Bool
  | .aggregate _ _ => true
  | .masked operand _ _ => operand.hasAggregate
  | _ => false

/-- Whether a filter can write a constant: numbers from 2^63 on and backslashes are beyond it. -/
def Constant.isPlain : Constant → Bool
  | .int _ => true
  | .uint n => n.toNat ≤ 2 ^ 63 - 1
  | .text s => !s.toList.contains '\\'

/-- Whether a comparison has no aggregate in it, and a constant that a filter can write. -/
def Comparison.isPlain (c : Comparison) : Bool := !c.operand.hasAggregate && c.constant.isPlain

theorem Comparison.isPlain_iff {c : Comparison} :
    c.isPlain = true ↔ c.operand.hasAggregate = false ∧ c.constant.isPlain = true := by
  simp [isPlain]

namespace Target

variable {t : Target}

theorem operand_legible {part : String} (hpart : Text.isRawColumn part = true)
    (hmask : ∀ op n, t.mask = some (op, n) → n ≠ Int64.minValue)
    (haggregate : (t.operand part).hasAggregate = false) : (t.operand part).Legible := by
  obtain ⟨column, aggregate, mask⟩ := t
  cases aggregate with
  | true => rcases mask with _ | ⟨op, n⟩ <;> cases haggregate
  | false =>
    rcases mask with _ | ⟨op, n⟩
    · exact hpart
    · exact ⟨hpart, hmask op n rfl⟩

/-- Of a text that is not decoded, the comparison has the column and the text as they are. -/
theorem text_undecoded {r : Relation} {part text s : String} (htext : t.textConstant text = .ok s)
    (hrow : Comparison.needsRow ⟨t.textOperand part, r, .text s⟩ = false) :
    t.textOperand part = .column part ∧ text = s := by
  unfold textConstant at htext
  unfold textOperand at hrow ⊢
  rcases hsemantics : t.column.semantics with _ | semantics
  · rw [hsemantics] at htext
    exact ⟨rfl, Except.ok.inj htext⟩
  · rw [hsemantics] at htext hrow
    cases semantics with
    | dns | url => cases hrow
    | _ => exact ⟨rfl, Except.ok.inj htext⟩

/-- **A comparison that a target gives can be written in a filter**, if it is plain and needs no look
at the row. -/
theorem Leaf.legible {right : Side} {c : Comparison} {form : ValueForm} {value : String}
    (h : t.Leaf right c) (hparts : ∀ part ∈ t.column.parts, Text.isRawColumn part = true)
    (hmask : ∀ op n, t.mask = some (op, n) → n ≠ Int64.minValue) (hright : right.WrittenAs form value)
    (hquote : form = .quoted ∨ form = .word → '"' ∉ value.toList) (hplain : c.isPlain = true)
    (hrow : c.needsRow = false) : c.Legible := by
  rw [Comparison.isPlain_iff] at hplain
  obtain ⟨haggregate, hconstant⟩ := hplain
  have hnumber : ∀ {part : String} {r : Relation} {k : Constant}, part ∈ t.column.parts →
      (t.operand part).hasAggregate = false → k.Legible → (∀ s, k ≠ .text s) →
      Comparison.Legible ⟨t.operand part, r, k⟩ := fun hpart haggregate hk htext =>
    ⟨operand_legible (hparts _ hpart) hmask haggregate, hk, fun s hs => absurd hs (htext s)⟩
  have huint : ∀ {n : UInt64}, (Constant.uint n).isPlain = true → (Constant.uint n).Legible := by
    intro n hn
    have hle : n.toNat ≤ 2 ^ 63 - 1 := by simpa [Constant.isPlain] using hn
    change n.toNat < 2 ^ 63
    omega
  cases h with
  | number hpart | timestamp hpart => exact hnumber hpart haggregate hright nofun
  | ip4 hpart r a | ip4Bound hpart r s a =>
    exact hnumber hpart haggregate (Number.ofNat_ne_minValue (a.isLt.trans (by decide))) nofun
  | ip6 hpart | ip6Bound hpart => exact hnumber hpart haggregate (huint hconstant) nofun
  | protocol hpart r hsemantics hword =>
    exact hnumber hpart haggregate (Protocol.parse_ne_minValue hword) nofun
  | @flags part hpart r word n hsemantics hr hnone hword =>
    -- the flags are the mask and the constant
    have hn := TcpFlags.parse_ne_minValue hword
    have hflags : ∀ op m, some (BitOperator.and, n) = some (op, m) → m ≠ Int64.minValue := by
      rintro _ _ ⟨⟩
      exact hn
    exact ⟨operand_legible (t := { t with mask := some (.and, n) }) (hparts _ hpart) hflags haggregate,
      hn, nofun⟩
  | @text _ hpart _ _ text _ hform hkind hr hnone _ htext =>
    obtain ⟨hcolumn, rfl⟩ := text_undecoded htext hrow
    have hvalue : '"' ∉ text.toList := by
      rcases hform with rfl | rfl
      · obtain ⟨hform, rfl⟩ := hright
        exact hquote (.inl hform)
      · obtain ⟨hform, rfl⟩ := hright
        exact hquote (.inr hform)
    have hbackslash : '\\' ∉ text.toList := by simpa [Constant.isPlain] using hconstant
    refine ⟨?_, ⟨hvalue, hbackslash⟩, fun _ _ => ⟨hr, _, hcolumn⟩⟩
    rw [hcolumn]
    exact hparts _ hpart

end Target

variable {s : Schema}

/-- A schema whose columns are stored under element numbers. -/
def Schema.Raw (s : Schema) : Prop := ∀ c ∈ s.columns, ∀ part ∈ c.parts, Text.isRawColumn part = true

theorem ColumnName.Stands.raw (hs : s.Raw) {n : ColumnName} (hn : n.WellWritten) {c : Column}
    (h : n.Stands s c) : ∀ part ∈ c.parts, Text.isRawColumn part = true := by
  cases n with
  | raw name =>
    obtain rfl : c = Column.raw name := h
    have hname : Text.isRawColumn name = true := hn
    simpa [Column.raw] using hname
  | registered name =>
    obtain ⟨_, spec, hspec, rfl⟩ := h
    exact hs spec hspec

/-- **The plain comparisons of a filter can be written in a filter**, those apart that need a look at
the row. -/
theorem compileText_legible (hs : s.Raw) {text : String} {p : Predicate}
    (h : compileText s text = .ok (some p)) :
    ∀ c ∈ p.atoms, c.isPlain = true → c.needsRow = false → c.Legible := by
  intro c hc hplain hrow
  obtain ⟨clause, hclause, left, right, hleft, hright, ts, t, hts, ht, hleaf⟩ := compileText_leaves h c hc
  obtain ⟨hstands, hmask⟩ := Subject.mem_targets hleft hts ht
  refine hleaf.legible (hstands.raw hs hclause.subject.columnName) (fun op n hn => ?_)
    (clause.form.side_writtenAs clause.value right hright) hclause.unquoted hplain hrow
  obtain ⟨number, hnumber⟩ := hmask op n hn
  exact Number.parse_ne_minValue hnumber

/-! ### Filters -/

theorem Predicate.engineText_eq_text {p : Predicate} (h : ∀ c ∈ p.atoms, c.needsRow = false) :
    p.engineText = p.text := by
  have hself : p.pushdown? = some p := Formula.relax_eq_self fun c hc => by simp [h c hc]
  rw [engineText, hself]

theorem Predicate.needsRow_eq_false {p : Predicate} (h : ∀ c ∈ p.atoms, c.needsRow = false) :
    p.needsRow = false := by
  rw [needsRow, List.any_eq_false]
  exact fun c hc => by simp [h c hc]

/-- The text of a layout does not consist of blanks. -/
theorem Engine.Layout.not_blank : ∀ l : Layout, Text.isAllBlank l.text = false
  | .atom c => by
    have hsymbol : c.relation.symbol.toList.all Text.isBlank = false := by
      cases c.relation <;> decide
    simp [text, Comparison.render, Text.isAllBlank, hsymbol]
  | .group inner => by
    have hopen : Text.isBlank '(' = false := by decide
    simp [text, Text.isAllBlank, hopen]
  | .join k left right => by
    have hleft : left.text.toList.all Text.isBlank = false := left.not_blank
    simp [text, Text.isAllBlank, hleft]

/-- What an engine gets of a plain predicate compiles to what is read from its layout. -/
theorem compileText_pushdown {s : Schema} (hs : s.Raw) {text : String} {p q : Predicate}
    (h : compileText s text = .ok (some p)) (hplain : ∀ c ∈ p.atoms, c.isPlain = true)
    (hq : p.pushdown? = some q) : compileText s q.text = .ok (some q.layout.reading) := by
  rw [← q.layout_text]
  refine Engine.Layout.compileText_text s q.layout_even fun c hc => ?_
  rw [q.layout_formula] at hc
  obtain ⟨hmem, hexact⟩ := Formula.mem_atoms_of_relax hq c hc
  exact compileText_legible hs h c hmem (hplain c hmem) (by simpa using hexact)

/-- What is read from the layout of what an engine gets needs no look at a row. -/
theorem Predicate.pushdown_needs_no_row {p q : Predicate} (hq : p.pushdown? = some q) :
    ∀ c ∈ q.layout.reading.atoms, c.needsRow = false := by
  refine (Engine.Layout.readingAfter_all fun c hc => ?_).1
  rw [q.layout_formula] at hc
  have hexact : c.needsRow = false := by simpa using (Formula.mem_atoms_of_relax hq c hc).2
  exact hexact

/-- **The text that a filter hands to an engine is a fixed point of the compiler.** Where the columns of
the schema are stored under element numbers and the comparisons are plain, it compiles with the same
schema. The filter it compiles to hands over the same text and needs no look at a row, and it accepts
the rows that the predicate accepts without the comparisons that do. -/
theorem engineText_is_fixed_point (c : Configuration) (hraw : c.schema.Raw) (f : Filter)
    (hf : Filter.compile c = .ok f) (hplain : ∀ p ∈ f.predicate, ∀ a ∈ p.atoms, a.isPlain = true) :
    ∃ g, Filter.compile { c with filter := f.predicateText } = .ok g ∧
      g.predicateText = f.predicateText ∧ g.needsRow = false ∧
      ∀ row : Row, g.accepts row = (f.predicate.bind Predicate.pushdown?).all (Predicate.accepts row) := by
  obtain ⟨o, rfl, hcases⟩ := Filter.compile_eq_ok_iff.mp hf
  have hlayout := (Filter.ofPredicate c o).predicateText_eq
  have hpredicate : (Filter.ofPredicate c o).predicate = o := rfl
  rw [Filter.predicateLayout?, hpredicate] at hlayout
  rw [hpredicate]
  cases hq : o.bind Predicate.pushdown? with
  | none =>
    have hempty : (Filter.ofPredicate c o).predicateText = "" := by rw [hlayout, hq]; rfl
    rw [hempty]
    exact ⟨_, Filter.compile_eq_ok_iff.mpr ⟨none, rfl, .inl ⟨rfl, rfl⟩⟩, rfl, rfl, fun row => rfl⟩
  | some q =>
    have htext : (Filter.ofPredicate c o).predicateText = q.text := by
      rw [hlayout, hq]
      exact q.layout_text
    obtain ⟨p, rfl, hq⟩ := Option.bind_eq_some_iff.mp hq
    obtain hcompile : compileText c.schema c.filter = .ok (some p) := by
      rcases hcases with ⟨⟨⟩, -⟩ | ⟨-, _, ⟨⟩, hp⟩
      exact hp
    have hagain := compileText_pushdown hraw hcompile (hplain p rfl) hq
    have hrow := Predicate.pushdown_needs_no_row hq
    have hblank : Text.isAllBlank q.text = false := by
      rw [← q.layout_text]
      exact q.layout.not_blank
    rw [htext]
    refine ⟨_, Filter.compile_eq_ok_iff.mpr ⟨some q.layout.reading, rfl, .inr ⟨hblank, _, rfl, hagain⟩⟩,
      ?_, Predicate.needsRow_eq_false hrow, fun row => ?_⟩
    · exact (Predicate.engineText_eq_text hrow).trans q.readsAs.text
    · have hreads := Engine.Layout.reading_accepts row q.layout_even
      rw [q.layout_formula] at hreads
      exact hreads

/-- Chains of both connectives in each other, one of them joined from the right; flags, a bare word and
an address in two halves; and a host name that only a look at the row can decode. -/
theorem engineText_is_fixed_point_nested :
    let c : Configuration :=
      ⟨"%flags SA and (not (e0id80 a-b or %addr 2001:db8::1) or %port -5) and %host \"x.org\"",
        ⟨[⟨["%flags"], ["e0id6"], .number, some .flags, none⟩, ⟨["%host"], ["e1id2"], .text, some .dns, none⟩,
          ⟨["%addr"], ["e0id27", "e0id28"], .ip6, none, none⟩,
          ⟨["%port"], ["e0id7", "e0id11p1"], .number, none, none⟩], [], "e0id150"⟩, none⟩
    c.schema.Raw ∧ ∃ f, Filter.compile c = .ok f ∧ f.needsRow = true ∧
      f.predicateText = "(e0id6 & 18) == 18 AND ((e0id80 != \"a-b\" AND (e0id27 != 2306139568115548160 OR " ++
        "e0id28 != 1)) OR e0id7 == -5 OR e0id11p1 == -5)" ∧
      (∀ p ∈ f.predicate, ∀ a ∈ p.atoms, a.isPlain = true) ∧
      ∃ g, Filter.compile { c with filter := f.predicateText } = .ok g ∧
        g.predicateText = f.predicateText ∧ g.needsRow = false ∧
        ∀ row : Row, g.accepts row = (f.predicate.bind Predicate.pushdown?).all (Predicate.accepts row) := by
  intro c
  have hraw : c.schema.Raw := by
    unfold Schema.Raw
    decide +kernel
  let f : Filter :=
    ⟨some (.and (.and (.atom ⟨.masked (.column "e0id6") .and 18, .eq, .int 18⟩)
      (.or (.and (.atom ⟨.column "e0id80", .ne, .text "a-b"⟩)
          (.or (.atom ⟨.column "e0id27", .ne, .uint 2306139568115548160⟩)
            (.atom ⟨.column "e0id28", .ne, .uint 1⟩)))
        (.or (.atom ⟨.column "e0id7", .eq, .int (-5)⟩) (.atom ⟨.column "e0id11p1", .eq, .int (-5)⟩))))
      (.atom ⟨.decoded .dns "e1id2", .eq, .text "x.org"⟩)), none, "e0id150"⟩
  have hf : Filter.compile c = .ok f := by decide +kernel
  have hplain : ∀ p ∈ f.predicate, ∀ a ∈ p.atoms, a.isPlain = true := by decide +kernel
  exact ⟨hraw, f, hf, by decide +kernel, by decide +kernel, hplain,
    engineText_is_fixed_point c hraw f hf hplain⟩

end FlowSelect
