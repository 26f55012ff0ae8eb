/-
# Engine texts as filter texts

The text of a layout is also a filter text, if the filter language can write its comparisons: its
columns are stored columns with at most one bit operator, its numbers fit, and its texts need no
backslash (`Comparison.Legible`). Such a comparison compiles to itself, with its constant settled, and
an even layout to what an engine reads from it (`Engine.Layout.compileText_text`).

Key definitions: `Operand.Legible`, `Constant.Legible`, `Comparison.Legible`.
Key theorems: `Comparison.Legible.isOperand`, `Engine.Layout.chain`,
`Engine.Layout.compileText_text`.
-/
import FlowSelect.Proofs.Compile.Union
import FlowSelect.Proofs.Query.Clause

namespace FlowSelect

open Pattern FlowSelect.Language

/-! ### Comparisons that a filter can write -/

/-- A stored column, under at most one bit operator. -/
def Operand.Legible : Operand → Prop
  | .column name => Text.isRawColumn name = true
  | .masked (.column name) _ n => Text.isRawColumn name = true ∧ n ≠ Int64.minValue
  | _ => False

/-- A number within the range of filters, or a text without quotes and backslashes. -/
def Constant.Legible : Constant → Prop
  | .int n => n ≠ Int64.minValue
  | .uint n => n.toNat < 2 ^ 63
  | .text s => '"' ∉ s.toList ∧ '\\' ∉ s.toList

/-- A comparison that a filter can write. A text is compared with a column itself, and for equality
only. -/
structure Comparison.Legible (c : Comparison) : Prop where
  operand : c.operand.Legible
  constant : c.constant.Legible
  text : ∀ s, c.constant = .text s → c.relation.isOrdering = false ∧ ∃ name, c.operand = .column name

variable {s : Schema} {rest : List Char}

/-- A raw column with what is applied to it. -/
def Target.raw (name : String) (mask : Option (BitOperator × Int64)) : Target :=
  ⟨Column.raw name, false, mask⟩

/-- **A legible operand is read as a left side with one target**, whose operand it is. -/
theorem Operand.Legible.spelled {o : Operand} (h : o.Legible) (s : Schema) : ∃ x left name mask,
    (∀ (r : Relation) (rest : List Char), Gives matchNested subject Subject.ofToken? o.render.toList
      (' ' :: (r.symbol.toList ++ ' ' :: rest)) x) ∧
      x.side s = .ok left ∧ left.targets = .ok [Target.raw name mask] ∧
      (Target.raw name mask).operand name = o := by
  match o, h with
  | .column name, h =>
    exact ⟨.column (.raw name), .column (Column.raw name), name, none,
      fun r rest => subject_gives_column_spaced (c := .raw name) matchNested_advances h r rest, rfl, rfl, rfl⟩
  | .masked (.column name) op n, ⟨hname, hn⟩ =>
    refine ⟨.masked (.raw name) op.symbol (toString n.toInt), .masked (.column (Column.raw name)) op n,
      name, some (op, n), fun r rest => ?_, ?_, rfl, rfl⟩
    · have hmasks : Masks
          (name.toList ++ ([' '] ++ (op.symbol.toList ++ ([' '] ++ (toString n.toInt).toList)))) (.raw name) op.symbol (toString n.toInt) :=
        ⟨hname, by cases op <;> rfl, written_of_isNumeral (isNumeral_toString n.toInt),
          [' '], [' '], blanks_space, blanks_space, rfl⟩
      have hmasked := hmasks.subject_gives_brackets matchNested_advances blanks_nil blanks_nil
        (' ' :: (r.symbol.toList ++ ' ' :: rest))
      simpa [render, ColumnName.text] using hmasked
    · simp only [Subject.side, ColumnName.side, BitOperator.parse, Engine.bitOperator_ofSymbol?,
        Number.parse_toString hn, Side.mask]

/-- The right side that a constant is read as. -/
def Constant.literal : Constant → Literal
  | .int n => .number n
  | .uint n => .number (Int64.ofInt n.toNat)
  | .text s => .quoted s

theorem Constant.escape_eq_self {cs : List Char} (hquote : '"' ∉ cs) (hback : '\\' ∉ cs) :
    escape cs = cs := by
  induction cs with
  | nil => rfl
  | cons c cs ih =>
    simp only [List.mem_cons, not_or] at hquote hback
    rw [escape, if_neg (by simp [Ne.symm hquote.1, Ne.symm hback.1]), ih hquote.2 hback.2]

theorem value_gives_integer {n : Int64} (hn : n ≠ Int64.minValue) : ∃ form text,
    (∀ rest, Closes rest →
      Gives matchNested value ValueForm.ofToken? (toString n.toInt).toList rest (form, text)) ∧
      Solid (toString n.toInt).toList ∧ form.side text = .ok (.literal (.number n)) := by
  have hnumeral := isNumeral_toString n.toInt
  refine ⟨.number, toString n.toInt, fun rest hrest => ?_, solid_number (written_of_isNumeral hnumeral), ?_⟩
  · simpa using value_gives_number matchNested_advances hnumeral hrest
  · rw [ValueForm.side, Number.parse_toString hn]
    rfl

/-- **A legible constant is read as a value.** -/
theorem Constant.Legible.spelled {k : Constant} (h : k.Legible) : ∃ form text,
    (∀ rest, Closes rest →
      Gives matchNested value ValueForm.ofToken? k.render.toList rest (form, text)) ∧
      Solid k.render.toList ∧ form.side text = .ok (.literal k.literal) := by
  cases k with
  | int n => exact value_gives_integer h
  | uint n =>
    have hn : n.toNat < 2 ^ 63 := h
    have hne : Int64.ofInt n.toNat ≠ Int64.minValue := Number.ofInt_ne_minValue (by omega) (by omega)
    have hvalue := value_gives_integer hne
    rw [toInt_ofInt_toNat hn] at hvalue
    exact hvalue
  | text s =>
    have hrender : (Constant.text s).render.toList = '"' :: (s.toList ++ ['"']) := by
      simp [render, escape_eq_self h.1 h.2]
    rw [hrender]
    refine ⟨.quoted, s, fun rest _ => ?_, ⟨_, _, rfl, rfl⟩, rfl⟩
    simpa using value_gives_quoted matchNested_advances h.1 rest

/-! ### Compiling them -/

/-- **A legible comparison compiles to itself**, with its constant settled. -/
theorem Comparison.Legible.compareLiteral {c : Comparison} (h : c.Legible) {name : String}
    {mask : Option (BitOperator × Int64)} (ho : (Target.raw name mask).operand name = c.operand) :
    (Target.raw name mask).compareLiteral c.relation c.constant.literal = .ok (.atom c.settled) := by
  obtain ⟨o, r, k⟩ := c
  obtain rfl := ho
  cases k with
  | int n => rfl
  | uint n =>
    have hn : n.toNat < 2 ^ 63 := h.constant
    simp only [Comparison.settled, Constant.settled, if_pos hn]
    rfl
  | text s =>
    obtain ⟨hr, name', hcolumn⟩ := h.text s rfl
    cases mask with
    | some m => cases hcolumn
    | none =>
      have hr : r.isOrdering = false := hr
      simp [Constant.literal, Target.compareLiteral, Target.compareText, Target.accepts, Target.raw,
        Column.raw, hr, Target.textConstant, Target.eachPart?, Formula.disjoin?, comparison,
        Target.textOperand, Target.decoding, Target.operand, Comparison.settled, Constant.settled]

theorem Operand.Legible.starts {o : Operand} (h : o.Legible) :
    ∃ r ds, o.render.toList = r :: ds ∧ Cursor.isBlank r = false ∧ negation.first r = false := by
  match o, h with
  | .column name, h =>
    obtain ⟨ds, es, ps, hname, -⟩ := Text.isRawColumn_iff.mp h
    exact ⟨'e', _, hname, rfl, rfl⟩
  | .masked (.column name) op n, _ =>
    exact ⟨'(', name.toList ++ ' ' :: (op.symbol.toList ++ ' ' :: ((toString n.toInt).toList ++ [')'])),
      by simp [render], rfl, rfl⟩

/-- **The text of a legible comparison is an operand of filters.** -/
theorem Comparison.Legible.isOperand {c : Comparison} (h : c.Legible) (s : Schema) :
    Query.IsOperand s c.render.toList (.atom c.settled) := by
  have hrender : c.render.toList =
      c.operand.render.toList ++ ' ' :: (c.relation.symbol.toList ++ ' ' :: c.constant.render.toList) := by
    simp [render]
  rw [hrender]
  obtain ⟨x, left, name, mask, hx, hleft, htargets, ho⟩ := h.operand.spelled s
  obtain ⟨form, text, hvalue, hsolid, hright⟩ := h.constant.spelled
  refine Query.isOperand_comparison h.operand.starts (hx c.relation) hvalue hsolid hleft hright ?_
  have hcompare : left.compare c.relation (.literal c.constant.literal) =
      broadcast left fun t => t.compareLiteral c.relation c.constant.literal := rfl
  rw [hcompare, broadcast, htargets]
  exact (compileAll_single _).trans (h.compareLiteral ho)

/-! ### Layouts -/

theorem Connective.atoms_join {α : Type} (k : Connective) (p q : Formula α) :
    (k.join p q).atoms = p.atoms ++ q.atoms := by
  cases k <;> rfl

namespace Engine.Layout

/-- Every layout is a chain of some connective. -/
theorem exists_root?_ne (l : Layout) : ∃ k : Connective, l.root? ≠ some k.other := by
  cases l with
  | atom c => exact ⟨.and, by simp [root?]⟩
  | group inner => exact ⟨.and, by simp [root?]⟩
  | join k left right => exact ⟨k, fun h => Connective.ne_other k (Option.some.inj h)⟩

/-- What holds of the comparisons of a chain holds of those of its two sides. -/
theorem forall_atoms_join {P : Comparison → Prop} {k : Connective} {left right : Layout}
    (h : ∀ c ∈ (join k left right).formula.atoms, P c) :
    (∀ c ∈ left.formula.atoms, P c) ∧ ∀ c ∈ right.formula.atoms, P c := by
  rw [formula, Connective.atoms_join] at h
  exact ⟨fun c hc => h c (List.mem_append_left _ hc), fun c hc => h c (List.mem_append_right _ hc)⟩

/-- **The text of an even layout is a chain of operands**, which are joined as an engine joins what it
reads. -/
theorem chain (s : Schema) : ∀ {l : Layout}, l.Even → (∀ c ∈ l.formula.atoms, c.Legible) →
    ∀ k : Connective, l.root? ≠ some k.other →
      ∃ p ps, Query.Chain s k l.text.toList p ps ∧ l.reading = ps.foldl k.join p ∧
        ∀ a, l.readingAfter (some (k, a)) = (p :: ps).foldl k.join a
  | .atom c, _, hlegible, k, _ =>
    ⟨_, _, .last ((hlegible c List.mem_cons_self).isOperand s), rfl, fun _ => rfl⟩
  | .group inner, heven, hlegible, k, _ => by
    obtain ⟨k', hk'⟩ := inner.exists_root?_ne
    obtain ⟨p, ps, hchain, hreading, -⟩ := chain s (l := inner) heven hlegible k' hk'
    obtain ⟨q, hq, hcompile⟩ := hchain.compiles
    rw [← hreading] at hcompile
    refine ⟨inner.reading, [], .last ?_, rfl, fun _ => rfl⟩
    simpa [text] using Query.isOperand_brackets hq hcompile
  | .join k' left right, ⟨hleft, hright, heven, heven'⟩, hlegible, k, hk => by
    obtain rfl : k' = k := eq_of_root?_join hk
    obtain ⟨hlegible, hlegible'⟩ := forall_atoms_join hlegible
    obtain ⟨p, ps, hchain, hreading, hafter⟩ := chain s heven hlegible k' hleft
    obtain ⟨q, qs, hchain', -, hafter'⟩ := chain s heven' hlegible' k' hright
    refine ⟨p, ps ++ q :: qs, ?_, ?_, fun a => ?_⟩
    · simpa [text, Connective.before] using hchain.append hchain'
    · rw [reading, readingAfter, hafter', List.foldl_append, ← hreading]
      rfl
    · rw [readingAfter, hafter', hafter, ← List.foldl_append, List.cons_append]

/-- **The text of an even layout compiles to what an engine reads from it.** -/
theorem compileText_text (s : Schema) {l : Layout} (heven : l.Even)
    (hlegible : ∀ c ∈ l.formula.atoms, c.Legible) : compileText s l.text = .ok (some l.reading) := by
  obtain ⟨k, hk⟩ := l.exists_root?_ne
  obtain ⟨p, ps, hchain, hreading, -⟩ := chain s heven hlegible k hk
  rw [compileText_eq_some_iff, hreading]
  exact hchain.compiles

/-- What is read from a layout are its comparisons with their constants settled. -/
theorem readingAfter_all {P : Comparison → Prop} : ∀ {l : Layout}, (∀ c ∈ l.formula.atoms, P c.settled) →
    (∀ c ∈ l.reading.atoms, P c) ∧ ∀ (k : Connective) (a : Predicate), (∀ c ∈ a.atoms, P c) →
      ∀ c ∈ (l.readingAfter (some (k, a))).atoms, P c
  | .atom c, h => by
    have hatom : ∀ x ∈ (reading (.atom c)).atoms, P x := by
      intro x hx
      obtain rfl : x = c.settled := List.mem_singleton.mp hx
      exact h c List.mem_cons_self
    refine ⟨hatom, fun k a ha x hx => ?_⟩
    rw [readingAfter, Connective.atoms_join] at hx
    exact (List.mem_append.mp hx).elim (ha x) (hatom x)
  | .group inner, h => by
    have hinner := (readingAfter_all (l := inner) h).1
    refine ⟨hinner, fun k a ha x hx => ?_⟩
    rw [readingAfter, Connective.atoms_join] at hx
    exact (List.mem_append.mp hx).elim (ha x) (hinner x)
  | .join k left right, h => by
    obtain ⟨hleft, hright⟩ := forall_atoms_join h
    obtain ⟨ihl, ihl'⟩ := readingAfter_all hleft
    obtain ⟨-, ihr⟩ := readingAfter_all hright
    exact ⟨ihr k _ ihl, fun k' a ha => ihr k' _ (ihl' k' a ha)⟩

end Engine.Layout

end FlowSelect
