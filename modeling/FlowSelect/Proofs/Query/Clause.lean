/-
# A comparison as a filter

A left side, a relation and a value, written with single blanks between them, are a filter. It
compiles to what the two sides compile to (`Query.isOperand_comparison`), and it is never taken for a
blank text (`not_blank_of_compileText`). The left side may be any column and the value any text in
quotes (`compile_quoted`).

Key theorems: `Query.isOperand_comparison`, `Query.written_comparison`,
`Filter.compile_of_compileText`, `compile_quoted`.
-/
import FlowSelect.Proofs.Engine.Reading
import FlowSelect.Proofs.Query.Blank
import FlowSelect.Proofs.Query.Chain
import FlowSelect.Proofs.Query.Spelling

namespace FlowSelect

open Pattern FlowSelect.Language

variable {s : Schema} {p : Predicate}

/-- **A left side, a relation and a value are an operand of filters**, which compiles to what the two
sides compile to. -/
theorem Query.isOperand_comparison {cs ds : List Char} {x : Subject} {r : Relation} {form : ValueForm}
    {text : String} {left right : Side}
    (hstarts : ∃ c cs', cs = c :: cs' ∧ Cursor.isBlank c = false ∧ negation.first c = false)
    (hx : ∀ rest, Gives matchNested subject Subject.ofToken? cs (' ' :: (r.symbol.toList ++ ' ' :: rest)) x)
    (hvalue : ∀ rest, Closes rest → Gives matchNested value ValueForm.ofToken? ds rest (form, text))
    (hsolid : Solid ds) (hleft : x.side s = .ok left) (hright : form.side text = .ok right)
    (hp : left.compare r right = .ok p) :
    IsOperand s (cs ++ ' ' :: (r.symbol.toList ++ ' ' :: ds)) p := by
  obtain ⟨c, cs', hcs, hblank, hfirst⟩ := hstarts
  refine ⟨⟨c, _, by rw [hcs, List.cons_append], hblank, hfirst⟩, ?_⟩
  intro offset rest hrest
  have hsign : Joint ([' '] ++ (r.symbol.toList ++ [' '])) (some r.symbol) :=
    .sign blanks_space (isSome_ofSymbol? r) blanks_space
  obtain ⟨m, span, hm, hafter, hitems⟩ := comparison_gives matchNested_advances
    (by simpa using hx (ds ++ rest)) hsign (hvalue rest hrest) hsolid offset
  refine ⟨m, _, run_primary_iff.mpr (.inl (by simpa using hm)), hafter, hitems, ?_⟩
  simp [Query.compile, Clause.compile, Clause.sides, Clause.readRelation, Relation.parse,
    Engine.relation_ofSymbol?, hleft, hright, hp]

/-- **A comparison up to the end of the text writes its clause.** -/
theorem Query.written_comparison {cs : List Char} {m : Match} {clause : Clause}
    (hstarts : ∃ r ds, cs = r :: ds ∧ Cursor.isBlank r = false ∧ negation.first r = false)
    (hm : Language.comparison.run matchNested .loose ⟨0, cs⟩ = some m) (hafter : m.after.rest = [])
    (hitems : items? m.tokens = some [.operand (.clause clause)]) : Written cs (.clause clause) := by
  obtain ⟨r, ds, rfl, hr, hfirst⟩ := hstarts
  have hskip : Cursor.skip .loose ⟨0, r :: ds⟩ = ⟨0, r :: ds⟩ := Cursor.skip_of_not_blank .loose rfl hr
  have hend : (m.after.skip .loose).rest = [] := by rw [Cursor.skip_of_nil .loose hafter, hafter]
  refine written_of_chain (n := ⟨[], ⟨0, r :: ds⟩⟩) (p := m) (l := ⟨[], m.after.skip .loose⟩) ?_ ?_
    (chain_ends hend) ?_ rfl hitems rfl rfl
  · rw [hskip]
    exact no_negation rfl hr hfirst
  · rw [hskip]
    exact run_primary_iff.mpr (.inl hm)
  · rw [Cursor.skip_skip]
    exact hend

theorem Query.IsOperand.compileText {text : String} (h : IsOperand s text.toList p) :
    compileText s text = .ok (some p) := by
  have hchain : Chain s .and text.toList p [] := .last h
  exact compileText_eq_some_iff.mpr hchain.compiles

/-- A text that asks for something is not blank. -/
theorem not_blank_of_compileText {text : String} (h : compileText s text = .ok (some p)) :
    Text.isAllBlank text = false := by
  obtain ⟨q, hq, -⟩ := compileText_eq_some_iff.mp h
  exact hq.not_blank

/-- What a filter text compiles to is the predicate of its filter. -/
theorem Filter.compile_of_compileText {text : String} (h : compileText s text = .ok (some p))
    (window : Option TimeWindow) :
    compile ⟨text, s, window⟩ = .ok ⟨some p, window, s.timestampColumn⟩ :=
  compile_eq_ok_iff.mpr ⟨some p, rfl, .inr ⟨not_blank_of_compileText h, p, rfl, h⟩⟩

/-- **A column, a relation and a text in quotes are a filter.** -/
theorem compile_quoted {c : ColumnName} (hc : c.WellWritten) (r : Relation) {text : String}
    (htext : '"' ∉ text.toList) {left : Side} (hleft : c.side s = .ok left)
    (hp : left.compare r (.literal (.quoted text)) = .ok p) (window : Option TimeWindow) :
    Filter.compile ⟨c.text ++ " " ++ r.symbol ++ " \"" ++ text ++ "\"", s, window⟩ =
      .ok ⟨some p, window, s.timestampColumn⟩ := by
  refine Filter.compile_of_compileText (Query.IsOperand.compileText ?_) window
  have hchars : (c.text ++ " " ++ r.symbol ++ " \"" ++ text ++ "\"").toList =
      c.text.toList ++ ' ' :: (r.symbol.toList ++ ' ' :: ('"' :: (text.toList ++ ['"']))) := by simp
  rw [hchars]
  obtain ⟨first, cs, hfirst, hblank, -, hnegation⟩ := head_column hc
  have hvalue : ∀ rest, Closes rest → Gives matchNested value ValueForm.ofToken?
      ('"' :: (text.toList ++ ['"'])) rest (.quoted, text) := by
    intro rest _
    simpa using value_gives_quoted matchNested_advances htext rest
  exact Query.isOperand_comparison ⟨first, cs, hfirst, hblank, hnegation⟩
    (subject_gives_column_spaced matchNested_advances hc r) hvalue ⟨_, _, rfl, rfl⟩ hleft rfl hp

end FlowSelect
