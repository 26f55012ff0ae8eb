/-
# A filter and its negation

A filter text in brackets after a "not" compiles if the text asks for anything, and the two filters
share out the rows: they never accept the same row, and one of them accepts it unless a comparison
is unknown there (`complement_is_kleene_negation`). A text of blanks asks for nothing; it accepts
every row, and it has no negation, since nothing may stand in the brackets
(`compileText_not_blank`).

Key definition: `Configuration.negated`.
Key theorems: `compileText_not_blank`, `Filter.compile_negated`, `complement_is_kleene_negation`.
-/
import FlowSelect.Proofs.Kleene
import FlowSelect.Proofs.Query.Composition
import FlowSelect.Proofs.Text.Characters

namespace FlowSelect

open Pattern FlowSelect.Language

/-! ### Blank texts -/

theorem toLower_of_blank {r : Char} (hr : Text.isBlank r = true) : r.toLower = r := by
  rcases Text.toLower_cases r with hsame | ⟨hleast, hmost, -⟩
  · exact hsame
  · simp [Text.isBlank] at hr
    omega

/-- No expression starts with a blank, of whatever kind. -/
theorem expr_first_blank {r : Char} (hr : Text.isBlank r = true) : expr.first r = false := by
  by_contra hf
  have hcases : 'n' = r ∨ '!' = r ∨ '(' = r ∨ 'e' = r ∨ '%' = r := by
    simp [expr, spaced, whole, negation, primary, Language.comparison, subject, masked, anyColumn,
      rawColumn, column, anyCase, exactly, inOrder, oneOf, first, nullable, toLower_of_blank hr] at hf
    tauto
  rcases hcases with rfl | rfl | rfl | rfl | rfl <;> revert hr <;> decide

/-- A masked column starts as an expression does. -/
theorem expr_first_of_masked {r : Char} (h : masked.first r = true) : expr.first r = true := by
  have hmasked : 'e' = r ∨ '%' = r := by
    simpa [masked, spaced, anyColumn, rawColumn, column, whole, exactly, inOrder, first, nullable]
      using h
  rcases hmasked with rfl | rfl <;> rfl

/-- After a bracket and the blanks of the language comes a bracket or another kind of blank, so no
expression starts there. -/
theorem first_after_blanks {cs : List Char} (hcs : ∀ r ∈ cs, Text.isBlank r = true) (c : Cursor)
    (hc : c.rest = cs ++ [')']) :
    ∃ r rest, (c.skip .loose).rest = r :: rest ∧ Cursor.isBlank r = false ∧ expr.first r = false := by
  obtain ⟨bs, hbs, hread, -⟩ := Cursor.skip_reads .loose c
  rw [hc] at hread
  rcases Cursor.skipBlanksFrom_head c.rest c.offset with hnil | ⟨r, rest, hrest, hr⟩
  · have hmem : ')' ∈ bs := by
      rw [show (c.skip .loose).rest = [] from hnil, List.append_nil] at hread
      rw [← hread]
      simp
    cases hbs _ hmem
  · have hrest : (c.skip .loose).rest = r :: rest := hrest
    refine ⟨r, rest, hrest, hr, ?_⟩
    have hmem : r ∈ cs ++ [')'] := by
      rw [hread, hrest]
      simp
    rcases List.mem_append.mp hmem with hmem | hmem
    · exact expr_first_blank (hcs r hmem)
    · rw [List.mem_singleton.mp hmem]
      rfl

/-- Nothing but blanks between brackets is no operand. -/
theorem no_operand_of_blanks {cs : List Char} (hcs : ∀ r ∈ cs, Text.isBlank r = true) (offset : Nat) :
    primary.run matchNested .loose ⟨offset, '(' :: (cs ++ [')'])⟩ = none := by
  obtain ⟨r, rest, hrest, hr, hf⟩ :=
    first_after_blanks hcs (Cursor.next '(' offset (cs ++ [')'])) rfl
  have hmasked : masked.run matchNested .loose
      ((Cursor.next '(' offset (cs ++ [')'])).skip .loose) = none := by
    refine run_eq_none matchNested_advances rfl hrest hr ?_
    by_contra h
    rw [expr_first_of_masked (by simpa using h)] at hf
    cases hf
  have hnested : matchNested .loose ((Cursor.next '(' offset (cs ++ [')'])).skip .loose) = none := by
    rw [matchNested_eq_run]
    exact run_eq_none matchNested_advances rfl hrest hr hf
  have hbracketed : ∀ (p : Pattern) {m : Match},
      p.run matchNested .loose ((Cursor.next '(' offset (cs ++ [')'])).skip .loose) = none →
        (inOrder (exactly "(") [p, exactly ")"]).run matchNested .loose
          ⟨offset, '(' :: (cs ++ [')'])⟩ ≠ some m := by
    intro p m hp h
    obtain ⟨rest', n, tail, hc, hn, -, -⟩ := run_bracketed_iff.mp h
    obtain rfl : cs ++ [')'] = rest' := by simpa using hc
    rw [hp] at hn
    cases hn
  rw [Option.eq_none_iff_forall_ne_some]
  intro m h
  rcases run_primary_iff.mp h with h | ⟨-, h⟩
  · obtain ⟨a, r', v, ha, -⟩ := run_comparison_iff.mp h
    rcases run_subject_iff.mp ha with ha | ⟨-, ha⟩
    · exact hbracketed masked hmasked ha
    · rw [run_eq_none matchNested_advances (p := .alt masked anyColumn) rfl rfl rfl rfl] at ha
      cases ha
  · exact hbracketed .nested hnested h

/-- **Blanks have no negation**: the brackets after a "not" ask for an expression. -/
theorem compileText_not_blank (s : Schema) {t text : String} (ht : Text.isAllBlank t = true)
    (htext : text.toList = "not ".toList ++ '(' :: (t.toList ++ [')'])) (o : Option Predicate) :
    compileText s text ≠ .ok o := by
  intro h
  cases o with
  | none =>
    have hskip := Query.skip_of_ofText_eq_none (compileText_eq_none_iff.mp h)
    rw [htext] at hskip
    cases hskip
  | some p =>
    obtain ⟨q, ⟨m, e, hm, -⟩, -⟩ := compileText_eq_some_iff.mp h
    rw [matchNested_eq_run, htext] at hm
    obtain ⟨n, p, l, hn, hp, -⟩ := (run_expr_iff matchNested_advances).mp hm
    obtain ⟨n', offset, hn', -, hafter⟩ := Query.one_negation Query.isSign_not (t.toList ++ [')'])
    obtain rfl : n' = n := Option.some.inj (hn'.symm.trans hn)
    rw [hafter, no_operand_of_blanks (List.all_eq_true.mp ht)] at hp
    cases hp

/-! ### Negated filters -/

/-- A configuration that asks for the opposite. -/
def Configuration.negated (c : Configuration) : Configuration :=
  { c with filter := "not (" ++ c.filter ++ ")" }

namespace Filter

theorem negated_not_blank (c : Configuration) : Text.isAllBlank c.negated.filter = false := by
  have h : c.negated.filter.toList = 'n' :: ("ot (".toList ++ c.filter.toList ++ [')']) := by
    simp [Configuration.negated]
  rw [Text.isAllBlank, h]
  rfl

/-- **A negated filter compiles exactly if the filter has a predicate**, and then to the filter of
the complement. -/
theorem compile_negated {c : Configuration} {f : Filter} (h : compile c = .ok f) (g : Filter) :
    compile c.negated = .ok g ↔ ∃ p, f.predicate = some p ∧ g = ofPredicate c (some p.complement) := by
  have htext : c.negated.filter.toList = "not ".toList ++ '(' :: (c.filter.toList ++ [')']) := by
    simp [Configuration.negated]
  obtain ⟨o, rfl, ⟨rfl, hblank⟩ | ⟨hblank, p, rfl, hp⟩⟩ := compile_eq_ok_iff.mp h
  · constructor
    · intro hg
      obtain ⟨o, -, ⟨-, hb⟩ | ⟨-, p, -, hp⟩⟩ := compile_eq_ok_iff.mp hg
      · rw [negated_not_blank c] at hb
        cases hb
      · exact absurd hp (compileText_not_blank c.schema hblank htext _)
    · rintro ⟨p, hp, -⟩
      cases hp
  · have hnot : compileText c.negated.schema c.negated.filter = .ok (some p.complement) :=
      compileText_not Query.isSign_not htext hp
    have hof : ∀ o, ofPredicate c.negated o = ofPredicate c o := fun _ => rfl
    have hpredicate : (ofPredicate c (some p)).predicate = some p := rfl
    simp [compile_eq_ok_iff, negated_not_blank c, hnot, hof, hpredicate]

end Filter

/-- **Negation is Kleene negation.** A predicate accepts the rows on which its strong Kleene value is
true, its complement those on which it is false. So a filter and its negation, where it compiles,
never accept the same row, and one of them accepts it where no comparison is unknown. -/
theorem complement_is_kleene_negation :
    (∀ (p : Predicate) (row : Row), (p.accepts row = true ↔ p.truth row = .yes) ∧
      (p.complement.accepts row = true ↔ p.truth row = .no)) ∧
    ∀ (c : Configuration) (f : Filter), Filter.compile c = .ok f →
      ((∃ g, Filter.compile c.negated = .ok g) ↔ f.predicate ≠ none) ∧
      ∀ g, Filter.compile c.negated = .ok g → ∀ row : Row,
        ¬(f.accepts row = true ∧ g.accepts row = true) ∧
        ((∀ p ∈ f.predicate, ∀ a ∈ p.atoms, ¬a.Unknown row) →
          g.accepts row = !f.accepts row) := by
  refine ⟨fun p row => ⟨p.accepts_iff_truth row, p.complement_accepts_iff_truth row⟩, ?_⟩
  intro c f hf
  refine ⟨?_, ?_⟩
  · simp only [Filter.compile_negated hf]
    rcases f.predicate with _ | p <;> simp
  · intro g hg row
    obtain ⟨p, hp, rfl⟩ := (Filter.compile_negated hf g).mp hg
    have hyes : f.accepts row = true ↔ p.truth row = .yes := by
      rw [Filter.accepts, hp]
      exact p.accepts_iff_truth row
    have hno : (Filter.ofPredicate c (some p.complement)).accepts row = true ↔ p.truth row = .no :=
      p.complement_accepts_iff_truth row
    refine ⟨?_, fun hknown => ?_⟩
    · rintro ⟨h₁, h₂⟩
      rw [hyes] at h₁
      rw [hno, h₁] at h₂
      cases h₂
    · have htruth := p.truth_ne_unknown row (hknown p hp)
      rw [Bool.eq_iff_iff, Bool.not_eq_true_eq_eq_false, ← Bool.not_eq_true, hyes, hno]
      cases ht : p.truth row with
      | yes => simp
      | no => simp
      | unknown => exact absurd ht htruth

/-- A row on which the masked column has a value and the text can be compared. -/
theorem complement_is_kleene_negation_known :
    Filter.compile ⟨"e0id1 & 3 >= 2 and e0id2 != \"a\"", .empty, none⟩ =
        .ok ⟨some (.and (.atom ⟨.masked (.column "e0id1") .and 3, .ge, .int 2⟩)
          (.atom ⟨.column "e0id2", .ne, .text "a"⟩)), none, Schema.empty.timestampColumn⟩ ∧
      ∃ g, Filter.compile (Configuration.negated
          ⟨"e0id1 & 3 >= 2 and e0id2 != \"a\"", .empty, none⟩) = .ok g ∧
        g.accepts ⟨[("e0id1", .int 6), ("e0id2", .text "a")]⟩ = true := by
  have hf : Filter.compile ⟨"e0id1 & 3 >= 2 and e0id2 != \"a\"", .empty, none⟩ =
      .ok ⟨some (.and (.atom ⟨.masked (.column "e0id1") .and 3, .ge, .int 2⟩)
        (.atom ⟨.column "e0id2", .ne, .text "a"⟩)), none, Schema.empty.timestampColumn⟩ := by
    decide +kernel
  obtain ⟨hcompiles, hshare⟩ := complement_is_kleene_negation.2 _ _ hf
  obtain ⟨g, hg⟩ := hcompiles.mpr (by decide)
  refine ⟨hf, g, hg, ?_⟩
  rw [(hshare g hg ⟨[("e0id1", .int 6), ("e0id2", .text "a")]⟩).2 (by decide +kernel)]
  decide +kernel

end FlowSelect
