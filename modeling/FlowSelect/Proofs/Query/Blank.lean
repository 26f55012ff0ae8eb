/-
# Blank filter texts

A configuration whose text has white space only is given the filter that accepts every row, and the
text is not read at all. That shortcut has a wider notion of a blank than the language: the language
skips the space, the tab and the two line ends, while the shortcut takes every character with the
Unicode property White_Space. On a text of the language's own blanks nothing is lost, since that text
asks for nothing (`Query.ofText_eq_none_iff`). On a text with another kind of white space in it, the
shortcut gives a filter where the text is outside the language
(`blank_shortcut_shows_on_foreign_blanks`).

Key definitions: `Text.isForeignBlank`, `Configuration.Agrees`.
Key theorems: `Query.ofText_eq_none_iff`, `Query.Written.not_blank`,
`blank_shortcut_shows_on_foreign_blanks`.
-/
import FlowSelect.Proofs.Negation
import FlowSelect.Proofs.Query.Shape
import FlowSelect.Schema.Builtin

namespace FlowSelect

/-! ### Texts without a query -/

namespace Cursor

/-- Blanks are skipped to the end exactly if there is nothing else. -/
theorem skip_rest_eq_nil_iff {c : Cursor} :
    (c.skip .loose).rest = [] ↔ ∀ r ∈ c.rest, isBlank r = true := by
  obtain ⟨bs, hbs, hread, -⟩ := skip_reads .loose c
  constructor
  · intro hnil
    rw [hnil, List.append_nil] at hread
    rw [hread]
    exact hbs
  · intro hall
    rcases skipBlanksFrom_head c.rest c.offset with hnil | ⟨r, rest, hrest, hr⟩
    · exact hnil
    · have hskip : (c.skip .loose).rest = r :: rest := hrest
      have hmem : r ∈ c.rest := by
        rw [hread, hskip]
        simp
      rw [hall r hmem] at hr
      cases hr

end Cursor

namespace Query

open Pattern FlowSelect.Language

/-- **A text asks for nothing exactly if it has blanks of the language only.** -/
theorem ofText_eq_none_iff {text : String} :
    ofText text = .ok none ↔ ∀ r ∈ text.toList, Cursor.isBlank r = true := by
  constructor
  · intro h
    exact Cursor.skip_rest_eq_nil_iff.mp (skip_of_ofText_eq_none h)
  · intro hall
    set c : Cursor := Cursor.skip .loose ⟨0, text.toList⟩ with hc
    have hnil : c.rest = [] := Cursor.skip_rest_eq_nil_iff.mpr hall
    have hexpr : expr.run matchNested .loose c = none := by
      cases h : expr.run matchNested .loose c with
      | none => rfl
      | some m =>
        have hlt := run_length_lt matchNested_advances (p := expr) rfl h
        rw [hnil] at hlt
        simp at hlt
    have hend : (c.skip .loose).rest = [] := by rw [Cursor.skip_skip, hnil]
    have hprogram := run_program_iff.mpr ⟨⟨[], c⟩, run_opt_eq_some.mpr (.inr ⟨hexpr, rfl⟩), hend, rfl⟩
    exact ofText_eq_ok_iff.mpr ⟨_, hprogram, by simp [named, ofProgram?, Token.rule]⟩

/-- A text that writes a query is not blank, in the wider sense either. -/
theorem Written.not_blank {text : String} {q : Query} (h : Written text.toList q) :
    Text.isAllBlank text = false := by
  obtain ⟨m, e, hm, -⟩ := h
  rw [matchNested_eq_run] at hm
  obtain ⟨r, rest, hrest, hfirst⟩ :=
    run_startsAt matchNested_advances (Cursor.skip_skip .loose _) rfl hm
  obtain ⟨bs, -, hread, -⟩ := Cursor.skip_reads .loose ⟨0, text.toList⟩
  rw [hrest] at hread
  have htext : text.toList = bs ++ r :: rest := hread
  rw [← Bool.not_eq_true]
  intro hblank
  have hr : Text.isBlank r = true := by
    apply List.all_eq_true.mp hblank r
    rw [htext]
    simp
  rw [expr_first_blank hr] at hfirst
  cases hfirst

end Query

/-! ### The shortcut -/

/-- Whether a text has white space only, and some that is no blank of the language. -/
def Text.isForeignBlank (s : String) : Bool :=
  isAllBlank s && s.toList.any fun c => !Cursor.isBlank c

/-- A configuration is compiled as its text is: one compiles exactly if the other does, and then the
filter has the predicate of the text and its engine text, or neither if the text asks for nothing. -/
structure Configuration.Agrees (c : Configuration) : Prop where
  compiles_iff : (∃ f, Filter.compile c = .ok f) ↔ ∃ o, compileText c.schema c.filter = .ok o
  predicate_eq : ∀ f o, Filter.compile c = .ok f → compileText c.schema c.filter = .ok o →
    f.predicate = o ∧ f.predicateText = o.elim "" Predicate.engineText

variable {c : Configuration}

/-- Where there is no other white space, the shortcut does what reading the text does. -/
theorem Filter.compile_eq_map (h : Text.isForeignBlank c.filter = false) :
    compile c = (compileText c.schema c.filter).map (ofPredicate c) := by
  unfold compile
  by_cases hblank : Text.isAllBlank c.filter = true
  · have hall : ∀ r ∈ c.filter.toList, Cursor.isBlank r = true := by
      simpa [Text.isForeignBlank, hblank] using h
    have hnone : compileText c.schema c.filter = .ok none :=
      compileText_eq_none_iff.mpr (Query.ofText_eq_none_iff.mpr hall)
    rw [if_pos hblank, hnone]
    rfl
  · rw [if_neg hblank]

/-- A text with other white space only is outside the language. -/
theorem compileText_of_isForeignBlank (s : Schema) {text : String}
    (h : Text.isForeignBlank text = true) :
    ∃ u, compileText s text = .error (.ofUnreadable (.unreadable u)) := by
  have hparts : Text.isAllBlank text = true ∧ ∃ r ∈ text.toList, Cursor.isBlank r = false := by
    simpa [Text.isForeignBlank] using h
  obtain ⟨hblank, r, hr, hforeign⟩ := hparts
  rcases Query.ofText_cases text with ⟨u, hu⟩ | hnone | ⟨q, hq, -⟩
  · refine ⟨u, ?_⟩
    unfold compileText
    rw [hu]
  · rw [Query.ofText_eq_none_iff.mp hnone r hr] at hforeign
    cases hforeign
  · rw [(Query.ofText_eq_some_iff.mp hq).not_blank] at hblank
    cases hblank

theorem Configuration.agrees_of_compile_eq_map
    (h : Filter.compile c = (compileText c.schema c.filter).map (Filter.ofPredicate c)) : c.Agrees := by
  constructor
  · rw [h]
    cases compileText c.schema c.filter <;> simp [Except.map]
  · intro f o hf ho
    rw [h, ho] at hf
    obtain rfl : Filter.ofPredicate c o = f := by simpa [Except.map] using hf
    cases o <;> exact ⟨rfl, rfl⟩

/-- **The shortcut for blank texts shows on foreign white space, and nowhere else.** A configuration is
compiled as its text is, unless the text has white space only and some of it is not the language's. Then
the configuration gets the filter without a predicate, while its text is outside the language. -/
theorem blank_shortcut_shows_on_foreign_blanks (c : Configuration) :
    (c.Agrees ↔ Text.isForeignBlank c.filter = false) ∧
      (Text.isForeignBlank c.filter = true →
        Filter.compile c = .ok (Filter.ofPredicate c none) ∧
          ∃ u, compileText c.schema c.filter = .error (.ofUnreadable (.unreadable u))) := by
  have hforeign : Text.isForeignBlank c.filter = true →
      Filter.compile c = .ok (Filter.ofPredicate c none) ∧
        ∃ u, compileText c.schema c.filter = .error (.ofUnreadable (.unreadable u)) := by
    intro h
    have hblank : Text.isAllBlank c.filter = true := (Bool.and_eq_true_iff.mp h).1
    exact ⟨by rw [Filter.compile, if_pos hblank], compileText_of_isForeignBlank c.schema h⟩
  refine ⟨⟨?_, ?_⟩, hforeign⟩
  · intro hagrees
    rw [← Bool.not_eq_true]
    intro h
    obtain ⟨hcompile, u, hu⟩ := hforeign h
    obtain ⟨o, ho⟩ := hagrees.compiles_iff.mp ⟨_, hcompile⟩
    rw [hu] at ho
    cases ho
  · intro h
    exact Configuration.agrees_of_compile_eq_map (Filter.compile_eq_map h)

/-- A vertical tab is white space that the language does not skip. -/
theorem vertical_tab_accepts_every_row :
    let c : Configuration := ⟨"\x0b", Schema.builtin, none⟩
    Filter.compile c = .ok (Filter.ofPredicate c none) ∧
      (∀ row, (Filter.ofPredicate c none).accepts row = true) ∧
      compileText c.schema c.filter =
        .error ⟨some ⟨0, 1⟩, .unreadable ⟨⟨0, 1⟩, ⟨1, 1⟩, false, [.program]⟩⟩ ∧ ¬c.Agrees := by
  intro c
  have hcompile : Filter.compile c = .ok (Filter.ofPredicate c none) := by decide
  have htext : compileText c.schema c.filter =
      .error ⟨some ⟨0, 1⟩, .unreadable ⟨⟨0, 1⟩, ⟨1, 1⟩, false, [.program]⟩⟩ := by decide
  refine ⟨hcompile, fun row => rfl, htext, fun hagrees => ?_⟩
  obtain ⟨o, ho⟩ := hagrees.compiles_iff.mp ⟨_, hcompile⟩
  rw [htext] at ho
  cases ho

end FlowSelect
