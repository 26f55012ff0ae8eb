/-
# Bare words as values

A word without quotes is compared with a column of texts as it stands: `%host web-1` compares the column
with the text `web-1`. The exception are words that start with a keyword at which a name would end.
Those are not values, and so the filter is outside the language, though a word goes on over hyphens and
dots and names like `not-set` or `or.example.com` are words in every other respect
(`bare_word_is_value_unless_keyword`).

Key definition: `Schema.PlainTextColumn`.
Key theorems: `Query.unreadable_of_expr_fails`, `bare_word_is_value_unless_keyword`.
-/
import FlowSelect.Proofs.Query.Clause
import FlowSelect.Proofs.Query.Forms
import FlowSelect.Schema.Builtin

namespace FlowSelect

/-- A column of texts with one part and no semantics, under an alias that a filter can write. -/
structure Schema.PlainTextColumn (s : Schema) (column part : String) : Prop where
  writable : (ColumnName.registered column).WellWritten
  listed : ∃ spec, s.column? column = some spec ∧ spec.kind = .text ∧ spec.semantics = none ∧
    spec.parts = [part]

/-! ### A column and a word -/

namespace Language

open Pattern

variable {nested : Matcher} {c : ColumnName} {word : List Char}

/-- A word does not start as a sign does. -/
theorem first_word (h : Text.isWord word = true) : Solid word ∧
    ∀ r ∈ word.head?, relation.first r = false ∧ bitOperator.first r = false := by
  obtain ⟨r, ds, rfl, hr, -⟩ := head_word h
  have hblank : Cursor.isBlank r = false := by
    rw [← Bool.not_eq_true]
    intro hblank
    rcases Cursor.isBlank_cases hblank with rfl | rfl | rfl | rfl <;> simp at hr
  refine ⟨⟨r, ds, rfl, hblank⟩, ?_⟩
  rintro _ ⟨⟩
  rw [← Bool.not_eq_true, ← Bool.not_eq_true]
  constructor
  · intro hfirst
    rcases first_relation hfirst with rfl | rfl | rfl | rfl <;> simp at hr
  · intro hfirst
    rcases first_bitOperator hfirst with rfl | rfl | rfl | rfl | rfl <;> simp at hr

/-- A column before a blank and a word is the left side. -/
theorem subject_gives_column_before_word (hn : nested.Advances) (hc : c.WellWritten)
    (hword : Text.isWord word = true) :
    Gives nested subject Subject.ofToken? c.text.toList ([' '] ++ (word ++ [])) (.column c) := by
  obtain ⟨hsolid, hsigns⟩ := first_word hword
  have hends : EndsName ([' '] ++ (word ++ [])) := by
    rintro _ ⟨⟩
    rfl
  apply subject_gives_column hn hc blanks_space hsolid hends
  obtain ⟨r, ds, rfl, hr⟩ := hsolid
  intro offset
  exact run_eq_none hn rfl rfl hr (hsigns r rfl).2

/-- **Where a word is no value, a column and the word are no comparison.** -/
theorem comparison_fails_before_word (hn : nested.Advances) (hc : c.WellWritten)
    (hword : Text.isWord word = true) (hvalue : Fails nested value .loose word) :
    Fails nested comparison .loose (c.text.toList ++ ' ' :: word) := by
  intro offset
  rw [Option.eq_none_iff_forall_ne_some]
  intro m hm
  obtain ⟨a, b, v, ha, hb, hv, -⟩ := run_comparison_iff.mp hm
  obtain ⟨a', t, ha', hafter, -⟩ := subject_gives_column_before_word hn hc hword offset
  rw [List.append_nil] at ha' hafter
  obtain rfl : a = a' := Option.some.inj (ha.symm.trans ha')
  obtain ⟨⟨r, ds, rfl, hr⟩, hsigns⟩ := first_word hword
  have hskip : a.after.skip .loose = ⟨a.after.offset + 1, r :: ds⟩ := by
    obtain ⟨ts, offset', _⟩ := a
    obtain rfl := hafter
    exact Cursor.skip_of_not_blank (c := ⟨offset' + 1, r :: ds⟩) .loose rfl hr
  -- no relation is found before the word, and then no value
  have hrelation : relation.run nested .loose (a.after.skip .loose) = none := by
    rw [hskip]
    exact run_eq_none hn rfl rfl hr (hsigns r rfl).1
  obtain rfl : b = ⟨[], a.after.skip .loose⟩ := by
    rcases run_opt_eq_some.mp hb with hb | ⟨-, rfl⟩
    · rw [hrelation] at hb
      cases hb
    · rfl
  rw [Cursor.skip_skip, hskip, hvalue] at hv
  cases hv

end Language

/-! ### Filters -/

namespace Query

open Pattern FlowSelect.Language

/-- A text that does not start with an expression is outside the language. -/
theorem unreadable_of_expr_fails {text : String} {r : Char} {cs : List Char} (htext : text.toList = r :: cs)
    (hr : Cursor.isBlank r = false) (hfails : expr.run matchNested .loose ⟨0, text.toList⟩ = none) :
    ∃ u, ofText text = .error (.ofUnreadable (.unreadable u)) := by
  have hskip : Cursor.skip .loose ⟨0, text.toList⟩ = ⟨0, text.toList⟩ :=
    Cursor.skip_of_not_blank .loose htext hr
  rcases ofText_cases text with hu | hnone | ⟨q, hq, -⟩
  · exact hu
  · have hblank := ofText_eq_none_iff.mp hnone r (by simp [htext])
    rw [hr] at hblank
    cases hblank
  · obtain ⟨m, e, hm, -⟩ := ofText_eq_some_iff.mp hq
    rw [matchNested_eq_run, hskip, hfails] at hm
    cases hm

end Query

section Filters

open Pattern FlowSelect.Language

variable {s : Schema} {column part word : String}

theorem Schema.PlainTextColumn.compare_word (h : s.PlainTextColumn column part) (word : String) :
    ∃ left, (ColumnName.registered column).side s = .ok left ∧
      left.compare .eq (.literal (.word word)) = .ok (.atom ⟨.column part, .eq, .text word⟩) := by
  obtain ⟨spec, hlisted, hkind, hsemantics, hparts⟩ := h.listed
  refine ⟨.column (Column.ofSpec column spec), ?_, ?_⟩
  · simp [ColumnName.side, Schema.resolve, Schema.resolveColumn, hlisted, Except.map, Side.ofResolved]
  · have htarget : (Target.mk (Column.ofSpec column spec) false none).compareLiteral .eq (.word word) =
        .ok (.atom ⟨.column part, .eq, .text word⟩) := by
      simp [Target.compareLiteral, Target.compareWord, Target.compareText, Target.accepts, Column.ofSpec,
        hkind, hsemantics, hparts, Target.textConstant, Target.eachPart?, Target.textOperand,
        Target.decoding, Formula.disjoin?, comparison, Relation.isOrdering]
    simp [Side.compare, broadcast, Side.targets, compileAll, compileEach, Side.targetCompare, htarget,
      Formula.disjoin?]

/-- A column and a word that is a value compile to their equality. -/
theorem Schema.PlainTextColumn.compileText_word (h : s.PlainTextColumn column part)
    (hword : Text.isWord word.toList = true) (hkeyword : Text.startsWithKeyword word.toList = false) :
    compileText s (column ++ " " ++ word) = .ok (some (.atom ⟨.column part, .eq, .text word⟩)) := by
  have hchars : (column ++ " " ++ word).toList = column.toList ++ ([' '] ++ (word.toList ++ [])) := by simp
  have hforms : ValueForm.Written .word word.toList (String.ofList word.toList) := .word hword hkeyword
  have hvalue := hforms.gives matchNested_advances (ends_of_closes closes_nil)
  rw [String.ofList_toList] at hvalue
  obtain ⟨m, span, hm, hafter, hitems⟩ := comparison_gives matchNested_advances
    (subject_gives_column_before_word matchNested_advances h.writable hword) (.bare blanks_space) hvalue
    hforms.solid 0
  obtain ⟨r, ds, hr, hblank, -, hnegation⟩ := head_column h.writable
  have hstart : column.toList ++ ([' '] ++ (word.toList ++ [])) =
      r :: (ds ++ ([' '] ++ (word.toList ++ []))) := by
    rw [show column.toList = r :: ds from hr, List.cons_append]
  have hwritten : Query.Written (column ++ " " ++ word).toList
      (.clause ⟨span, .column (.registered column), none, .word, word⟩) := by
    rw [hchars]
    exact Query.written_comparison ⟨r, _, hstart, hblank, hnegation⟩ hm hafter hitems
  obtain ⟨left, hleft, hcompare⟩ := h.compare_word word
  refine compileText_eq_some_iff.mpr ⟨_, hwritten, ?_⟩
  simp [Query.compile, Clause.compile, Clause.sides, Subject.side, hleft, Clause.readRelation,
    ValueForm.side, hcompare]

/-- A column and a word with a keyword at its front are outside the language. -/
theorem Schema.PlainTextColumn.compileText_keyword (h : s.PlainTextColumn column part)
    (hword : Text.isWord word.toList = true) (hkeyword : Text.startsWithKeyword word.toList = true) :
    ∃ u, compileText s (column ++ " " ++ word) = .error (.ofUnreadable (.unreadable u)) := by
  have hchars : (column ++ " " ++ word).toList = column.toList ++ ' ' :: word.toList := by simp
  obtain ⟨r, ds, hr, hblank, hbracket, hnegation⟩ := head_column h.writable
  have hstart : (column ++ " " ++ word).toList = r :: (ds ++ ' ' :: word.toList) := by
    rw [hchars, show column.toList = r :: ds from hr, List.cons_append]
  have hexpr : expr.run matchNested .loose ⟨0, (column ++ " " ++ word).toList⟩ = none := by
    rw [Option.eq_none_iff_forall_ne_some]
    intro m hm
    obtain ⟨n, p, -, hn, hp, -⟩ := (run_expr_iff matchNested_advances).mp hm
    rw [Query.no_negation hstart hblank hnegation] at hn
    obtain rfl := Option.some.inj hn
    have hprimary : primary.run matchNested .loose ⟨0, column.toList ++ ' ' :: word.toList⟩ = some p := by
      have hskip : Cursor.skip .loose ⟨0, (column ++ " " ++ word).toList⟩ =
          ⟨0, (column ++ " " ++ word).toList⟩ := Cursor.skip_of_not_blank .loose hstart hblank
      rw [← hchars, ← hskip]
      exact hp
    rcases run_primary_iff.mp hprimary with hcomparison | ⟨-, hbrackets⟩
    · have hfails := comparison_fails_before_word matchNested_advances h.writable hword
        (value_fails_on_keyword matchNested_advances hword hkeyword) 0
      exact absurd (hfails.symm.trans hcomparison) (by simp)
    · rw [← hchars, bracketed_fails hstart hbracket] at hbrackets
      cases hbrackets
  obtain ⟨u, hu⟩ := Query.unreadable_of_expr_fails hstart hblank hexpr
  refine ⟨u, ?_⟩
  unfold compileText
  rw [hu]

theorem Schema.PlainTextColumn.not_blank (h : s.PlainTextColumn column part) (word : String) :
    Text.isAllBlank (column ++ " " ++ word) = false := by
  obtain ⟨cs, rfl, -⟩ := h.writable
  simp [Text.isAllBlank, Text.isBlank]

/-- **A bare word is a value unless it starts with a keyword at which a name would end.** A plain column
of texts and a word compile to the one comparison of the column with the word exactly if the word does
not start so. Otherwise the filter is outside the language. -/
theorem bare_word_is_value_unless_keyword (h : s.PlainTextColumn column part)
    (hword : Text.isWord word.toList = true) (window : Option TimeWindow) :
    (Filter.compile ⟨column ++ " " ++ word, s, window⟩ =
        .ok ⟨some (.atom ⟨.column part, .eq, .text word⟩), window, s.timestampColumn⟩ ↔
      Text.startsWithKeyword word.toList = false) ∧
    (Text.startsWithKeyword word.toList = true →
      ∃ u, Filter.compile ⟨column ++ " " ++ word, s, window⟩ = .error (.ofUnreadable (.unreadable u))) := by
  have hrejected : Text.startsWithKeyword word.toList = true →
      ∃ u, Filter.compile ⟨column ++ " " ++ word, s, window⟩ = .error (.ofUnreadable (.unreadable u)) := by
    intro hkeyword
    obtain ⟨u, hu⟩ := h.compileText_keyword hword hkeyword
    exact ⟨u, by simp [Filter.compile, h.not_blank word, hu, Except.map]⟩
  refine ⟨⟨?_, ?_⟩, hrejected⟩
  · intro hcompiles
    rw [← Bool.not_eq_true]
    intro hkeyword
    obtain ⟨u, hu⟩ := hrejected hkeyword
    rw [hu] at hcompiles
    cases hcompiles
  · intro hkeyword
    exact Filter.compile_of_compileText (h.compileText_word hword hkeyword) window

end Filters

theorem Schema.builtin_plainTextColumn : builtin.PlainTextColumn "%host" "e39499id21" :=
  ⟨⟨['h', 'o', 's', 't'], rfl, by decide⟩, plain ["%host"] ["e39499id21"] .text, by decide +kernel, rfl, rfl,
    rfl⟩

/-- A word that goes on where a keyword at its front would end for a name, and one that does not. -/
theorem bare_word_is_value_unless_keyword_host :
    Schema.builtin.PlainTextColumn "%host" "e39499id21" ∧ Text.isWord "nothing-1.example".toList = true ∧
      Text.isWord "Or.example".toList = true ∧
      Filter.compile ⟨"%host nothing-1.example", Schema.builtin, none⟩ =
        .ok ⟨some (.atom ⟨.column "e39499id21", .eq, .text "nothing-1.example"⟩), none,
          Schema.builtin.timestampColumn⟩ ∧
      ∃ u, Filter.compile ⟨"%host Or.example", Schema.builtin, none⟩ =
        .error (.ofUnreadable (.unreadable u)) := by
  have hvalue : Text.isWord "nothing-1.example".toList = true := by decide
  have hkeyword : Text.isWord "Or.example".toList = true := by decide
  refine ⟨Schema.builtin_plainTextColumn, hvalue, hkeyword, ?_, ?_⟩
  · exact (bare_word_is_value_unless_keyword Schema.builtin_plainTextColumn hvalue none).1.mpr (by decide)
  · exact (bare_word_is_value_unless_keyword Schema.builtin_plainTextColumn hkeyword none).2 (by decide)

/-- The word is no keyword, and still it is no value. -/
theorem hyphenated_word_is_no_value :
    Schema.builtin.PlainTextColumn "%host" "e39499id21" ∧ Text.isWord "not-set".toList = true ∧
      "not-set".toList.map Char.toLower ∉ Text.keywords ∧
      Filter.compile ⟨"%host not-set", Schema.builtin, none⟩ =
        .error ⟨some ⟨6, 1⟩, .unreadable ⟨⟨6, 1⟩, ⟨1, 7⟩, false,
          [.relation, .bitOperator, .timestamp, .ip6, .ip6Subnet, .ip4, .ip4Subnet, .number, .quoted,
            .word]⟩⟩ :=
  ⟨Schema.builtin_plainTextColumn, by decide, by decide, by decide +kernel⟩

end FlowSelect
