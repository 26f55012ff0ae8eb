/-
# Comparisons cut out of their text

A comparison is read by its own characters. What stands behind it decides only where a name or a number
ends, and at the end of a text they end too. So the stretch of a comparison, taken as a text of its own,
writes the clause that the comparison writes where it stands (`Language.comparisonsRead_alone`).

The proof goes from a match to the characters and back. A match of each part tells how the part is
spelled (`Language.subject_spelled`, `Language.relation_joint`, `Language.value_written`), and parts that
are spelled so are read again, with the end of the text behind them.

Key definitions: `Subject.Spelled`, `Token.Writes`.
Key theorems: `Language.subject_spelled`, `Subject.Spelled.gives`, `Language.comparisonsRead_alone`.
-/
import FlowSelect.Proofs.Query.Clause
import FlowSelect.Proofs.Query.Forms

namespace FlowSelect

namespace Language

open Pattern

variable {nested : Matcher} {c : Cursor} {m : Match}

/-! ### Where names end -/

theorem endsName_of_wordEnd {p : Pattern} (h : (Pattern.seq p wordEnd).run nested .tight c = some m) :
    EndsName m.after.rest := by
  obtain ⟨a, b, -, hb, rfl⟩ := run_seq_eq_some.mp h
  obtain ⟨hnone, rfl⟩ := run_absent_eq_some.mp hb
  exact endsName_of_nameChar hnone

theorem endsName_of_number (h : number.run nested .loose c = some m) : EndsName m.after.rest := by
  obtain ⟨m₁, h₁, rfl⟩ := run_rule_eq_some.mp h
  obtain ⟨a, m₂, -, h₂, rfl⟩ := run_seq_eq_some.mp h₁
  have hends : EndsName m₂.after.rest := endsName_of_wordEnd h₂
  rwa [named_after]

/-- A column goes on as far as its name does. -/
theorem endsName_of_anyColumn (hn : nested.Advances) (h : anyColumn.run nested .loose c = some m) :
    EndsName m.after.rest := by
  rcases run_alt_eq_some.mp h with h | ⟨-, h⟩
  · obtain ⟨m₁, h₁, rfl⟩ := run_rule_eq_some.mp h
    obtain ⟨a, m₂, -, h₂, rfl⟩ := run_seq_eq_some.mp h₁
    obtain ⟨b, m₃, -, h₃, rfl⟩ := run_seq_eq_some.mp h₂
    obtain ⟨d, m₄, -, h₄, rfl⟩ := run_seq_eq_some.mp h₃
    obtain ⟨e, m₅, -, h₅, rfl⟩ := run_seq_eq_some.mp h₄
    have hends : EndsName m₅.after.rest := endsName_of_wordEnd h₅
    rwa [named_after]
  · obtain ⟨m₁, h₁, rfl⟩ := run_rule_eq_some.mp h
    obtain ⟨a, m₂, -, h₂, rfl⟩ := run_seq_eq_some.mp h₁
    obtain ⟨b, l, -, hl, rfl⟩ := run_seq_eq_some.mp h₂
    have hstop := ((run_many_iff_loop hn rfl rfl).mp hl).last_fails
    rw [named_after]
    exact endsName_of_nameChar hstop

/-! ### What was read -/

/-- A rule matched as a whole has read the text of its token. -/
theorem whole_reads {r : Rule} {body : Pattern} (hb : body.isTight = true)
    (h : (whole r body).run nested .loose c = some m) :
    ∃ t, m.tokens = [t] ∧ c.Reads t.text.toList m.after ∧ body.Denotes t.text.toList := by
  obtain ⟨cs, hread, hd, htok⟩ := run_whole (by decide) hb h
  exact ⟨_, htok, by simpa [Token.text] using hread, by simpa [Token.text] using hd⟩

theorem blanks_read (c : Cursor) : ∃ bs, Blanks bs ∧ c.Reads bs (c.skip .loose) :=
  Cursor.skip_reads .loose c

theorem anyColumn_reads (h : anyColumn.run nested .loose c = some m) :
    ∃ t n, m.tokens = [t] ∧ ColumnName.ofToken? t = some n ∧ n.WellWritten ∧
      c.Reads n.text.toList m.after := by
  obtain ⟨t, n, htok, hname, hw⟩ := anyColumn_token h
  have htext : n.text = t.text := by
    unfold ColumnName.ofToken? at hname
    split at hname <;> cases hname <;> rfl
  have hread : ∃ u, m.tokens = [u] ∧ c.Reads u.text.toList m.after := by
    rcases run_alt_eq_some.mp h with h | ⟨-, h⟩
    · obtain ⟨u, hu, hread, -⟩ := whole_reads rfl h
      exact ⟨u, hu, hread⟩
    · obtain ⟨u, hu, hread, -⟩ := whole_reads rfl h
      exact ⟨u, hu, hread⟩
  obtain ⟨u, hu, hread⟩ := hread
  obtain rfl : t = u := List.singleton_inj.mp (htok.symm.trans hu)
  exact ⟨t, n, htok, hname, hw, by rwa [htext]⟩

/-- **What is read as a masked column is spelled as one.** -/
theorem masked_spelled (h : masked.run nested .loose c = some m) :
    ∃ t n op number cs, m.tokens = [t] ∧ Subject.ofToken? t = some (.masked n op number) ∧
      c.Reads cs m.after ∧ Masks cs n op number ∧ EndsName m.after.rest := by
  obtain ⟨a, b, d, ha, hb, hd, rfl⟩ := run_masked_iff.mp h
  obtain ⟨t, n, hta, hname, hw, hreada⟩ := anyColumn_reads ha
  obtain ⟨u, htb, hop⟩ := bitOperator_token hb
  obtain ⟨u', htb', hreadb, -⟩ := whole_reads rfl hb
  obtain rfl : u = u' := List.singleton_inj.mp (htb.symm.trans htb')
  obtain ⟨v, htd, hreadd, hdigits⟩ := whole_reads rfl hd
  obtain ⟨as, has, hreadas⟩ := blanks_read a.after
  obtain ⟨bs, hbs, hreadbs⟩ := blanks_read b.after
  refine ⟨_, n, u.text, v.text, _, rfl, ?_,
    hreada.append (hreadas.append (hreadb.append (hreadbs.append hreadd))),
    ⟨hw, hop, number_written hdigits, as, bs, has, hbs, rfl⟩, ?_⟩
  · simp [hta, htb, htd, Subject.ofToken?, hname]
  · have hends : EndsName d.after.rest := endsName_of_number hd
    rwa [named_after]

end Language

/-! ### Left sides -/

open Pattern FlowSelect.Language

/-- How a left side is spelled before some characters. Without brackets it goes on as far as the name or
the number at its end does. -/
inductive Subject.Spelled : Subject → (cs rest : List Char) → Prop where
  | brackets {n : ColumnName} {op number : String} {as cs bs rest : List Char} (h : Masks cs n op number)
      (has : Blanks as) (hbs : Blanks bs) :
      Spelled (.masked n op number) ('(' :: (as ++ (cs ++ (bs ++ [')'])))) rest
  | masked {n : ColumnName} {op number : String} {cs rest : List Char} (h : Masks cs n op number)
      (hrest : EndsName rest) : Spelled (.masked n op number) cs rest
  | column {n : ColumnName} {rest : List Char} (h : n.WellWritten) (hrest : EndsName rest) :
      Spelled (.column n) n.text.toList rest

namespace Subject.Spelled

variable {nested : Matcher} {x : Subject} {cs ds js rest : List Char}

/-- Only the next character matters. -/
theorem before {rest' : List Char} (h : x.Spelled cs rest) (hhead : rest'.head? = rest.head?) :
    x.Spelled cs rest' := by
  have hends : EndsName rest → EndsName rest' := by
    intro hrest r hr
    rw [hhead] at hr
    exact hrest r hr
  cases h with
  | brackets h has hbs => exact .brackets h has hbs
  | masked h hrest => exact .masked h (hends hrest)
  | column h hrest => exact .column h (hends hrest)

/-- **A left side that is spelled so is read**, before a relation or a value. -/
theorem gives {sign : Option String} (h : x.Spelled cs (js ++ (ds ++ rest))) (hn : nested.Advances)
    (hj : Joint js sign) (hds : Solid ds) (hfirst : ∀ r ∈ (ds ++ rest).head?, value.first r = true) :
    Gives nested subject Subject.ofToken? cs (js ++ (ds ++ rest)) x := by
  cases h with
  | brackets h has hbs => exact h.subject_gives_brackets hn has hbs _
  | masked h hrest => exact h.subject_gives hn hrest
  | column h hrest => exact hj.subject_gives_column hn h hds hfirst hrest

/-- A left side does not start with a blank or a sign for "not". -/
theorem starts (h : x.Spelled cs rest) :
    ∃ r ds, cs = r :: ds ∧ Cursor.isBlank r = false ∧ negation.first r = false := by
  cases h with
  | brackets h has hbs => exact ⟨_, _, rfl, rfl, rfl⟩
  | masked h hrest =>
    obtain ⟨as, bs, -, -, rfl⟩ := h.blanks
    obtain ⟨r, ds, hr, hblank, -, hfirst⟩ := head_column h.column
    exact ⟨r, _, by rw [hr, List.cons_append], hblank, hfirst⟩
  | column h hrest =>
    obtain ⟨r, ds, hr, hblank, -, hfirst⟩ := head_column h
    exact ⟨r, ds, hr, hblank, hfirst⟩

end Subject.Spelled

namespace Language

variable {nested : Matcher} {c : Cursor} {m : Match}

/-- **What is read as a left side is spelled as one.** -/
theorem subject_spelled (hn : nested.Advances) (h : subject.run nested .loose c = some m) :
    ∃ t x cs, m.tokens = [t] ∧ Subject.ofToken? t = some x ∧ c.Reads cs m.after ∧
      x.Spelled cs m.after.rest := by
  rcases run_subject_iff.mp h with h | ⟨-, h⟩
  · obtain ⟨rest, b, tail, hopen, hb, hclose, rfl⟩ := run_bracketed_iff.mp h
    obtain ⟨t, n, op, number, cs, htok, ht, hread, hmasks, -⟩ := masked_spelled hb
    obtain ⟨as, has, hreadas⟩ := blanks_read (Cursor.next '(' c.offset rest)
    obtain ⟨bs, hbs, hreadbs⟩ := blanks_read b.after
    have hreadopen : c.Reads ['('] (Cursor.next '(' c.offset rest) := by
      have hnext := Cursor.reads_next c.offset '(' rest
      rwa [← hopen] at hnext
    have hreadclose : (b.after.skip .loose).Reads [')']
        (Cursor.next ')' (b.after.skip .loose).offset tail) := by
      have hnext := Cursor.reads_next (b.after.skip .loose).offset ')' tail
      rwa [← hclose] at hnext
    exact ⟨t, _, _, htok, ht,
      hreadopen.append (hreadas.append (hread.append (hreadbs.append hreadclose))),
      .brackets hmasks has hbs⟩
  · rcases run_alt_eq_some.mp h with h | ⟨-, h⟩
    · obtain ⟨t, n, op, number, cs, htok, ht, hread, hmasks, hends⟩ := masked_spelled h
      exact ⟨t, _, cs, htok, ht, hread, .masked hmasks hends⟩
    · obtain ⟨t, n, htok, ht, hw, hread⟩ := anyColumn_reads h
      refine ⟨t, .column n, _, htok, ?_, hread, .column hw (endsName_of_anyColumn hn h)⟩
      rw [Subject.ofToken?, ht]
      · rfl
      · rintro _ _ _ _ _ rfl
        simp [ColumnName.ofToken?] at ht

/-! ### Comparisons -/

/-- **Between a left side and a value stand blanks and perhaps a relation.** -/
theorem relation_joint (h : (Pattern.opt relation).run nested .loose (c.skip .loose) = some m) :
    ∃ js sign, Joint js sign ∧ c.Reads js (m.after.skip .loose) ∧
      (sign = none ∧ m.tokens = [] ∨ ∃ t, sign = some t.text ∧ m.tokens = [t]) := by
  obtain ⟨as, has, hreadas⟩ := blanks_read c
  rcases run_opt_eq_some.mp h with h | ⟨-, rfl⟩
  · obtain ⟨t, htok, hsymbol⟩ := relation_token h
    obtain ⟨u, hu, hread, -⟩ := whole_reads rfl h
    obtain rfl : t = u := List.singleton_inj.mp (htok.symm.trans hu)
    obtain ⟨bs, hbs, hreadbs⟩ := blanks_read m.after
    exact ⟨_, some t.text, .sign has hsymbol hbs, hreadas.append (hread.append hreadbs), .inr ⟨t, rfl, htok⟩⟩
  · refine ⟨as, none, .bare has, ?_, .inl ⟨rfl, rfl⟩⟩
    rw [Cursor.skip_skip]
    exact hreadas

end Language

/-- The token of a comparison writes a clause: the span of the clause is that of the token, and the text of
the token, taken alone, writes the clause but for its span. -/
structure Token.Writes (t : Token) (clause : Clause) : Prop where
  span : clause.span = t.span
  alone : ∃ span, Query.Written t.text.toList (.clause { clause with span })

/-- **Cut out of its text, a comparison writes the same clause.** -/
theorem Language.comparisonsRead_alone : Query.ComparisonsRead Token.Writes := by
  intro nested hn c m h
  obtain ⟨a, r, v, ha, hr, hv, rfl⟩ := run_comparison_iff.mp h
  obtain ⟨t, x, cs, hta, hx, hreada, hspelled⟩ := subject_spelled hn ha
  obtain ⟨js, sign, hj, hreadr, hsign⟩ := relation_joint hr
  obtain ⟨w, form, text, ds, htv, hw, hreadv, hwritten⟩ := value_written hn hv
  have hread : c.Reads (cs ++ (js ++ ds)) v.after := hreada.append (hreadr.append hreadv)
  have hclause := ofTokens?_parts hta hx hsign htv hw
  set u := Token.node .comparison c.offset (c.textTo v.after) (a.tokens ++ (r.tokens ++ v.tokens))
  refine ⟨u, ⟨u.span, x, sign, form, text⟩, rfl, by simp [u, Query.item?, hclause], rfl, ?_⟩
  -- the comparison is read again, with the end of the text behind it
  have hvalue : Gives matchNested value ValueForm.ofToken? ds [] (form, text) :=
    hwritten.gives matchNested_advances (ends_of_closes closes_nil)
  have hsolid := hwritten.solid
  have hbehind : a.after.rest = js ++ (ds ++ v.after.rest) := by
    rw [hreadr.1, hreadv.1]
  have hsubject : Gives matchNested subject Subject.ofToken? cs (js ++ (ds ++ [])) x := by
    refine (hspelled.before ?_).gives matchNested_advances hj hsolid
      (hsolid.first matchNested_advances rfl hvalue)
    obtain ⟨d, ds, rfl, -⟩ := hsolid
    rw [hbehind]
    simp
  obtain ⟨n, span, hrun, hafter, hitems⟩ := comparison_gives matchNested_advances hsubject hj hvalue hsolid 0
  refine ⟨span, ?_⟩
  have htext : (c.textTo v.after).toList = cs ++ (js ++ ds) := by rw [hread.textTo_eq, String.toList_ofList]
  rw [show u.text = c.textTo v.after from rfl, htext]
  obtain ⟨d, more, rfl, hstarts⟩ := hspelled.starts
  exact Query.written_comparison ⟨d, _, rfl, hstarts⟩ (by simpa using hrun) hafter hitems

end FlowSelect
