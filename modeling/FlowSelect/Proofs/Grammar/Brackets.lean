/-
# Expressions in brackets

An expression that is matched up to the end of its text, or up to a closing bracket, is matched in
the same way when the text is put in brackets (`matchExpr_moves`, `primary_in_brackets`). No token
but a quoted text can hold a closing bracket, and a quoted text ends with its own quote. What could
change is a choice: a bracket also starts a masked column, as in `(%flg & 2) == 2`, so
`comparison_fails` shows that the brackets of an expression are never taken for those of a masked
column: after a masked column an expression goes on with a relation or a value, not with a bracket.

Key definition: `Cursor.Closed`.
Key theorems: `Language.matchExpr_moves`, `Language.primary_in_brackets`.
-/
import FlowSelect.Proofs.Grammar.First
import FlowSelect.Proofs.Grammar.Move
import FlowSelect.Proofs.Grammar.Rules

namespace FlowSelect

/-- After blanks, the text ends or goes on with a closing bracket. -/
def Cursor.Closed (c : Cursor) : Prop :=
  (c.skip .loose).rest = [] ∨ ∃ rest, (c.skip .loose).rest = ')' :: rest

namespace Language

open Pattern

variable {nested nested' : Matcher} {d : Nat} {more : List Char} {s : Spacing} {c : Cursor}

theorem closing_not_blank : Cursor.isBlank ')' = false := rfl

/-! ### Quoted texts -/

/-- One character of a quoted text. -/
def quotedChar : Pattern := .seq (.absent (exactly "\"")) (.one .any)

theorem run_quotedChar_iff {m : Match} : quotedChar.run nested .tight c = some m ↔
    ∃ r rest, c.rest = r :: rest ∧ r ≠ '"' ∧ m = ⟨[], Cursor.next r c.offset rest⟩ := by
  obtain ⟨offset, _ | ⟨r, rest⟩⟩ := c
  · simp [quotedChar, exactly, run, takeLiteral, takeOne, bare, Cursor.skip]
  · by_cases hr : '"' = r
    · simp [quotedChar, exactly, run, takeLiteral, bare, ← hr]
    · simp [quotedChar, exactly, run, takeLiteral, takeOne, bare, CharClass.contains, hr, Cursor.skip,
        Ne.symm hr, eq_comm]

theorem quotedChar_at_quote {rest : List Char} (hc : c.rest = '"' :: rest) :
    quotedChar.run nested .tight c = none := by
  rw [Option.eq_none_iff_forall_ne_some]
  intro m hm
  obtain ⟨r, _, hr, hne, -⟩ := run_quotedChar_iff.mp hm
  rw [hc] at hr
  exact hne (List.cons.inj hr).1.symm

theorem quotedChar_moves : Moves nested nested' d more quotedChar .tight c := by
  intro m h
  obtain ⟨r, rest, hc, hr, rfl⟩ := run_quotedChar_iff.mp h
  refine run_quotedChar_iff.mpr ⟨r, rest ++ more, by simp [hc], hr, ?_⟩
  rw [moved_bare, Cursor.moved_offset, Cursor.next_moved]

/-- The characters of a quoted text and the quote after them. Only with the quote does the match
move: the characters alone would run on into what follows. -/
theorem quotedTail_moves (hn : nested.Advances) (hn' : nested'.Advances) :
    Moves nested nested' d (')' :: more) (.seq quotedText (exactly "\"")) .joined c := by
  intro m h
  obtain ⟨t, e, ht, he, rfl⟩ := run_seq_eq_some.mp h
  obtain ⟨t₁, ht₁, rfl⟩ := run_rule_eq_some.mp ht
  obtain ⟨e', he', rfl⟩ := bare_eq_some.mp he
  have hquote := (takeLiteral_reads _ he').1
  have hloop := (run_many_iff_loop (p := quotedChar) hn rfl rfl).mp ht₁
  refine run_seq_eq_some.mpr
    ⟨(named .quotedText .joined c t₁).moved d (')' :: more), Match.moved d (')' :: more) ⟨[], e'⟩,
      ?_, moves_literal _ _ he, by simp only [Match.moved, Token.movedAll_append]⟩
  refine run_rule_eq_some.mpr ⟨t₁.moved d (')' :: more), ?_, (named_moved .quotedText c t₁).symm⟩
  refine (run_many_iff_loop (p := quotedChar) hn' rfl rfl).mpr ?_
  refine hloop.moved closing_not_blank (fun c n _ hcn => quotedChar_moves n hcn) ?_
  have hmoved : ((t₁.after.skip .tight).moved d (')' :: more)).rest =
      '"' :: (e'.rest ++ ')' :: more) := by
    simpa [Cursor.skip] using congrArg (· ++ ')' :: more) hquote
  exact quotedChar_at_quote hmoved

theorem quoted_moves (hn : nested.Advances) (hn' : nested'.Advances) :
    Moves nested nested' d (')' :: more) quoted s c :=
  Moves.rule (Moves.seq closing_not_blank (moves_literal _) fun _ _ => quotedTail_moves hn hn')

/-! ### Comparisons -/

/-- The right side of a comparison moves: of its alternatives only the quoted text looks at a
closing bracket, and where that one failed and a word was found, there is no quote. -/
theorem value_moves (hn : nested.Advances) (hn' : nested'.Advances) (hc : c.skip .loose = c) :
    Moves nested nested' d (')' :: more) value s c := by
  have hstop : ∀ {p q : Pattern}, p.stopsAt ')' = true →
      Moves nested nested' d (')' :: more) q s c →
      Moves nested nested' d (')' :: more) (.alt p q) s c := fun hp hq =>
    (moves_of_stopsAt closing_not_blank hn hn' hp).alt hq fun hnone _ _ =>
      fails_of_stopsAt closing_not_blank hn hn' hp hnone
  refine hstop rfl (hstop rfl (hstop rfl (hstop rfl (hstop rfl (hstop rfl ?_)))))
  refine (quoted_moves hn hn').alt (moves_of_stopsAt closing_not_blank hn hn' rfl) ?_
  intro _ m hm
  obtain ⟨r, rest, hr, hw⟩ := run_startsAt hn hc (p := word) rfl hm
  have hmoved : (c.moved d (')' :: more)).rest = r :: (rest ++ ')' :: more) := by simp [hr]
  refine run_eq_none hn' rfl hmoved (Cursor.not_blank_of_skip_eq hc hr) ?_
  by_contra hq
  obtain rfl : '"' = r := by simpa [quoted, inOrder, exactly, first, nullable] using hq
  simp [word, whole, inOrder, first, nullable, exactly, keyword, CharClass.contains] at hw

/-- What may start a column: `%`, or the `e` of a stored column. -/
theorem first_column {r : Char} (h : (Pattern.alt masked anyColumn).first r = true) :
    r = '%' ∨ r = 'e' := by
  have : ('e' = r ∨ '%' = r) ∨ 'e' = r ∨ '%' = r := by
    simpa [masked, spaced, anyColumn, rawColumn, column, whole, inOrder, exactly, first, nullable]
      using h
  tauto

theorem bracketed_fails {p : Pattern} {r : Char} {rest : List Char} (hc : c.rest = r :: rest)
    (hr : r ≠ '(') : (inOrder (exactly "(") [p, exactly ")"]).run nested .loose c = none := by
  cases h : (inOrder (exactly "(") [p, exactly ")"]).run nested .loose c with
  | none => rfl
  | some m =>
    obtain ⟨rest', -, -, hopen, -⟩ := run_bracketed_iff.mp h
    rw [hc] at hopen
    exact absurd (List.cons.inj hopen).1 hr

theorem bracketed_moves {p : Pattern} (hp : ∀ rest m, c.rest = '(' :: rest →
      p.run nested .loose ((Cursor.next '(' c.offset rest).skip .loose) = some m → m.after.Closed →
      p.run nested' .loose (((Cursor.next '(' c.offset rest).skip .loose).moved d (')' :: more)) =
        some (m.moved d (')' :: more))) :
    Moves nested nested' d (')' :: more) (inOrder (exactly "(") [p, exactly ")"]) .loose c := by
  intro m h
  obtain ⟨rest, n, tail, hc, hn, hclose, rfl⟩ := run_bracketed_iff.mp h
  refine run_bracketed_iff.mpr ⟨rest ++ ')' :: more, n.moved d (')' :: more), tail ++ ')' :: more,
    by simp [hc], ?_, ?_, ?_⟩
  · rw [Cursor.moved_offset, Cursor.next_moved, Cursor.skip_moved d closing_not_blank]
    exact hp rest n hc hn (.inr ⟨tail, hclose⟩)
  · rw [Match.moved, Cursor.skip_moved d closing_not_blank]
    simp [hclose]
  · simp only [Match.moved]
    rw [Cursor.skip_moved d closing_not_blank, Cursor.moved_offset, Cursor.next_moved]

theorem subject_moves (hn : nested.Advances) (hn' : nested'.Advances) (hc : c.skip .loose = c) :
    Moves nested nested' d (')' :: more) subject .loose c := by
  have hmasked : Moves nested nested' d (')' :: more) (.alt masked anyColumn) .loose c :=
    moves_of_stopsAt closing_not_blank hn hn' rfl
  refine Moves.alt (bracketed_moves fun rest m _ hm _ => ?_) hmasked ?_
  · exact moves_of_stopsAt closing_not_blank hn hn' rfl m hm
  · intro _ m hm
    obtain ⟨r, rest, hr, hf⟩ := run_startsAt hn hc (p := .alt masked anyColumn) rfl hm
    have hmoved : (c.moved d (')' :: more)).rest = r :: (rest ++ ')' :: more) := by simp [hr]
    refine bracketed_fails hmoved ?_
    rcases first_column hf with rfl | rfl <;> decide

theorem comparison_moves (hn : nested.Advances) (hn' : nested'.Advances) (hc : c.skip .loose = c) :
    Moves nested nested' d (')' :: more) comparison .loose c := by
  refine Moves.rule (Moves.seq closing_not_blank (subject_moves hn hn' hc) fun m _ => ?_)
  refine Moves.seq closing_not_blank (moves_of_stopsAt closing_not_blank hn hn' rfl) fun m' _ => ?_
  exact value_moves hn hn' (Cursor.skip_skip .loose m'.after)

/-! ### Brackets of an expression and of a masked column -/

/-- Where a masked column starts an expression, it is the left side of a comparison: after it a
relation or a value is found. -/
theorem value_after_masked (hn : nested.Advances) (hc : c.skip .loose = c) {m m' : Match}
    (h : expr.run nested .loose c = some m) (hm : masked.run nested .loose c = some m') :
    ∃ n, (Pattern.seq (.opt relation) value).run nested .loose (m'.after.skip .loose) = some n := by
  obtain ⟨r, rest, hr, hf⟩ := run_startsAt hn hc (p := masked) rfl hm
  have hcol : r = '%' ∨ r = 'e' := first_column (by simp [first, hf])
  have hbracket : r ≠ '(' := by rcases hcol with rfl | rfl <;> decide
  -- no sign for "not" stands here
  have hneg : negation.run nested .loose c = none :=
    run_eq_none hn rfl hr (Cursor.not_blank_of_skip_eq hc hr)
      (by rcases hcol with rfl | rfl <;> rfl)
  obtain ⟨n, p, -, hnots, hp, -⟩ := (run_expr_iff hn).mp h
  obtain rfl : n = ⟨[], c⟩ := by simpa [run, hneg, bare, eq_comm] using hnots
  change primary.run nested .loose (c.skip .loose) = some p at hp
  rw [hc] at hp
  -- nor a bracket, so the primary is a comparison, and its left side the masked column
  rcases run_primary_iff.mp hp with hcmp | ⟨-, hbr⟩
  · obtain ⟨a, o, v, ha, ho, hv, -⟩ := run_comparison_iff.mp hcmp
    rcases run_subject_iff.mp ha with hbr | ⟨-, hsub⟩
    · rw [bracketed_fails hr hbracket] at hbr
      cases hbr
    · rcases run_alt_eq_some.mp hsub with hmask | ⟨hnone, -⟩
      · obtain rfl : m' = a := by simpa [hm] using hmask
        exact ⟨_, run_seq_eq_some.mpr ⟨o, v, ho, hv, rfl⟩⟩
      · rw [hm] at hnone
        cases hnone
  · rw [bracketed_fails hr hbracket] at hbr
    cases hbr

/-- **The brackets of an expression are not those of a masked column.** If an expression is found at
`c`, no comparison is found at an opening bracket with the text of `c` after it. -/
theorem comparison_fails (hn : nested.Advances) (hn' : nested'.Advances) (hc : c.skip .loose = c)
    {m : Match} (h : expr.run nested .loose c = some m) {e : Cursor} {rest : List Char}
    (he : e.rest = '(' :: rest)
    (hnext : (Cursor.next '(' e.offset rest).skip .loose = c.moved d (')' :: more)) :
    comparison.run nested' .loose e = none := by
  cases hcmp : comparison.run nested' .loose e with
  | none => rfl
  | some k =>
    exfalso
    obtain ⟨a, -, -, ha, -⟩ := run_comparison_iff.mp hcmp
    rcases run_subject_iff.mp ha with hbr | ⟨-, hcol⟩
    · obtain ⟨rest', n, tail, he', hmask, hclose, -⟩ := run_bracketed_iff.mp hbr
      obtain rfl : rest = rest' := by simpa [he] using he'
      -- a masked column in the brackets is also one at `c`
      rw [hnext, run_moved closing_not_blank hn hn' masked rfl] at hmask
      obtain ⟨m', hm', rfl⟩ := Option.map_eq_some_iff.mp hmask
      obtain ⟨v, hv⟩ := value_after_masked hn hc h hm'
      obtain ⟨r, cs, hr, hf⟩ :=
        run_startsAt hn (Cursor.skip_skip .loose m'.after) (p := .seq (.opt relation) value) rfl hv
      -- and the closing bracket would have to stand where its value starts
      rw [Match.moved, Cursor.skip_moved d closing_not_blank, Cursor.moved_rest, hr] at hclose
      obtain rfl : r = ')' := (List.cons.inj hclose).1
      exact absurd hf (by decide)
    · have hnone : (Pattern.alt masked anyColumn).run nested' .loose e = none :=
        run_eq_none hn' rfl he rfl rfl
      rw [hnone] at hcol
      cases hcol

/-! ### Chains -/

/-- The primaries of an expression move if the expressions in brackets do. -/
theorem primary_moves {depth : Nat} (hc : c.skip .loose = c)
    (hnest : ∀ c m, c.skip .loose = c → matchExpr depth .loose c = some m → m.after.Closed →
      matchNested .loose (c.moved d (')' :: more)) = some (m.moved d (')' :: more))) :
    Moves (matchExpr depth) matchNested d (')' :: more) primary .loose c := by
  have hn := matchExpr_advances depth
  refine (comparison_moves hn matchNested_advances hc).alt (bracketed_moves fun rest m _ hm hcl => ?_) ?_
  · exact hnest _ m (Cursor.skip_skip .loose _) hm hcl
  · intro _ m hm
    obtain ⟨rest, n, tail, hopen, hexpr, -, -⟩ := run_bracketed_iff.mp hm
    cases depth with
    | zero => cases hexpr
    | succ depth =>
      have hmoved : (c.moved d (')' :: more)).rest = '(' :: (rest ++ ')' :: more) := by simp [hopen]
      have hnext : (Cursor.next '(' (c.moved d (')' :: more)).offset (rest ++ ')' :: more)).skip .loose =
          ((Cursor.next '(' c.offset rest).skip .loose).moved d (')' :: more) := by
        rw [Cursor.moved_offset, Cursor.next_moved, Cursor.skip_moved d closing_not_blank]
      exact comparison_fails (matchExpr_advances depth) matchNested_advances
        (Cursor.skip_skip .loose (Cursor.next '(' c.offset rest)) hexpr hmoved hnext

theorem link_moves {depth : Nat}
    (hnest : ∀ c m, c.skip .loose = c → matchExpr depth .loose c = some m → m.after.Closed →
      matchNested .loose (c.moved d (')' :: more)) = some (m.moved d (')' :: more))) :
    Moves (matchExpr depth) matchNested d (')' :: more) link .loose c := by
  have hn := matchExpr_advances depth
  refine Moves.seq closing_not_blank
    (moves_of_stopsAt closing_not_blank hn matchNested_advances rfl) fun o _ => ?_
  refine Moves.seq closing_not_blank
    (moves_of_stopsAt closing_not_blank hn matchNested_advances rfl) fun n _ => ?_
  exact primary_moves (Cursor.skip_skip .loose n.after) hnest

/-- No chain goes on at a closing bracket. -/
theorem link_fails (hn : nested.Advances) {rest : List Char} (hc : c.rest = ')' :: rest) :
    link.run nested .loose c = none :=
  run_eq_none hn rfl hc closing_not_blank rfl

/-- **An expression moves**: if it is matched up to the end of the text or a closing bracket, it is
matched in the same way where a closing bracket follows. -/
theorem matchExpr_moves : ∀ (depth : Nat) {c : Cursor} {m : Match}, c.skip .loose = c →
    matchExpr depth .loose c = some m → m.after.Closed →
    matchNested .loose (c.moved d (')' :: more)) = some (m.moved d (')' :: more))
  | 0, _, _, _, h, _ => by cases h
  | depth + 1, c, m, hc, h, hclosed => by
    have hnest : ∀ c m, c.skip .loose = c → matchExpr depth .loose c = some m → m.after.Closed →
        matchNested .loose (c.moved d (')' :: more)) = some (m.moved d (')' :: more)) :=
      fun c m => matchExpr_moves depth
    have hn := matchExpr_advances depth
    obtain ⟨n, p, l, hnots, hp, hl, rfl⟩ := (run_expr_iff hn).mp h
    rw [matchNested_eq_run, run_expr_iff matchNested_advances]
    refine ⟨n.moved d (')' :: more), p.moved d (')' :: more), l.moved d (')' :: more), ?_, ?_, ?_, ?_⟩
    · exact moves_of_stopsAt closing_not_blank hn matchNested_advances rfl n hnots
    · rw [Match.moved, Cursor.skip_moved d closing_not_blank]
      exact primary_moves (Cursor.skip_skip .loose n.after) hnest p hp
    · rw [Match.moved, Cursor.skip_moved d closing_not_blank]
      refine hl.moved closing_not_blank (fun c k _ hk => link_moves hnest k hk) ?_
      obtain ⟨tail, htail⟩ : ∃ tail, ((l.after.skip .loose).moved d (')' :: more)).rest = ')' :: tail := by
        rw [named_after] at hclosed
        rcases hclosed with hnil | ⟨rest, hrest⟩
        · exact ⟨more, by simpa using hnil⟩
        · exact ⟨rest ++ ')' :: more, by rw [Cursor.moved_rest, hrest]; rfl⟩
      exact link_fails matchNested_advances htail
    · rw [← named_moved]
      simp [Match.moved, Token.movedAll_append]

/-- **A text in brackets is a primary with the tokens of the text**, whatever follows the brackets. -/
theorem primary_in_brackets {cs : List Char} {m : Match}
    (h : matchNested .loose (Cursor.skip .loose ⟨0, cs⟩) = some m)
    (hend : (m.after.skip .loose).rest = []) (offset : Nat) (more : List Char) :
    primary.run matchNested .loose ⟨offset, '(' :: (cs ++ ')' :: more)⟩ =
      some ⟨Token.movedAll (offset + 1) m.tokens,
        Cursor.next ')' ((m.after.skip .loose).offset + (offset + 1)) more⟩ := by
  set c : Cursor := Cursor.skip .loose ⟨0, cs⟩ with hcdef
  have hc : c.skip .loose = c := Cursor.skip_skip .loose _
  have hnext : (Cursor.next '(' offset (cs ++ ')' :: more)).skip .loose =
      c.moved (offset + 1) (')' :: more) := by
    have : Cursor.next '(' offset (cs ++ ')' :: more) =
        (⟨0, cs⟩ : Cursor).moved (offset + 1) (')' :: more) := by
      simp [Cursor.next, Cursor.moved]
      rfl
    rw [this, Cursor.skip_moved _ closing_not_blank]
  refine run_primary_iff.mpr (.inr ⟨?_, ?_⟩)
  · have hexpr : expr.run matchNested .loose c = some m := by rw [← matchNested_eq_run, h]
    exact comparison_fails matchNested_advances matchNested_advances hc hexpr rfl hnext
  · refine run_bracketed_iff.mpr ⟨_, m.moved (offset + 1) (')' :: more), more, rfl, ?_, ?_, ?_⟩
    · rw [hnext]
      exact matchExpr_moves (c.rest.length + 1) hc h (.inl hend)
    · rw [Match.moved, Cursor.skip_moved _ closing_not_blank, Cursor.moved_rest, hend]
      rfl
    · rw [Match.moved, Cursor.skip_moved _ closing_not_blank, Cursor.moved_offset]

end Language
end FlowSelect
