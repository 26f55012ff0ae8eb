/-
# Matches of the language's rules

What a match of each rule of the filter language consists of. A rule that is matched as a whole
leaves one token, whose text is what was read and belongs to the language of the rule's body. The
other rules are sequences, taken apart here once so that later proofs do not unfold the grammar.

Key definition: `Language.link`.
Key theorems: `Language.run_whole`, `Language.run_comparison_iff`, `Language.run_primary_iff`,
`Language.run_expr_iff`, `Language.run_program_iff`.
-/
import FlowSelect.Proofs.Grammar.Depth

namespace FlowSelect

namespace Pattern

/-- Inside a rule matched as a whole no tokens are kept. -/
theorem run_tight_tokens {nested : Matcher} : ∀ (p : Pattern) {c : Cursor} {m : Match},
    p.isTight = true → p.run nested .tight c = some m → m.tokens = [] := by
  intro p
  induction p with
  | literal ls =>
    intro c m _ h
    obtain ⟨d, -, rfl⟩ := bare_eq_some.mp h
    rfl
  | letters ls =>
    intro c m _ h
    obtain ⟨d, -, rfl⟩ := bare_eq_some.mp h
    rfl
  | one k =>
    intro c m _ h
    obtain ⟨d, -, rfl⟩ := bare_eq_some.mp h
    rfl
  | start =>
    intro c m _ h
    obtain ⟨-, rfl⟩ := run_start_eq_some.mp h
    rfl
  | finish =>
    intro c m _ h
    obtain ⟨-, rfl⟩ := run_finish_eq_some.mp h
    rfl
  | seq p q ihp ihq =>
    intro c m ht h
    obtain ⟨htp, htq⟩ := Bool.and_eq_true_iff.mp ht
    obtain ⟨m₁, m₂, h₁, h₂, rfl⟩ := run_seq_eq_some.mp h
    simp [ihp htp h₁, ihq htq h₂]
  | alt p q ihp ihq =>
    intro c m ht h
    obtain ⟨htp, htq⟩ := Bool.and_eq_true_iff.mp ht
    rcases run_alt_eq_some.mp h with h | ⟨-, h⟩
    · exact ihp htp h
    · exact ihq htq h
  | many p ihp =>
    intro c m ht h
    refine run_many_keeps (P := fun m => m.tokens = []) rfl (fun n hn => ihp ht hn) ?_ h
    intro m n hm hn
    simp [hm, ihp ht hn]
  | opt p ihp =>
    intro c m ht h
    rcases run_opt_eq_some.mp h with h | ⟨-, rfl⟩
    · exact ihp ht h
    · rfl
  | absent p ihp =>
    intro c m _ h
    obtain ⟨-, rfl⟩ := run_absent_eq_some.mp h
    rfl
  | rule r spacing body ih =>
    intro c m _ h
    obtain ⟨m₁, -, rfl⟩ := run_rule_eq_some.mp h
    rfl
  | nested =>
    intro c m ht _
    simp [isTight] at ht

end Pattern

namespace Language

open Pattern

variable {nested : Matcher} {c : Cursor} {m : Match}

/-- **A rule matched as a whole leaves one token**: what was read, which belongs to the language of
the rule's body. -/
theorem run_whole {s : Spacing} {r : Rule} {body : Pattern} (hs : s ≠ .tight)
    (hb : body.isTight = true) (h : (whole r body).run nested s c = some m) :
    ∃ cs, c.Reads cs m.after ∧ body.Denotes cs ∧
      m.tokens = [.node r c.offset (String.ofList cs) []] := by
  obtain ⟨m₁, h₁, rfl⟩ := run_rule_eq_some.mp h
  obtain ⟨cs, hc, hd⟩ := run_denotes body (s := .tight) (by decide) hb h₁
  refine ⟨cs, by simpa using hc, hd, ?_⟩
  have htok : m₁.tokens = [] := run_tight_tokens body hb h₁
  simp [named, hs, hc.textTo_eq, htok]

/-! ### Sequences of the language -/

/-- A connective and the next operand of a chain, with the signs for "not" before it. -/
def link : Pattern := inOrder connective [.many negation, primary]

theorem run_masked_iff : masked.run nested .loose c = some m ↔
    ∃ a b n, anyColumn.run nested .loose c = some a ∧
      bitOperator.run nested .loose (a.after.skip .loose) = some b ∧
      number.run nested .loose (b.after.skip .loose) = some n ∧
      m = named .masked .loose c ⟨a.tokens ++ (b.tokens ++ n.tokens), n.after⟩ := by
  constructor
  · intro h
    obtain ⟨m₁, h₁, rfl⟩ := run_rule_eq_some.mp h
    obtain ⟨a, m₂, ha, h₂, rfl⟩ := run_seq_eq_some.mp h₁
    obtain ⟨b, n, hb, hn, rfl⟩ := run_seq_eq_some.mp h₂
    exact ⟨a, b, n, ha, hb, hn, rfl⟩
  · rintro ⟨a, b, n, ha, hb, hn, rfl⟩
    exact run_rule_eq_some.mpr ⟨_, run_seq_eq_some.mpr ⟨a, _, ha,
      run_seq_eq_some.mpr ⟨b, n, hb, hn, rfl⟩, rfl⟩, rfl⟩

theorem run_subject_iff : subject.run nested .loose c = some m ↔
    (inOrder (exactly "(") [masked, exactly ")"]).run nested .loose c = some m ∨
      (inOrder (exactly "(") [masked, exactly ")"]).run nested .loose c = none ∧
        (Pattern.alt masked anyColumn).run nested .loose c = some m :=
  run_alt_eq_some

theorem run_comparison_iff : comparison.run nested .loose c = some m ↔
    ∃ a r v, subject.run nested .loose c = some a ∧
      (Pattern.opt relation).run nested .loose (a.after.skip .loose) = some r ∧
      value.run nested .loose (r.after.skip .loose) = some v ∧
      m = named .comparison .loose c ⟨a.tokens ++ (r.tokens ++ v.tokens), v.after⟩ := by
  constructor
  · intro h
    obtain ⟨m₁, h₁, rfl⟩ := run_rule_eq_some.mp h
    obtain ⟨a, m₂, ha, h₂, rfl⟩ := run_seq_eq_some.mp h₁
    obtain ⟨r, v, hr, hv, rfl⟩ := run_seq_eq_some.mp h₂
    exact ⟨a, r, v, ha, hr, hv, rfl⟩
  · rintro ⟨a, r, v, ha, hr, hv, rfl⟩
    exact run_rule_eq_some.mpr ⟨_, run_seq_eq_some.mpr ⟨a, _, ha,
      run_seq_eq_some.mpr ⟨r, v, hr, hv, rfl⟩, rfl⟩, rfl⟩

/-- Something between brackets. -/
theorem run_bracketed_iff {p : Pattern} :
    (inOrder (exactly "(") [p, exactly ")"]).run nested .loose c = some m ↔
      ∃ rest n tail, c.rest = '(' :: rest ∧
        p.run nested .loose ((Cursor.next '(' c.offset rest).skip .loose) = some n ∧
        (n.after.skip .loose).rest = ')' :: tail ∧
        m = ⟨n.tokens, Cursor.next ')' (n.after.skip .loose).offset tail⟩ := by
  obtain ⟨offset, cs⟩ := c
  constructor
  · intro h
    obtain ⟨a, m₂, ha, h₂, rfl⟩ := run_seq_eq_some.mp h
    obtain ⟨n, b, hn, hb, rfl⟩ := run_seq_eq_some.mp h₂
    obtain ⟨e, he, rfl⟩ := bare_eq_some.mp ha
    obtain ⟨e', he', rfl⟩ := bare_eq_some.mp hb
    cases cs with
    | nil => cases he
    | cons r rest =>
      by_cases hr : '(' = r
      · subst hr
        obtain rfl : Cursor.next '(' offset rest = e := by simpa [takeLiteral] using he
        rcases hafter : n.after.skip .loose with ⟨offset', _ | ⟨r', tail⟩⟩
        · simp [hafter, takeLiteral] at he'
        · by_cases hr' : ')' = r'
          · subst hr'
            obtain rfl : Cursor.next ')' offset' tail = e' := by
              simpa [hafter, takeLiteral] using he'
            exact ⟨rest, n, tail, rfl, hn, by rw [hafter], by simp [hafter]⟩
          · simp [hafter, takeLiteral, hr'] at he'
      · simp [takeLiteral, hr] at he
  · rintro ⟨rest, n, tail, hc, hn, ht, rfl⟩
    obtain rfl : cs = '(' :: rest := hc
    have hopen : (exactly "(").run nested .loose ⟨offset, '(' :: rest⟩ =
        some ⟨[], Cursor.next '(' offset rest⟩ := by
      simp [exactly, run, takeLiteral, bare]
    have hclose : (exactly ")").run nested .loose (n.after.skip .loose) =
        some ⟨[], Cursor.next ')' (n.after.skip .loose).offset tail⟩ := by
      rcases hafter : n.after.skip .loose with ⟨offset', cs'⟩
      rw [hafter] at ht
      obtain rfl : cs' = ')' :: tail := ht
      simp [exactly, run, takeLiteral, bare]
    exact run_seq_eq_some.mpr ⟨_, _, hopen, run_seq_eq_some.mpr ⟨n, _, hn, hclose, rfl⟩, by simp⟩

/-- A primary is a comparison, or an expression in brackets where there is no comparison. -/
theorem run_primary_iff : primary.run nested .loose c = some m ↔
    comparison.run nested .loose c = some m ∨
      comparison.run nested .loose c = none ∧
        (inOrder (exactly "(") [.nested, exactly ")"]).run nested .loose c = some m :=
  run_alt_eq_some

theorem run_link_iff : link.run nested .loose c = some m ↔
    ∃ o n p, connective.run nested .loose c = some o ∧
      (Pattern.many negation).run nested .loose (o.after.skip .loose) = some n ∧
      primary.run nested .loose (n.after.skip .loose) = some p ∧
      m = ⟨o.tokens ++ (n.tokens ++ p.tokens), p.after⟩ := by
  constructor
  · intro h
    obtain ⟨o, m₁, ho, h₁, rfl⟩ := run_seq_eq_some.mp h
    obtain ⟨n, p, hn, hp, rfl⟩ := run_seq_eq_some.mp h₁
    exact ⟨o, n, p, ho, hn, hp, rfl⟩
  · rintro ⟨o, n, p, ho, hn, hp, rfl⟩
    exact run_seq_eq_some.mpr ⟨o, _, ho, run_seq_eq_some.mpr ⟨n, p, hn, hp, rfl⟩, rfl⟩

/-- An expression is an operand and a chain of links, which ends where no link follows. -/
theorem run_expr_iff (hn : nested.Advances) : expr.run nested .loose c = some m ↔
    ∃ n p l, (Pattern.many negation).run nested .loose c = some n ∧
      primary.run nested .loose (n.after.skip .loose) = some p ∧
      Loop .loose (link.run nested .loose) ⟨[], p.after.skip .loose⟩ l ∧
      m = named .expr .loose c ⟨n.tokens ++ (p.tokens ++ l.tokens), l.after⟩ := by
  have hmany : ∀ {p : Match} {l : Match},
      (Pattern.many link).run nested .loose (p.after.skip .loose) = some l ↔
        Loop .loose (link.run nested .loose) ⟨[], p.after.skip .loose⟩ l :=
    fun {p} => run_many_iff_loop hn rfl (Cursor.skip_skip .loose p.after)
  constructor
  · intro h
    obtain ⟨m₁, h₁, rfl⟩ := run_rule_eq_some.mp h
    obtain ⟨n, m₂, hn', h₂, rfl⟩ := run_seq_eq_some.mp h₁
    obtain ⟨p, l, hp, hl, rfl⟩ := run_seq_eq_some.mp h₂
    exact ⟨n, p, l, hn', hp, hmany.mp hl, rfl⟩
  · rintro ⟨n, p, l, hn', hp, hl, rfl⟩
    exact run_rule_eq_some.mpr ⟨_, run_seq_eq_some.mpr ⟨n, _, hn',
      run_seq_eq_some.mpr ⟨p, l, hp, hmany.mpr hl, rfl⟩, rfl⟩, rfl⟩

/-- A program is an expression or nothing, and then the end of the text. -/
theorem run_program_iff {cs : List Char} :
    program.run nested .loose ⟨0, cs⟩ = some m ↔
      ∃ e, (Pattern.opt expr).run nested .loose (Cursor.skip .loose ⟨0, cs⟩) = some e ∧
        (e.after.skip .loose).rest = [] ∧
        m = named .program .loose ⟨0, cs⟩
          ⟨e.tokens ++ [.node .endOfInput (e.after.skip .loose).offset "" []],
            e.after.skip .loose⟩ := by
  have hstart : Pattern.start.run nested .loose ⟨0, cs⟩ = some ⟨[], ⟨0, cs⟩⟩ := rfl
  have hend : ∀ {d : Cursor} {k : Match}, endOfInput.run nested .loose d = some k ↔
      d.rest = [] ∧ k = ⟨[.node .endOfInput d.offset "" []], d⟩ := by
    intro d k
    rw [endOfInput, spaced, run_rule_eq_some]
    obtain ⟨offset, _ | ⟨r, rest⟩⟩ := d
    · simp [run, bare, named, Cursor.textTo]
    · simp [run, named]
  constructor
  · intro h
    obtain ⟨m₁, h₁, rfl⟩ := run_rule_eq_some.mp h
    obtain ⟨a, m₂, ha, h₂, rfl⟩ := run_seq_eq_some.mp h₁
    obtain rfl : ⟨[], ⟨0, cs⟩⟩ = a := by simpa [hstart] using ha
    obtain ⟨e, k, he, hk, rfl⟩ := run_seq_eq_some.mp h₂
    obtain ⟨hrest, rfl⟩ := hend.mp hk
    exact ⟨e, he, hrest, by simp⟩
  · rintro ⟨e, he, hrest, rfl⟩
    exact run_rule_eq_some.mpr ⟨_, run_seq_eq_some.mpr ⟨_, _, hstart,
      run_seq_eq_some.mpr ⟨e, _, he, hend.mpr ⟨hrest, rfl⟩, rfl⟩, by simp⟩, rfl⟩

end Language

end FlowSelect
