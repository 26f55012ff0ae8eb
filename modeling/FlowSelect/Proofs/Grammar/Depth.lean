/-
# The depth of brackets

An expression is matched with a bound on how deep its brackets nest. The grammar asks for a nested
expression only after a bracket was read, so the matcher of nested expressions is asked about
shorter texts only (`run_eq_of_agree`), and any bound above the number of characters left gives the
same match (`matchExpr_eq_of_lt`). So the bound can be left out: `matchNested` is matched by the
pattern of expressions with itself for what stands in brackets.

Key definitions: `Pattern.guarded`, `Language.matchNested`.
Key theorems: `Language.matchNested_eq_run`, `Language.matchText_program`.
-/
import FlowSelect.Proofs.Grammar.Run
import FlowSelect.Grammar.Language

namespace FlowSelect

namespace Pattern

variable {nested nested' : Matcher} {s : Spacing}

/-- Whether something is read before a nested expression is asked for. -/
def guarded : Pattern → Bool
  | .seq p q => p.guarded && (q.guarded || !p.nullable)
  | .alt p q => p.guarded && q.guarded
  | .many p => p.guarded
  | .opt p => p.guarded
  | .absent p => p.guarded
  | .rule _ _ body => body.guarded
  | .nested => false
  | _ => true

theorem repeated_congr {step step' : Cursor → Option Match} {k : Nat}
    (hagree : ∀ c, c.rest.length ≤ k → step' c = step c)
    (hstep : ∀ c m, step c = some m → m.after.rest.length ≤ c.rest.length) :
    ∀ (fuel : Nat) (m : Match), m.after.rest.length ≤ k →
      repeated s step' fuel m = repeated s step fuel m := by
  intro fuel
  induction fuel with
  | zero => exact fun m _ => rfl
  | succ fuel ih =>
    intro m hm
    have hskip := Cursor.skip_length_le s m.after
    rw [repeated, repeated, hagree _ (hskip.trans hm)]
    cases h : step (m.after.skip s) with
    | none => rfl
    | some more => exact ih _ ((hstep _ _ h).trans (hskip.trans hm))

/-- **A pattern asks about nested expressions in shorter texts only.** Two matchers that agree on
texts of fewer than `k` characters give the same matches in such texts, and in texts of `k`
characters if the pattern is guarded. -/
theorem run_eq_of_agree (hn : nested.Advances) {k : Nat}
    (hagree : ∀ s c, c.rest.length < k → nested' s c = nested s c) :
    ∀ (p : Pattern) {s : Spacing} {c : Cursor},
      c.rest.length < k ∨ p.guarded = true ∧ c.rest.length ≤ k →
      p.run nested' s c = p.run nested s c := by
  intro p
  induction p with
  | literal ls => exact fun _ => rfl
  | letters ls => exact fun _ => rfl
  | one k => exact fun _ => rfl
  | start => exact fun _ => rfl
  | finish => exact fun _ => rfl
  | seq p q ihp ihq =>
    intro s c hc
    have hp : c.rest.length < k ∨ p.guarded = true ∧ c.rest.length ≤ k :=
      hc.imp_right (And.imp_left fun hg => (Bool.and_eq_true_iff.mp hg).1)
    rw [run, run, ihp hp]
    cases hm : p.run nested s c with
    | none => rfl
    | some m =>
      have hle := (Cursor.skip_length_le s m.after).trans (run_length_le hn hm)
      have hq : (m.after.skip s).rest.length < k ∨
          q.guarded = true ∧ (m.after.skip s).rest.length ≤ k := by
        rcases hc with hlt | ⟨hg, hck⟩
        · exact .inl (by omega)
        · rcases Bool.or_eq_true_iff.mp (Bool.and_eq_true_iff.mp hg).2 with hq | hnull
          · exact .inr ⟨hq, by omega⟩
          · -- the first pattern has read something
            have hlt := run_length_lt hn (by simpa using hnull) hm
            have hskip := Cursor.skip_length_le s m.after
            exact .inl (by omega)
      simp only [ihq hq]
  | alt p q ihp ihq =>
    intro s c hc
    have hp : c.rest.length < k ∨ p.guarded = true ∧ c.rest.length ≤ k :=
      hc.imp_right (And.imp_left fun hg => (Bool.and_eq_true_iff.mp hg).1)
    have hq : c.rest.length < k ∨ q.guarded = true ∧ c.rest.length ≤ k :=
      hc.imp_right (And.imp_left fun hg => (Bool.and_eq_true_iff.mp hg).2)
    rw [run, run, ihp hp, ihq hq]
  | many p ihp =>
    intro s c hc
    rw [run, run, ihp hc]
    cases hm : p.run nested s c with
    | none => rfl
    | some m =>
      have hle := run_length_le hn hm
      refine congrArg some (repeated_congr (k := m.after.rest.length) (fun d hd => ihp ?_)
        (fun d n h => run_length_le hn h) _ _ le_rfl)
      rcases hc with hlt | ⟨hg, hck⟩
      · exact .inl (by omega)
      · exact .inr ⟨hg, by omega⟩
  | opt p ihp =>
    intro s c hc
    rw [run, run, ihp hc]
  | absent p ihp =>
    intro s c hc
    rw [run, run, ihp hc]
  | rule r spacing body ih =>
    intro s c hc
    rw [run, run, ih hc]
  | nested =>
    intro s c hc
    rcases hc with hlt | ⟨hg, -⟩
    · exact hagree s c hlt
    · simp [guarded] at hg

end Pattern

namespace Language

theorem matchExpr_advances : ∀ depth, (matchExpr depth).Advances
  | 0 => fun s c m h => by simp [matchExpr] at h
  | depth + 1 => fun s c m h => by
    obtain ⟨cs, hc, hne⟩ := Pattern.run_reads (matchExpr_advances depth) expr h
    exact ⟨cs, hne rfl, hc⟩

/-- **Any bound above the number of characters left gives the same match.** -/
theorem matchExpr_eq_of_lt : ∀ {depth depth' : Nat} (s : Spacing) {c : Cursor},
    c.rest.length < depth → c.rest.length < depth' → matchExpr depth' s c = matchExpr depth s c
  | 0, _, _, _, h, _ => absurd h (Nat.not_lt_zero _)
  | _ + 1, 0, _, _, _, h => absurd h (Nat.not_lt_zero _)
  | depth + 1, depth' + 1, s, c, h, h' => by
    -- the nested matchers agree on shorter texts, by induction on the depth
    refine Pattern.run_eq_of_agree (k := c.rest.length) (matchExpr_advances depth) (fun s e he => ?_)
      expr (.inr ⟨rfl, le_rfl⟩)
    exact matchExpr_eq_of_lt s (by omega) (by omega)

/-- Matches an expression with brackets nested as deep as the text allows. -/
def matchNested : Matcher := fun s c => matchExpr (c.rest.length + 1) s c

theorem matchExpr_eq_matchNested {depth : Nat} (s : Spacing) {c : Cursor}
    (h : c.rest.length < depth) : matchExpr depth s c = matchNested s c :=
  matchExpr_eq_of_lt s (Nat.lt_succ_self _) h

theorem matchNested_advances : matchNested.Advances :=
  fun s c m h => matchExpr_advances (c.rest.length + 1) s c m h

/-- Without a bound, an expression is matched by the pattern of expressions itself. -/
theorem matchNested_eq_run (s : Spacing) (c : Cursor) : matchNested s c = expr.run matchNested s c := by
  refine (Pattern.run_eq_of_agree (k := c.rest.length) (matchExpr_advances c.rest.length)
    (fun s e he => ?_) expr (.inr ⟨rfl, le_rfl⟩)).symm
  exact (matchExpr_eq_matchNested s he).symm

/-- The bound that a text is matched with is no bound at all. -/
theorem matchText_program (text : String) :
    matchText program text = program.run matchNested .loose (Cursor.ofText text) := by
  refine (Pattern.run_eq_of_agree (k := depthOf text) (matchExpr_advances (depthOf text))
    (fun s e he => ?_) program (.inr ⟨rfl, le_rfl⟩)).symm
  exact (matchExpr_eq_matchNested s he).symm

end Language

end FlowSelect
