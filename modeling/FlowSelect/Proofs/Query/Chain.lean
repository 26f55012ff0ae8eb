/-
# Chains of operands

Operands joined by one connective, each with its word between blanks, are read as the query of their
queries joined from the left. An operand is a comparison or an expression in brackets; a chain is
built up operand by operand, and two chains of the same connective make a longer one.

Key definitions: `Query.IsOperand`, `Query.Chain`.
Key theorems: `Query.Chain.append`, `Query.Chain.compiles`, `Query.isOperand_brackets`.
-/
import FlowSelect.Proofs.Engine.Reader
import FlowSelect.Proofs.Grammar.Takes
import FlowSelect.Proofs.Query.Composition

namespace FlowSelect

/-- The word of a connective with blanks around it, before the characters of an operand. -/
def Connective.before (k : Connective) (cs : List Char) : List Char := ' ' :: (k.word.toList ++ ' ' :: cs)

namespace Query

open Pattern FlowSelect.Language

/-- Two queries joined by a connective. -/
def join : Connective → Query → Query → Query
  | .and, q, r => .and q r
  | .or, q, r => .or q r

theorem compile_join {s : Schema} {k : Connective} {q r : Query} {p p' : Predicate}
    (hq : q.compile s = .ok p) (hr : r.compile s = .ok p') :
    (join k q r).compile s = .ok (k.join p p') := by
  cases k with
  | and => exact compile_and_iff.mpr ⟨p, p', hq, hr, rfl⟩
  | or => exact compile_or_iff.mpr ⟨p, p', hq, hr, rfl⟩

/-! ### Flat expressions of one connective -/

/-- The members of a chain after its first operand. -/
def links (k : Connective) (qs : List Query) : List Item := qs.flatMap fun q => [.link k, .operand q]

theorem chain?_links (k : Connective) : ∀ (q : Query) (qs : List Query),
    chain? 0 (.operand q :: links k qs) = some (q, qs.map (k, ·))
  | q, [] => rfl
  | q, r :: qs => by
    have ih := chain?_links k r qs
    simp only [links, List.flatMap_cons, List.cons_append, List.nil_append] at ih ⊢
    rw [chain?, ih]
    rfl

theorem joinRuns_and : ∀ (runs : Option Query) (run : Query) (qs : List Query),
    joinRuns runs run (qs.map (.and, ·)) = addRun runs (qs.foldl .and run)
  | _, _, [] => rfl
  | runs, run, q :: qs => joinRuns_and runs (.and run q) qs

theorem joinRuns_or : ∀ (runs : Option Query) (run : Query) (qs : List Query),
    joinRuns runs run (qs.map (.or, ·)) = qs.foldl .or (addRun runs run)
  | _, _, [] => rfl
  | runs, run, q :: qs => joinRuns_or (some (addRun runs run)) q qs

/-- **A chain of one connective is joined from the left.** -/
theorem ofItems?_links (k : Connective) (q : Query) (qs : List Query) :
    ofItems? (.operand q :: links k qs) = some (qs.foldl (join k) q) := by
  rw [ofItems?, chain?_links]
  cases k with
  | and => exact congrArg some (joinRuns_and none q qs)
  | or => exact congrArg some (joinRuns_or none q qs)

theorem compile_foldl {s : Schema} {k : Connective} {qs : List Query} {ps : List Predicate}
    (h : List.Forall₂ (fun q p => q.compile s = .ok p) qs ps) : ∀ {q : Query} {p : Predicate},
      q.compile s = .ok p → (qs.foldl (join k) q).compile s = .ok (ps.foldl k.join p) := by
  induction h with
  | nil => exact fun hq => hq
  | cons hr _ ih => exact fun hq => ih (compile_join hq hr)

/-! ### Operands -/

/-- The characters are an operand that compiles to the predicate, before anything that ends a token.
No sign for "not" starts there. -/
structure IsOperand (s : Schema) (cs : List Char) (p : Predicate) : Prop where
  starts : ∃ r ds, cs = r :: ds ∧ Cursor.isBlank r = false ∧ negation.first r = false
  reads : ∀ offset rest, Closes rest → ∃ m q, primary.run matchNested .loose ⟨offset, cs ++ rest⟩ = some m ∧
    m.after.rest = rest ∧ items? m.tokens = some [.operand q] ∧ q.compile s = .ok p

variable {s : Schema} {k : Connective} {cs ds : List Char} {p : Predicate} {ps : List Predicate}

theorem IsOperand.skip (h : IsOperand s cs p) (offset : Nat) (rest : List Char) :
    Cursor.skip .loose ⟨offset, cs ++ rest⟩ = ⟨offset, cs ++ rest⟩ := by
  obtain ⟨r, ds, rfl, hr, -⟩ := h.starts
  exact Cursor.skip_of_not_blank .loose rfl hr

theorem IsOperand.no_negation (h : IsOperand s cs p) (offset : Nat) (rest : List Char) :
    (Pattern.many negation).run matchNested .loose ⟨offset, cs ++ rest⟩ = some ⟨[], ⟨offset, cs ++ rest⟩⟩ := by
  obtain ⟨r, ds, rfl, hr, hfirst⟩ := h.starts
  exact Query.no_negation rfl hr hfirst

/-- **A text in brackets is an operand.** -/
theorem isOperand_brackets {q : Query} (h : Written cs q) (hq : q.compile s = .ok p) :
    IsOperand s ('(' :: (cs ++ [')'])) p := by
  refine ⟨⟨_, _, rfl, rfl, rfl⟩, fun offset rest _ => ?_⟩
  obtain ⟨m, hm, hafter, hitems⟩ := operand_in_brackets h offset rest
  refine ⟨m, _, ?_, hafter, hitems, compile_moved_of_ok (offset + 1) hq⟩
  rw [← hm]
  simp

/-! ### Chains -/

/-- Operands joined by one connective: the characters, the predicate of the first operand and those of
the others. -/
inductive Chain (s : Schema) (k : Connective) : List Char → Predicate → List Predicate → Prop where
  | last {cs : List Char} {p : Predicate} (h : IsOperand s cs p) : Chain s k cs p []
  | more {cs ds : List Char} {p q : Predicate} {qs : List Predicate} (h : IsOperand s cs p)
      (rest : Chain s k ds q qs) : Chain s k (cs ++ k.before ds) p (q :: qs)

/-- Two chains with the connective between them are one chain. -/
theorem Chain.append {q : Predicate} {qs : List Predicate} (h : Chain s k cs p ps)
    (h' : Chain s k ds q qs) : Chain s k (cs ++ k.before ds) p (ps ++ q :: qs) := by
  induction h with
  | last h => exact .more h h'
  | more h _ ih =>
    have hmore := Chain.more h ih
    simpa [Connective.before] using hmore

/-- The word of a connective is read as a sign for it. -/
theorem connective_before (k : Connective) (cs : List Char) (offset : Nat) :
    ∃ m, connective.run matchNested .loose (Cursor.skip .loose ⟨offset, k.before cs⟩) = some m ∧
      m.after.rest = ' ' :: cs ∧ items? m.tokens = some [.link k] := by
  cases k <;> exact ⟨_, rfl, rfl, rfl⟩

/-- An operand after the word of a connective is one link. -/
theorem link_before (h : IsOperand s cs p) {rest : List Char} (hrest : Closes rest) {c : Cursor}
    (hc : c.rest = k.before (cs ++ rest)) :
    ∃ m q, link.run matchNested .loose (c.skip .loose) = some m ∧ m.after.rest = rest ∧
      items? m.tokens = some [.link k, .operand q] ∧ q.compile s = .ok p := by
  obtain ⟨offset, _⟩ := c
  obtain rfl := hc
  obtain ⟨⟨ts, offset', _⟩, ho, hafter, hitems⟩ := connective_before k (cs ++ rest) offset
  obtain rfl := hafter
  have hskip : Cursor.skip .loose ⟨offset', ' ' :: (cs ++ rest)⟩ = ⟨offset' + 1, cs ++ rest⟩ :=
    h.skip (offset' + 1) rest
  obtain ⟨m, q, hm, hmrest, hmitems, hq⟩ := h.reads (offset' + 1) rest hrest
  refine ⟨_, q, run_link_iff.mpr ⟨_, ⟨[], ⟨offset' + 1, cs ++ rest⟩⟩, m, ho, ?_, ?_, rfl⟩, hmrest,
    items?_append hitems hmitems, hq⟩
  · rw [hskip]
    exact h.no_negation _ _
  · rw [h.skip]
    exact hm

/-- **The links of a chain are read one after another, up to the end of the text.** -/
theorem Chain.links_read (h : Chain s k cs p ps) : ∀ {m : Match} {c : Cursor} {xs : List Item},
    c.rest = k.before cs → m.after.skip .loose = c.skip .loose → items? m.tokens = some xs →
      ∃ last qs, Loop .loose (link.run matchNested .loose) m last ∧ last.after.rest = [] ∧
        items? last.tokens = some (xs ++ links k qs) ∧
        List.Forall₂ (fun q p => q.compile s = .ok p) qs (p :: ps) := by
  induction h with
  | last h =>
    intro m c xs hc hm hxs
    obtain ⟨n, q, hn, hafter, hitems, hq⟩ := link_before h closes_nil (by simpa using hc)
    rw [← hm] at hn
    exact ⟨⟨m.tokens ++ n.tokens, n.after⟩, [q], .more hn (chain_ends hafter), hafter,
      items?_append hxs hitems, .cons hq .nil⟩
  | more h _ ih =>
    intro m c xs hc hm hxs
    obtain ⟨n, r, hn, hafter, hitems, hr⟩ := link_before h (closes_cons (c := ' ') rfl _) hc
    rw [← hm] at hn
    obtain ⟨last, rs, hloop, hend, hlast, hrs⟩ := ih hafter rfl
      (m := ⟨m.tokens ++ n.tokens, n.after⟩) (items?_append hxs hitems)
    refine ⟨last, r :: rs, .more hn hloop, hend, ?_, .cons hr hrs⟩
    rw [hlast]
    simp [links]

/-- An operand and the links after it write the query of them all. -/
theorem IsOperand.compiles_links (h : IsOperand s cs p) {rest : List Char} (hrest : Closes rest)
    (hlinks : ∀ m : Match, m.after.rest = rest →
      ∃ last qs, Loop .loose (link.run matchNested .loose) ⟨[], m.after.skip .loose⟩ last ∧
        (last.after.skip .loose).rest = [] ∧ items? last.tokens = some (links k qs) ∧
        List.Forall₂ (fun q p => q.compile s = .ok p) qs ps) :
    ∃ q, Written (cs ++ rest) q ∧ q.compile s = .ok (ps.foldl k.join p) := by
  obtain ⟨m, q, hm, hafter, hitems, hq⟩ := h.reads 0 rest hrest
  obtain ⟨last, qs, hloop, hend, hlast, hqs⟩ := hlinks m hafter
  refine ⟨_, written_of_chain (n := ⟨[], ⟨0, cs ++ rest⟩⟩) ?_ ?_ hloop hend rfl hitems hlast
    (ofItems?_links k q qs), compile_foldl hqs hq⟩
  · rw [h.skip]
    exact h.no_negation 0 rest
  · rw [h.skip]
    exact hm

/-- **A chain writes a query that compiles to its predicates, joined from the left.** -/
theorem Chain.compiles (h : Chain s k cs p ps) :
    ∃ q, Written cs q ∧ q.compile s = .ok (ps.foldl k.join p) := by
  cases h with
  | last h =>
    have hchain : ∃ q, Written (cs ++ []) q ∧ q.compile s = .ok ([].foldl k.join p) := by
      refine h.compiles_links closes_nil fun m hm => ?_
      have hend : (m.after.skip .loose).rest = [] := by rw [Cursor.skip_of_nil .loose hm, hm]
      exact ⟨_, [], chain_ends hend, by rw [Cursor.skip_skip, hend], rfl, .nil⟩
    simpa using hchain
  | more h rest =>
    refine h.compiles_links (closes_cons (c := ' ') rfl _) fun m hm => ?_
    obtain ⟨last, qs, hloop, hend, hlast, hqs⟩ := rest.links_read (m := ⟨[], m.after.skip .loose⟩) hm
      (Cursor.skip_skip .loose m.after) rfl
    exact ⟨last, qs, hloop, by rw [Cursor.skip_of_nil .loose hend, hend], hlast, hqs⟩

end Query

end FlowSelect
