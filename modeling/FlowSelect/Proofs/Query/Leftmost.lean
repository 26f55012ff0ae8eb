/-
# The leftmost faulty comparison

A filter is compiled comparison by comparison, from left to right, whatever brackets and signs stand
between them. So a text of the language compiles exactly if each of its comparisons compiles alone, and
otherwise the report is that of the leftmost one that does not: its stretch of the text, and the cause
that compiling it alone has (`leftmost_faulty_comparison_is_reported`).

Key definition: `Token.rejection?`.
Key theorems: `Token.Writes.compileText_eq`, `findSome?_comparisons`,
`leftmost_faulty_comparison_is_reported`.
-/
import FlowSelect.Proofs.Query.Excerpt
import FlowSelect.Schema.Builtin

namespace FlowSelect

open FlowSelect.Language

variable {s : Schema} {text : String} {ts : List Token} {t : Token} {clause : Clause}

/-- The rejection of a comparison that does not compile alone, at its place in the text. -/
def Token.rejection? (s : Schema) (t : Token) : Option Rejection :=
  match compileText s t.text with
  | .ok _ => none
  | .error r => some ⟨some t.span, r.cause⟩

theorem Token.rejection?_eq_some_iff {r : Rejection} : t.rejection? s = some r ↔
    ∃ alone, compileText s t.text = .error alone ∧ r = ⟨some t.span, alone.cause⟩ := by
  unfold rejection?
  split
  · next h => simp [h]
  · next h => simp [h, eq_comm]

/-- **A comparison alone compiles to what its clause does.** -/
theorem Token.Writes.compileText_eq (h : t.Writes clause) (s : Schema) :
    ∃ span, compileText s t.text =
      match clause.compile s with
      | .ok p => .ok (some p)
      | .error fault => .error ⟨some span, fault⟩ := by
  obtain ⟨span, hwritten⟩ := h.alone
  refine ⟨span, ?_⟩
  have hclause : Clause.compile s { clause with span } = clause.compile s := rfl
  unfold compileText
  rw [Query.ofText_eq_some_iff.mpr hwritten]
  simp only [Query.compile, hclause]
  cases clause.compile s <;> rfl

theorem Token.Writes.rejection?_eq (h : t.Writes clause) : Query.rejection? s clause = t.rejection? s := by
  obtain ⟨span, halone⟩ := h.compileText_eq s
  unfold Query.rejection? Token.rejection?
  rw [halone, h.span]
  cases clause.compile s <;> rfl

/-- A comparison alone asks for something. -/
theorem Token.Writes.compiles_iff (h : t.Writes clause) :
    t.rejection? s = none ↔ ∃ p, compileText s t.text = .ok (some p) := by
  obtain ⟨span, halone⟩ := h.compileText_eq s
  unfold rejection?
  rw [halone]
  cases clause.compile s <;> simp

/-- The comparisons of a text of the language write clauses. -/
theorem exists_writes (h : tokens? program text = some ts) (ht : t ∈ Token.comparisons ts) :
    ∃ clause, t.Writes clause := by
  rcases Query.ofText_of_read comparisonsRead_alone h with ⟨-, hnone⟩ | ⟨q, -, hq⟩
  · rw [hnone] at ht
    cases ht
  · have hall : List.Forall₂ (fun t clause => (∃ clause, t.Writes clause) ∧ t.Writes clause)
        (Token.comparisons ts) q.clauses := hq.imp fun _ clause hw => ⟨⟨clause, hw⟩, hw⟩
    exact ((List.forall₂_and_left _ _).mp hall).1 t ht

theorem findSome?_of_writes {clauses : List Clause} (h : List.Forall₂ Token.Writes ts clauses) :
    ts.findSome? (Token.rejection? s) = clauses.findSome? (Query.rejection? s) := by
  induction h with
  | nil => rfl
  | cons hw _ ih => rw [List.findSome?_cons, List.findSome?_cons, hw.rejection?_eq, ih]

/-- **A text is rejected for the first of its comparisons that does not compile alone.** -/
theorem findSome?_comparisons (s : Schema) (h : tokens? program text = some ts) :
    (Token.comparisons ts).findSome? (Token.rejection? s) =
      match compileText s text with
      | .ok _ => none
      | .error r => some r := by
  rcases Query.ofText_of_read comparisonsRead_alone h with ⟨htext, hnone⟩ | ⟨q, htext, hq⟩
  · rw [hnone, List.findSome?_nil, compileText_eq_none_iff.mpr htext]
  · have hcompile : compileText s text = (q.compile s).map some := by
      unfold compileText
      rw [htext]
    rw [findSome?_of_writes hq, Query.findSome?_rejection?, hcompile]
    cases q.compile s <;> rfl

/-- **The leftmost faulty comparison is reported.** A text of the language compiles exactly if each of its
comparisons compiles alone. Otherwise the rejection points at one of them; the text at that stretch,
compiled alone, fails with the same cause; and every comparison that starts before it compiles alone. -/
theorem leftmost_faulty_comparison_is_reported (s : Schema) (text : String) (ts : List Token)
    (h : tokens? program text = some ts) :
    ((∃ o, compileText s text = .ok o) ↔
        ∀ t ∈ Token.comparisons ts, ∃ p, compileText s t.text = .ok (some p)) ∧
      ∀ r, compileText s text = .error r →
        ∃ t ∈ Token.comparisons ts, r.span = some t.span ∧ t.span.Cuts text t.text ∧
          (∃ alone, compileText s t.text = .error alone ∧ alone.cause = r.cause) ∧
          ∀ u ∈ Token.comparisons ts, u.start < t.start → ∃ p, compileText s u.text = .ok (some p) := by
  have hfirst := findSome?_comparisons s h
  have hcompiles : ∀ t ∈ Token.comparisons ts,
      (t.rejection? s = none ↔ ∃ p, compileText s t.text = .ok (some p)) := by
    intro t ht
    obtain ⟨clause, hw⟩ := exists_writes h ht
    exact hw.compiles_iff
  constructor
  · have hall : (Token.comparisons ts).findSome? (Token.rejection? s) = none ↔
        ∀ t ∈ Token.comparisons ts, ∃ p, compileText s t.text = .ok (some p) := by
      rw [List.findSome?_eq_none_iff]
      exact forall₂_congr hcompiles
    rw [← hall, hfirst]
    cases compileText s text <;> simp
  · intro r hr
    rw [hr] at hfirst
    obtain ⟨earlier, t, later, hsplit, ht, hearlier⟩ := List.findSome?_eq_some_iff.mp hfirst
    obtain ⟨alone, halone, rfl⟩ := Token.rejection?_eq_some_iff.mp ht
    have hmem : t ∈ Token.comparisons ts := by simp [hsplit]
    refine ⟨t, hmem, rfl, span_cuts h (List.mem_filter.mp hmem).1, ⟨alone, halone, rfl⟩, ?_⟩
    intro u hu hstart
    -- what is listed from the faulty comparison on does not start before it
    have horder := (tokens_ordered h).filter fun t => t.rule == .comparison
    rw [← Token.comparisons, hsplit, List.pairwise_append, List.pairwise_cons] at horder
    have hbefore : u ∈ earlier := by
      rw [hsplit, List.mem_append, List.mem_cons] at hu
      rcases hu with hu | rfl | hu
      · exact hu
      · omega
      · have := horder.2.1.1 u hu
        omega
    exact (hcompiles u (by simp [hsplit, hbefore])).mp (hearlier u hbefore)

/-- Three faulty comparisons at different depths, after two that compile. The one that is reported is in
the innermost brackets. -/
theorem leftmost_faulty_comparison_is_reported_nested :
    let text := "%host x and not (%dstport 80 or (%sprot & 2 == 2 and %nope 1)) or %dstport 1.2.3.4"
    ∃ ts, tokens? program text = some ts ∧
      (Token.comparisons ts).map Token.text =
        ["%host x", "%dstport 80", "%sprot & 2 == 2", "%nope 1", "%dstport 1.2.3.4"] ∧
      (¬∀ t ∈ Token.comparisons ts, ∃ p, compileText .builtin t.text = .ok (some p)) ∧
      ∃ t ∈ Token.comparisons ts, t.span = ⟨33, 15⟩ ∧ t.span.Cuts text t.text ∧
        (∃ alone, compileText .builtin t.text = .error alone ∧
          alone.cause = .unknownColumn "%sprot" ["%proto"]) ∧
        ∀ u ∈ Token.comparisons ts, u.start < t.start →
          ∃ p, compileText .builtin u.text = .ok (some p) := by
  intro text
  have htexts : (tokens? program text).map (fun ts => (Token.comparisons ts).map Token.text) =
      some ["%host x", "%dstport 80", "%sprot & 2 == 2", "%nope 1", "%dstport 1.2.3.4"] := by
    decide +kernel
  obtain ⟨ts, h, htexts⟩ := Option.map_eq_some_iff.mp htexts
  have hr : compileText .builtin text = .error ⟨some ⟨33, 15⟩, .unknownColumn "%sprot" ["%proto"]⟩ := by
    decide +kernel
  obtain ⟨hiff, hreport⟩ := leftmost_faulty_comparison_is_reported .builtin text ts h
  refine ⟨ts, h, htexts, ?_, ?_⟩
  · rw [← hiff, hr]
    simp
  · obtain ⟨t, ht, hspan, hrest⟩ := hreport _ hr
    exact ⟨t, ht, (Option.some.inj hspan).symm, hrest⟩

end FlowSelect
