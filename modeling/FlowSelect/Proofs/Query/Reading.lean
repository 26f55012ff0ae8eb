/-
# The query that a text writes

A text is read as a query in two steps, tokens first. Here both are put together: `Query.Written`
says that the characters of a text write a query, and a text compiles to a predicate exactly if it
writes a query that does (`compileText_eq_some_iff`). A query further on in a longer text differs in
its spans only, so it compiles alike (`Query.compile_moved`).

Key definitions: `Query.Written`, `Query.moved`, `Query.rejection?`.
Key theorems: `compileText_eq_some_iff`, `Query.items?_movedAll`, `Query.compile_moved`,
`Query.findSome?_rejection?`.
-/
import FlowSelect.Filter
import FlowSelect.Proofs.Grammar.Move
import FlowSelect.Proofs.Grammar.Rules

namespace FlowSelect

/-- A stretch `d` bytes further on. -/
def Span.moved (d : Nat) (s : Span) : Span := { s with offset := s.offset + d }

/-- A clause `d` bytes further on. -/
def Clause.moved (d : Nat) (c : Clause) : Clause := { c with span := c.span.moved d }

/-- A query `d` bytes further on. -/
def Query.moved (d : Nat) : Query → Query
  | .clause c => .clause (c.moved d)
  | .not q => .not (q.moved d)
  | .and l r => .and (l.moved d) (r.moved d)
  | .or l r => .or (l.moved d) (r.moved d)

/-- A member of an expression `d` bytes further on. -/
def Item.moved (d : Nat) : Item → Item
  | .not => .not
  | .link c => .link c
  | .operand q => .operand (q.moved d)

/-- A rejection `d` bytes further on. -/
def Rejection.moved (d : Nat) (r : Rejection) : Rejection := { r with span := r.span.map (Span.moved d) }

/-! ### Tokens further on -/

theorem Token.span_moved (d : Nat) (t : Token) : (t.moved d).span = t.span.moved d := by
  cases t
  rfl

theorem Token.text_moved (d : Nat) (t : Token) : (t.moved d).text = t.text := by
  cases t
  rfl

theorem ColumnName.ofToken?_moved (d : Nat) (t : Token) :
    ColumnName.ofToken? (t.moved d) = ColumnName.ofToken? t := by
  obtain ⟨r, start, text, children⟩ := t
  cases r <;> rfl

theorem Subject.ofToken?_moved (d : Nat) (t : Token) :
    Subject.ofToken? (t.moved d) = Subject.ofToken? t := by
  obtain ⟨r, start, text, children⟩ := t
  cases r with
  | masked =>
    rcases children with _ | ⟨name, _ | ⟨op, _ | ⟨number, _ | ⟨more, rest⟩⟩⟩⟩
    · rfl
    · rfl
    · rfl
    · simp [Token.moved, Token.movedAll, Subject.ofToken?, ColumnName.ofToken?_moved, Token.text_moved]
    · rfl
  | _ => rfl

theorem ValueForm.ofToken?_moved (d : Nat) (t : Token) :
    ValueForm.ofToken? (t.moved d) = ValueForm.ofToken? t := by
  obtain ⟨r, start, text, children⟩ := t
  cases r with
  | quoted =>
    cases children with
    | nil => rfl
    | cons inner rest => simp [Token.moved, Token.movedAll, ValueForm.ofToken?, Token.text_moved]
  | _ => rfl

theorem Clause.ofParts?_moved (d : Nat) (span : Span) (subject : Token) (relation : Option Token)
    (value : Token) :
    Clause.ofParts? (span.moved d) (subject.moved d) (relation.map (Token.moved d)) (value.moved d) =
      (Clause.ofParts? span subject relation value).map (Clause.moved d) := by
  unfold Clause.ofParts?
  rw [Subject.ofToken?_moved, ValueForm.ofToken?_moved]
  have hrel : (relation.map (Token.moved d)).map Token.text = relation.map Token.text := by
    cases relation <;> simp [Token.text_moved]
  rw [hrel]
  cases Subject.ofToken? subject with
  | none => rfl
  | some s =>
    cases ValueForm.ofToken? value with
    | none => rfl
    | some v => rfl

theorem Clause.ofTokens?_moved (d : Nat) (span : Span) (ts : List Token) :
    Clause.ofTokens? (span.moved d) (Token.movedAll d ts) =
      (Clause.ofTokens? span ts).map (Clause.moved d) := by
  rcases ts with _ | ⟨subject, _ | ⟨second, _ | ⟨third, _ | ⟨more, rest⟩⟩⟩⟩
  · rfl
  · rfl
  · exact Clause.ofParts?_moved d span subject none second
  · exact Clause.ofParts?_moved d span subject (some second) third
  · rfl

namespace Query

variable (d : Nat)

theorem negated_moved : ∀ (n : Nat) (q : Query), (negated n q).moved d = negated n (q.moved d)
  | 0, _ => rfl
  | n + 1, q => congrArg Query.not (negated_moved n q)

theorem joinRuns_moved : ∀ (rest : List (Connective × Query)) (runs : Option Query) (run : Query),
    (joinRuns runs run rest).moved d =
      joinRuns (runs.map (Query.moved d)) (run.moved d) (rest.map fun x => (x.1, x.2.moved d))
  | [], none, _ => rfl
  | [], some _, _ => rfl
  | (.and, q) :: rest, runs, run => joinRuns_moved rest runs (.and run q)
  | (.or, q) :: rest, none, run => joinRuns_moved rest (some run) q
  | (.or, q) :: rest, some runs, run => joinRuns_moved rest (some (.or runs run)) q

theorem chain?_moved (items : List Item) (nots : Nat) :
    chain? nots (items.map (Item.moved d)) =
      (chain? nots items).map fun x => (x.1.moved d, x.2.map fun y => (y.1, y.2.moved d)) := by
  fun_induction chain? nots items with
  | case1 nots items ih => simpa [chain?, Item.moved] using ih
  | case2 nots q => simp [chain?, Item.moved, negated_moved]
  | case3 nots q c items next rest h ih => simp [chain?, Item.moved, ih, h, negated_moved]
  | case4 nots q c items h ih => simp [chain?, Item.moved, ih, h]
  | case5 items nots h₁ h₂ h₃ =>
    -- no other list of members writes a chain
    rcases items with _ | ⟨_ | _ | q, _ | ⟨_ | c | _, rest⟩⟩ <;> simp_all [chain?, Item.moved]

theorem ofItems?_moved (items : List Item) :
    ofItems? (items.map (Item.moved d)) = (ofItems? items).map (Query.moved d) := by
  unfold ofItems?
  rw [chain?_moved, Option.map_map, Option.map_map]
  congr 1
  funext x
  exact (joinRuns_moved d x.2 none x.1).symm

mutual

theorem item?_moved (t : Token) : item? (t.moved d) = (item? t).map (Item.moved d) := by
  obtain ⟨r, start, text, children⟩ := t
  cases r with
  | comparison =>
    have hspan := Token.span_moved d (.node .comparison start text children)
    rw [Token.moved] at hspan
    simp only [Token.moved, item?]
    rw [hspan, Clause.ofTokens?_moved, Option.map_map, Option.map_map]
    rfl
  | expr =>
    simp only [Token.moved, item?]
    rw [items?_movedAll children]
    cases items? children with
    | none => rfl
    | some items =>
      simp only [Option.map_some]
      rw [ofItems?_moved, Option.map_map, Option.map_map]
      rfl
  | _ => rfl

/-- Tokens further on write the same members further on. -/
theorem items?_movedAll : ∀ ts : List Token,
    items? (Token.movedAll d ts) = (items? ts).map (List.map (Item.moved d))
  | [] => rfl
  | t :: ts => by
    rw [Token.movedAll, items?, items?, item?_moved t, items?_movedAll ts]
    cases item? t with
    | none => rfl
    | some item =>
      cases items? ts with
      | none => rfl
      | some items => rfl

end

/-! ### Compiling further on -/

/-- **A query further on compiles alike**; only the stretch of a rejection moves. -/
theorem compile_moved (s : Schema) : ∀ q : Query,
    (q.moved d).compile s = (q.compile s).mapError (Rejection.moved d)
  | .clause c => by
    have hc : (c.moved d).compile s = c.compile s := rfl
    rw [moved, compile, compile, hc]
    cases c.compile s <;> rfl
  | .not q => by
    rw [moved, compile, compile, compile_moved s q]
    cases q.compile s <;> rfl
  | .and l r => by
    rw [moved, compile, compile, compile_moved s l, compile_moved s r]
    cases l.compile s with
    | error _ => rfl
    | ok p => cases r.compile s <;> rfl
  | .or l r => by
    rw [moved, compile, compile, compile_moved s l, compile_moved s r]
    cases l.compile s with
    | error _ => rfl
    | ok p => cases r.compile s <;> rfl

theorem compile_moved_of_ok {s : Schema} {q : Query} {p : Predicate} (h : q.compile s = .ok p) :
    (q.moved d).compile s = .ok p := by
  rw [compile_moved, h]
  rfl

/-! ### Rejections -/

/-- The rejection of a clause, if it does not compile. -/
def rejection? (s : Schema) (c : Clause) : Option Rejection :=
  match c.compile s with
  | .ok _ => none
  | .error fault => some ⟨some c.span, fault⟩

/-- **A query is rejected for the first of its clauses that does not compile.** -/
theorem findSome?_rejection? (s : Schema) (q : Query) :
    q.clauses.findSome? (rejection? s) =
      match q.compile s with
      | .ok _ => none
      | .error r => some r := by
  induction q with
  | clause c =>
    rw [clauses, List.findSome?_singleton, rejection?, compile]
    cases c.compile s <;> rfl
  | not q ih =>
    rw [clauses, ih, compile]
    cases q.compile s <;> rfl
  | and l r ihl ihr | or l r ihl ihr =>
    rw [clauses, List.findSome?_append, ihl, ihr, compile]
    cases l.compile s with
    | error _ => rfl
    | ok p => cases r.compile s <;> rfl

/-! ### Texts -/

/-- The characters write a query: they are an expression with blanks around it, and its token writes
the query. -/
def Written (cs : List Char) (q : Query) : Prop :=
  ∃ m e, Language.matchNested .loose (Cursor.skip .loose ⟨0, cs⟩) = some m ∧
    (m.after.skip .loose).rest = [] ∧ m.tokens = [e] ∧ item? e = some (.operand q)

/-- A match of an expression leaves one token. -/
theorem expr_tokens {nested : Matcher} {c : Cursor} {m : Match}
    (h : Language.expr.run nested .loose c = some m) :
    ∃ text children, m.tokens = [.node .expr c.offset text children] := by
  obtain ⟨m₁, -, rfl⟩ := Pattern.run_rule_eq_some.mp h
  exact ⟨_, _, rfl⟩

theorem ofToken?_eq_some_iff {t : Token} {q : Query} : ofToken? t = some q ↔ item? t = some (.operand q) := by
  unfold ofToken?
  split
  · next h => simp [h]
  · next h => simpa using fun hq => h q hq

/-- A text is read as the tokens of a program. -/
theorem ofText_eq_ok_iff {text : String} {o : Option Query} :
    ofText text = .ok o ↔ ∃ m, Language.program.run Language.matchNested .loose
      ⟨0, text.toList⟩ = some m ∧ ofProgram? m.tokens = some o := by
  have hm := Language.matchText_program text
  unfold ofText Language.read Language.tokens?
  rw [hm, Cursor.ofText]
  cases Language.program.run Language.matchNested .loose ⟨0, text.toList⟩ with
  | none => simp
  | some m =>
    simp only [Option.map_some, Option.some.injEq, exists_eq_left']
    cases ofProgram? m.tokens <;> simp

theorem ofText_eq_some_iff {text : String} {q : Query} :
    ofText text = .ok (some q) ↔ Written text.toList q := by
  rw [ofText_eq_ok_iff]
  constructor
  · rintro ⟨m, hm, hq⟩
    obtain ⟨e, he, hend, rfl⟩ := Language.run_program_iff.mp hm
    rcases Pattern.run_opt_eq_some.mp he with hexpr | ⟨-, rfl⟩
    · obtain ⟨t, children, htok⟩ := expr_tokens hexpr
      refine ⟨e, _, by rw [Language.matchNested_eq_run, hexpr], hend, htok, ?_⟩
      rw [← ofToken?_eq_some_iff]
      simpa [Pattern.named, ofProgram?, htok, Token.rule] using hq
    · simp [Pattern.named, ofProgram?, Token.rule] at hq
  · rintro ⟨m, e, hm, hend, htok, hq⟩
    rw [Language.matchNested_eq_run] at hm
    refine ⟨_, Language.run_program_iff.mpr ⟨m, Pattern.run_opt_eq_some.mpr (.inl hm), hend, rfl⟩, ?_⟩
    obtain ⟨t, children, htok'⟩ := expr_tokens hm
    obtain rfl : e = _ := by simpa [htok] using htok'
    rw [← ofToken?_eq_some_iff] at hq
    simp [Pattern.named, ofProgram?, htok, Token.rule, hq]

/-- A text that asks for nothing has nothing after its blanks. -/
theorem skip_of_ofText_eq_none {text : String} (h : ofText text = .ok none) :
    (Cursor.skip .loose ⟨0, text.toList⟩).rest = [] := by
  rw [ofText_eq_ok_iff] at h
  obtain ⟨m, hm, hq⟩ := h
  obtain ⟨e, he, hend, rfl⟩ := Language.run_program_iff.mp hm
  rcases Pattern.run_opt_eq_some.mp he with hexpr | ⟨-, rfl⟩
  · obtain ⟨t, children, htok⟩ := expr_tokens hexpr
    simp [Pattern.named, ofProgram?, htok, Token.rule] at hq
  · rwa [Cursor.skip_skip] at hend

end Query

/-- **A text compiles to a predicate exactly if it writes a query that does.** -/
theorem compileText_eq_some_iff {s : Schema} {text : String} {p : Predicate} :
    compileText s text = .ok (some p) ↔ ∃ q, Query.Written text.toList q ∧ q.compile s = .ok p := by
  constructor
  · intro h
    unfold compileText at h
    cases hq : Query.ofText text with
    | error r => simp [hq] at h
    | ok o =>
      cases o with
      | none => simp [hq] at h
      | some q =>
        rw [hq] at h
        rw [Query.ofText_eq_some_iff] at hq
        refine ⟨q, hq, ?_⟩
        cases hp : q.compile s with
        | error r => simp [hp, Except.map] at h
        | ok p' => simpa [hp, Except.map] using h
  · rintro ⟨q, hq, hp⟩
    rw [← Query.ofText_eq_some_iff] at hq
    unfold compileText
    rw [hq]
    simp [hp, Except.map]

theorem compileText_eq_none_iff {s : Schema} {text : String} :
    compileText s text = .ok none ↔ Query.ofText text = .ok none := by
  unfold compileText
  rcases Query.ofText text with r | _ | q
  · simp
  · simp
  · rcases hq : q.compile s with r | p <;> simp [hq, Except.map]

/-- A text that compiles to nothing is blank. -/
theorem isAllBlank_of_compileText {s : Schema} {text : String} (h : compileText s text = .ok none) :
    Text.isAllBlank text = true := by
  rw [compileText_eq_none_iff] at h
  obtain ⟨bs, hbs, hread, -⟩ := Cursor.skip_reads .loose ⟨0, text.toList⟩
  rw [Query.skip_of_ofText_eq_none h, List.append_nil] at hread
  have htext : text.toList = bs := hread
  rw [Text.isAllBlank, htext, List.all_eq_true]
  intro b hb
  have hblank := hbs b hb
  simp only [Cursor.isBlank, Bool.or_eq_true, beq_iff_eq] at hblank
  rcases hblank with ((rfl | rfl) | rfl) | rfl <;> rfl

/-- **What a configuration compiles to**: a filter that accepts every row if its text is blank, and
otherwise the filter of the text's predicate. -/
theorem Filter.compile_eq_ok_iff {c : Configuration} {f : Filter} :
    compile c = .ok f ↔ ∃ o, f = ofPredicate c o ∧
      (o = none ∧ Text.isAllBlank c.filter = true ∨
        Text.isAllBlank c.filter = false ∧ ∃ p, o = some p ∧
          compileText c.schema c.filter = .ok (some p)) := by
  unfold compile
  by_cases hblank : Text.isAllBlank c.filter = true
  · simp [hblank, eq_comm]
  · rw [if_neg hblank]
    have hblank : Text.isAllBlank c.filter = false := by simpa using hblank
    rcases hc : compileText c.schema c.filter with r | _ | p
    · simp [Except.map, hblank]
    · rw [isAllBlank_of_compileText hc] at hblank
      cases hblank
    · simp [Except.map, hblank, eq_comm]

end FlowSelect
