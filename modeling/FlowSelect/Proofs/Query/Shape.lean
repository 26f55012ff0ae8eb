/-
# The shape of accepted texts

The functions that read tokens as a query give nothing for trees that the grammar does not produce,
and the compiler trusts the texts that a clause holds. Here both are shown to be safe: every match
of an expression leaves one token that reads as a query (`Query.matchNested_shaped`), and the clauses
of such a query are well written, that is, their signs are known and their names are names
(`Clause.WellWritten`).

The clauses of the query are those of the text's comparisons, one for one and in their order. So
whatever is known of one comparison and its clause is known of all of them (`Query.ofText_of_read`).

Key definitions: `Text.isName`, `Clause.WellWritten`, `Token.comparisons`, `Query.ComparisonsRead`,
`Query.Members`.
Key theorems: `Query.ofItems?_members`, `Query.clauses_ofItems?`, `Query.matchNested_shaped`,
`Query.ofText_of_read`, `Query.ofText_cases`.
-/
import FlowSelect.Proofs.Grammar.Places
import FlowSelect.Proofs.Query.Composition
import FlowSelect.Proofs.Text.Digits

namespace FlowSelect

/-! ### Names and signs -/

/-- Whether a character may stand in a name. -/
def Text.isNameChar (c : Char) : Bool := c.isAlphanum || c == '_'

/-- Whether a text is a name: letters, digits and underscores, at least one. -/
def Text.isName (s : String) : Bool := !s.toList.isEmpty && s.toList.all isNameChar

/-- Whether a text names a stored column by its numbers: `e0id1`, or `e0id1p2` for a part of it. -/
def Text.isRawColumn (s : String) : Bool :=
  match s.toList with
  | 'e' :: cs =>
    Digits.isRun (cs.takeWhile Char.isDigit) &&
      match cs.dropWhile Char.isDigit with
      | 'i' :: 'd' :: ds =>
        Digits.isRun (ds.takeWhile Char.isDigit) &&
          match ds.dropWhile Char.isDigit with
          | [] => true
          | 'p' :: es => Digits.isRun es
          | _ => false
      | _ => false
  | _ => false

namespace Text

theorem isRawColumn_iff {s : String} : isRawColumn s = true ↔
    ∃ ds es ps, s.toList = 'e' :: (ds ++ 'i' :: 'd' :: (es ++ ps)) ∧ Digits.isRun ds = true ∧
      Digits.isRun es = true ∧ (ps = [] ∨ ∃ qs, ps = 'p' :: qs ∧ Digits.isRun qs = true) := by
  constructor
  · intro h
    unfold isRawColumn at h
    split at h
    · next cs hcs =>
      rw [Bool.and_eq_true] at h
      obtain ⟨hds, h⟩ := h
      split at h
      · next ds hdrop =>
        rw [Bool.and_eq_true] at h
        obtain ⟨hes, h⟩ := h
        refine ⟨cs.takeWhile Char.isDigit, ds.takeWhile Char.isDigit, ds.dropWhile Char.isDigit, ?_, hds,
          hes, ?_⟩
        · rw [List.takeWhile_append_dropWhile, ← hdrop, List.takeWhile_append_dropWhile, hcs]
        · split at h
          · next hnil => exact .inl hnil
          · next es hp => exact .inr ⟨es, hp, h⟩
          · cases h
      · cases h
    · cases h
  · rintro ⟨ds, es, ps, hs, hds, hes, hps⟩
    have hid : Digits.Breaks ('i' :: 'd' :: (es ++ ps)) := by rintro _ ⟨⟩; rfl
    have hbreaks : Digits.Breaks ps := by
      rcases hps with rfl | ⟨qs, rfl, -⟩
      · simp [Digits.Breaks]
      · rintro _ ⟨⟩; rfl
    simp only [isRawColumn, hs, Digits.takeWhile_run hds hid, Digits.dropWhile_run hds hid, hds,
      Digits.takeWhile_run hes hbreaks, Digits.dropWhile_run hes hbreaks, hes, Bool.true_and]
    rcases hps with rfl | ⟨qs, rfl, hqs⟩
    · rfl
    · exact hqs

theorem isNameChar_of_isRun {cs : List Char} (h : Digits.isRun cs = true) :
    ∀ c ∈ cs, isNameChar c = true := by
  intro c hc
  simp only [Digits.isRun, Bool.and_eq_true, List.all_eq_true] at h
  simp [isNameChar, Char.isAlphanum, h.2 c hc]

/-- The name of a stored column is a name. -/
theorem isName_of_isRawColumn {s : String} (h : isRawColumn s = true) : isName s = true := by
  obtain ⟨ds, es, ps, hs, hds, hes, hps⟩ := isRawColumn_iff.mp h
  have hpart : ∀ c ∈ ps, isNameChar c = true := by
    rcases hps with rfl | ⟨qs, rfl, hqs⟩
    · simp
    · simpa using ⟨rfl, isNameChar_of_isRun hqs⟩
  have hds := isNameChar_of_isRun hds
  have hes := isNameChar_of_isRun hes
  have hletters : isNameChar 'e' = true ∧ isNameChar 'i' = true ∧ isNameChar 'd' = true := by decide
  simp only [isName, hs, List.isEmpty_cons, Bool.not_false, Bool.true_and, List.all_eq_true,
    List.mem_cons, List.mem_append]
  rintro c (rfl | hc | rfl | rfl | hc | hc)
  · exact hletters.1
  · exact hds c hc
  · exact hletters.2.1
  · exact hletters.2.2
  · exact hes c hc
  · exact hpart c hc

end Text

/-- A column as the grammar writes it. -/
def ColumnName.WellWritten : ColumnName → Prop
  | .registered name => ∃ cs, name = String.ofList ('%' :: cs) ∧ Text.isName (String.ofList cs) = true
  | .raw name => Text.isRawColumn name = true

/-- A left side as the grammar writes it: its operator is known. -/
def Subject.WellWritten : Subject → Prop
  | .column c => c.WellWritten
  | .masked c op _ => c.WellWritten ∧ (BitOperator.ofSymbol? op).isSome = true

/-- The column that a left side names. -/
def Subject.columnName : Subject → ColumnName
  | .column c => c
  | .masked c _ _ => c

theorem Subject.WellWritten.columnName {x : Subject} (h : x.WellWritten) : x.columnName.WellWritten := by
  cases x with
  | column c => exact h
  | masked c op number => exact h.1

/-- A clause as the grammar writes it: its relation is known too, and a text has no quote in it. -/
structure Clause.WellWritten (c : Clause) : Prop where
  subject : c.subject.WellWritten
  relation : ∀ symbol ∈ c.relation, (Relation.ofSymbol? symbol).isSome = true
  unquoted : c.form = .quoted ∨ c.form = .word → '"' ∉ c.value.toList

/-- A query whose clauses are well written. -/
def Query.WellWritten (q : Query) : Prop := ∀ c ∈ q.clauses, c.WellWritten

namespace Language

open Pattern

theorem denotes_nameChar {cs : List Char} (h : nameChar.Denotes cs) :
    ∃ r, Text.isNameChar r = true ∧ cs = [r] := by
  rcases h with ⟨r, hr, rfl⟩ | rfl
  · exact ⟨r, by simp [Text.isNameChar, show r.isAlphanum = true from hr], rfl⟩
  · exact ⟨'_', rfl, rfl⟩

/-- Characters of one kind. -/
theorem denotes_many {p : Pattern} {k : Char → Bool} (hp : ∀ cs, p.Denotes cs → ∃ r, k r = true ∧ cs = [r])
    {cs : List Char} (h : (many p).Denotes cs) : ∀ r ∈ cs, k r = true := by
  obtain ⟨parts, rfl, hparts⟩ := h
  intro r hr
  obtain ⟨part, hpart, hr⟩ := List.mem_flatten.mp hr
  obtain ⟨r', hr', rfl⟩ := hp part (hparts part hpart)
  rw [List.mem_singleton.mp hr]
  exact hr'

/-- A run of characters of one kind. -/
theorem denotes_run {p : Pattern} {k : Char → Bool} (hp : ∀ cs, p.Denotes cs → ∃ r, k r = true ∧ cs = [r])
    {cs : List Char} (h : (atLeastOne p).Denotes cs) : cs ≠ [] ∧ ∀ r ∈ cs, k r = true := by
  obtain ⟨as, bs, rfl, ha, hb⟩ := h
  obtain ⟨r, hr, rfl⟩ := hp as ha
  exact ⟨by simp, List.forall_mem_cons.mpr ⟨hr, denotes_many hp hb⟩⟩

theorem denotes_digits {cs : List Char} (h : (atLeastOne digit).Denotes cs) : Digits.isRun cs = true := by
  have hdigits : cs ≠ [] ∧ ∀ r ∈ cs, r.isDigit = true :=
    denotes_run (fun cs (hd : digit.Denotes cs) => hd) h
  simpa [Digits.isRun] using hdigits

theorem isName_ofList {cs : List Char} (hne : cs ≠ []) (h : ∀ r ∈ cs, Text.isNameChar r = true) :
    Text.isName (String.ofList cs) = true := by
  simpa [Text.isName, hne] using h

variable {nested : Matcher} {c : Cursor} {m : Match}

theorem rawColumn_token (h : rawColumn.run nested .loose c = some m) :
    ∃ t name, m.tokens = [t] ∧ ColumnName.ofToken? t = some (.raw name) ∧
      Text.isRawColumn name = true := by
  obtain ⟨cs, -, hd, htok⟩ := run_whole (by decide) rfl h
  refine ⟨_, _, htok, rfl, Text.isRawColumn_iff.mpr ?_⟩
  obtain ⟨_, _, rfl, rfl, as, _, rfl, ha, _, _, rfl, rfl, bs, _, rfl, hb, ps, _, rfl, hp, rfl⟩ := hd
  refine ⟨as, bs, ps, by simp, denotes_digits ha, denotes_digits hb, ?_⟩
  rcases hp with rfl | ⟨_, ds, rfl, rfl, hds⟩
  · exact .inl rfl
  · exact .inr ⟨ds, rfl, denotes_digits hds⟩

theorem anyColumn_token (h : anyColumn.run nested .loose c = some m) :
    ∃ t n, m.tokens = [t] ∧ ColumnName.ofToken? t = some n ∧ n.WellWritten := by
  rcases run_alt_eq_some.mp h with h | ⟨-, h⟩
  · obtain ⟨t, name, htok, hn, hname⟩ := rawColumn_token h
    exact ⟨t, _, htok, hn, hname⟩
  · obtain ⟨cs, -, ⟨_, ds, rfl, rfl, hd⟩, htok⟩ := run_whole (by decide) rfl h
    obtain ⟨hne, hall⟩ := denotes_run (fun _ => denotes_nameChar) hd
    exact ⟨_, _, htok, rfl, ds, rfl, isName_ofList hne hall⟩

theorem bitOperator_token (h : bitOperator.run nested .loose c = some m) :
    ∃ t, m.tokens = [t] ∧ (BitOperator.ofSymbol? t.text).isSome = true := by
  obtain ⟨cs, -, hd, htok⟩ := run_whole (by decide) rfl h
  refine ⟨_, htok, ?_⟩
  rcases hd with rfl | rfl | ⟨_, _, rfl, rfl, rfl⟩ | ⟨_, _, rfl, rfl, rfl⟩ | rfl <;> rfl

theorem relation_token (h : relation.run nested .loose c = some m) :
    ∃ t, m.tokens = [t] ∧ (Relation.ofSymbol? t.text).isSome = true := by
  obtain ⟨cs, -, hd, htok⟩ := run_whole (by decide) rfl h
  refine ⟨_, htok, ?_⟩
  rcases hd with rfl | rfl | rfl | rfl | rfl | rfl | rfl <;> rfl

theorem masked_token (h : masked.run nested .loose c = some m) :
    ∃ t x, m.tokens = [t] ∧ Subject.ofToken? t = some x ∧ x.WellWritten := by
  obtain ⟨a, b, n, ha, hb, hn, rfl⟩ := run_masked_iff.mp h
  obtain ⟨t, name, hta, hname, hw⟩ := anyColumn_token ha
  obtain ⟨u, htb, hu⟩ := bitOperator_token hb
  obtain ⟨cs, -, -, htn⟩ := run_whole (by decide) rfl hn
  refine ⟨_, .masked name u.text (String.ofList cs), rfl, ?_, hw, hu⟩
  simp [hta, htb, htn, Subject.ofToken?, hname, Token.text]

theorem subject_token (h : subject.run nested .loose c = some m) :
    ∃ t x, m.tokens = [t] ∧ Subject.ofToken? t = some x ∧ x.WellWritten := by
  rcases run_subject_iff.mp h with h | ⟨-, h⟩
  · obtain ⟨_, n, _, _, hn, _, rfl⟩ := run_bracketed_iff.mp h
    obtain ⟨t, x, htok, hx⟩ := masked_token hn
    exact ⟨t, x, htok, hx⟩
  · rcases run_alt_eq_some.mp h with h | ⟨-, h⟩
    · exact masked_token h
    · obtain ⟨t, n, htok, hn, hw⟩ := anyColumn_token h
      refine ⟨t, .column n, htok, ?_, hw⟩
      rw [Subject.ofToken?, hn]
      · rfl
      · rintro _ _ _ _ _ rfl
        simp [ColumnName.ofToken?] at hn

/-- The characters of a quoted text are no quotes. -/
theorem quotedChars_read {last : Match} (h : Loop .tight (quotedChar.run nested .tight) m last) :
    ∃ cs, m.after.Reads cs last.after ∧ '"' ∉ cs := by
  induction h with
  | stop _ => exact ⟨[], Cursor.reads_nil _, by simp⟩
  | @more m _ _ hstep _ ih =>
    obtain ⟨cs, hcs, hquote⟩ := ih
    obtain ⟨r, rest, hr, hne, rfl⟩ := run_quotedChar_iff.mp hstep
    have hread : m.after.Reads [r] (Cursor.next r m.after.offset rest) := by
      have hnext := Cursor.reads_next m.after.offset r rest
      rwa [← hr] at hnext
    exact ⟨[r] ++ cs, hread.append hcs, by simp [Ne.symm hne, hquote]⟩

/-- A quoted text leaves what stands between its quotes, and that holds no quote. -/
theorem quoted_token (hn : nested.Advances) (h : quoted.run nested .loose c = some m) :
    ∃ t cs, m.tokens = [t] ∧ ValueForm.ofToken? t = some (.quoted, String.ofList cs) ∧ '"' ∉ cs ∧
      c.Reads ('"' :: (cs ++ ['"'])) m.after := by
  obtain ⟨m₁, h₁, rfl⟩ := run_rule_eq_some.mp h
  obtain ⟨a, m₂, ha, h₂, rfl⟩ := run_seq_eq_some.mp h₁
  obtain ⟨n, b, hinner, hb, rfl⟩ := run_seq_eq_some.mp h₂
  obtain ⟨d, hd, rfl⟩ := bare_eq_some.mp ha
  obtain ⟨e, he, rfl⟩ := bare_eq_some.mp hb
  obtain ⟨n₁, hloop, rfl⟩ := run_rule_eq_some.mp hinner
  obtain ⟨cs, hcs, hquote⟩ := quotedChars_read ((run_many_iff_loop (p := quotedChar) hn rfl rfl).mp hloop)
  have hopen : c.Reads ['"'] d := takeLiteral_reads _ hd
  have hclose : n₁.after.Reads ['"'] e := takeLiteral_reads _ he
  refine ⟨_, cs, rfl, ?_, hquote, ?_⟩
  · have htext : d.textTo n₁.after = String.ofList cs := hcs.textTo_eq
    simp [ValueForm.ofToken?, named, Token.text, Cursor.skip, htext]
  · simpa using (hopen.append hcs).append hclose

/-- A value leaves one token, and if that writes a text, there is no quote in it. -/
theorem value_token (hn : nested.Advances) (h : value.run nested .loose c = some m) :
    ∃ t form text, m.tokens = [t] ∧ ValueForm.ofToken? t = some (form, text) ∧
      (form = .quoted ∨ form = .word → '"' ∉ text.toList) := by
  have hwhole : ∀ {r : Rule} {body : Pattern} {form : ValueForm},
      (whole r body).run nested .loose c = some m → body.isTight = true →
      (form = .quoted ∨ form = .word → body.stopsAt '"' = true) →
      (∀ start text, ValueForm.ofToken? (.node r start text []) = some (form, text)) →
      ∃ t form text, m.tokens = [t] ∧ ValueForm.ofToken? t = some (form, text) ∧
        (form = .quoted ∨ form = .word → '"' ∉ text.toList) := by
    intro r body form h hb hstop hform
    obtain ⟨cs, -, hd, htok⟩ := run_whole (by decide) hb h
    refine ⟨_, form, String.ofList cs, htok, hform _ _, fun hf => ?_⟩
    rw [String.toList_ofList]
    exact not_mem_of_denotes body (hstop hf) hd
  rcases run_alt_eq_some.mp h with h | ⟨-, h⟩
  · exact hwhole h rfl (by simp) fun _ _ => rfl
  rcases run_alt_eq_some.mp h with h | ⟨-, h⟩
  · exact hwhole h rfl (by simp) fun _ _ => rfl
  rcases run_alt_eq_some.mp h with h | ⟨-, h⟩
  · exact hwhole h rfl (by simp) fun _ _ => rfl
  rcases run_alt_eq_some.mp h with h | ⟨-, h⟩
  · exact hwhole h rfl (by simp) fun _ _ => rfl
  rcases run_alt_eq_some.mp h with h | ⟨-, h⟩
  · exact hwhole h rfl (by simp) fun _ _ => rfl
  rcases run_alt_eq_some.mp h with h | ⟨-, h⟩
  · exact hwhole h rfl (by simp) fun _ _ => rfl
  rcases run_alt_eq_some.mp h with h | ⟨-, h⟩
  · obtain ⟨t, cs, htok, ht, hquote, -⟩ := quoted_token hn h
    exact ⟨t, .quoted, String.ofList cs, htok, ht, fun _ => by rwa [String.toList_ofList]⟩
  · exact hwhole h rfl (fun _ => rfl) fun _ _ => rfl

/-- The tokens of its parts write a clause. -/
theorem ofTokens?_parts {as rs vs : List Token} {t w : Token} {x : Subject} {sign : Option String}
    {form : ValueForm} {text : String} (hat : as = [t]) (ht : Subject.ofToken? t = some x)
    (hrs : sign = none ∧ rs = [] ∨ ∃ u, sign = some u.text ∧ rs = [u])
    (hvw : vs = [w]) (hw : ValueForm.ofToken? w = some (form, text)) (span : Span) :
    Clause.ofTokens? span (as ++ (rs ++ vs)) = some ⟨span, x, sign, form, text⟩ := by
  rcases hrs with ⟨rfl, hrs⟩ | ⟨u, rfl, hrs⟩
  · simp [hat, hrs, hvw, Clause.ofTokens?, Clause.ofParts?, ht, hw]
  · simp [hat, hrs, hvw, Clause.ofTokens?, Clause.ofParts?, ht, hw]

/-- **A comparison leaves one token, which reads as a well-written clause.** -/
theorem comparison_token (hn : nested.Advances) (h : comparison.run nested .loose c = some m) :
    ∃ t clause, m.tokens = [t] ∧ Query.item? t = some (.operand (.clause clause)) ∧
      clause.WellWritten := by
  obtain ⟨a, r, v, ha, hr, hv, rfl⟩ := run_comparison_iff.mp h
  obtain ⟨t, x, hta, hx, hxw⟩ := subject_token ha
  obtain ⟨u, form, text, htv, hform, hquote⟩ := value_token hn hv
  have hsign : ∃ sign, (sign = none ∧ r.tokens = [] ∨ ∃ w, sign = some w.text ∧ r.tokens = [w]) ∧
      ∀ symbol ∈ sign, (Relation.ofSymbol? symbol).isSome = true := by
    rcases run_opt_eq_some.mp hr with hr | ⟨-, rfl⟩
    · obtain ⟨w, htr, hw⟩ := relation_token hr
      refine ⟨some w.text, .inr ⟨w, rfl, htr⟩, ?_⟩
      rintro _ ⟨⟩
      exact hw
    · exact ⟨none, .inl ⟨rfl, rfl⟩, by simp⟩
  obtain ⟨sign, hsign, hw⟩ := hsign
  have hclause := ofTokens?_parts hta hx hsign htv hform
  set w := Token.node .comparison c.offset (c.textTo v.after) (a.tokens ++ (r.tokens ++ v.tokens))
  exact ⟨w, ⟨w.span, x, sign, form, text⟩, rfl, by simp [w, Query.item?, hclause], hxw, hw, hquote⟩

end Language

/-! ### The comparisons of a text -/

/-- The tokens of comparisons, from left to right. -/
def Token.comparisons (ts : List Token) : List Token := (all ts).filter fun t => t.rule == .comparison

namespace Token

@[simp] theorem comparisons_nil : comparisons [] = [] := rfl

@[simp] theorem comparisons_append (ts us : List Token) :
    comparisons (ts ++ us) = comparisons ts ++ comparisons us := by
  simp [comparisons]

theorem comparisons_node {r : Rule} (hr : r ≠ .comparison) (start : Nat) (text : String)
    (children : List Token) : comparisons [.node r start text children] = comparisons children := by
  simp [comparisons, Token.rule, hr]

theorem comparisons_comparison (start : Nat) (text : String) (children : List Token) :
    comparisons [.node .comparison start text children] =
      .node .comparison start text children :: comparisons children := by
  simp [comparisons, Token.rule]

end Token

namespace Language

open Pattern

variable {nested : Matcher} {s : Spacing} {c : Cursor} {m : Match}

/-- A pattern without comparisons leaves none. -/
theorem comparisons_eq_nil {p : Pattern} (hn : nested.Advances) (hbrackets : none ∉ p.sources)
    (hp : some .comparison ∉ p.sources) (h : p.run nested s c = some m) :
    Token.comparisons m.tokens = [] := by
  have hcomposes : Cursor.Composes fun _ ts _ => Token.comparisons ts = [] :=
    ⟨fun _ => rfl, fun ht hu => by rw [Token.comparisons_append, ht, hu, List.append_nil]⟩
  refine run_composes hcomposes hn p (fun h => absurd h hbrackets) ?_ h
  intro r hr c cs ts d _ hts
  rw [Token.comparisons_node (by rintro rfl; exact hp hr), hts]

/-- No comparison stands inside another one. -/
theorem comparisons_comparison (hn : nested.Advances) (h : comparison.run nested .loose c = some m) :
    Token.comparisons m.tokens = m.tokens := by
  obtain ⟨a, r, v, ha, hr, hv, rfl⟩ := run_comparison_iff.mp h
  have hinside : Token.comparisons (a.tokens ++ (r.tokens ++ v.tokens)) = [] := by
    rw [Token.comparisons_append, Token.comparisons_append,
      comparisons_eq_nil hn (by decide) (by decide) ha, comparisons_eq_nil hn (by decide) (by decide) hr,
      comparisons_eq_nil hn (by decide) (by decide) hv, List.append_nil, List.append_nil]
  simp only [named, reduceCtorEq, if_false]
  rw [Token.comparisons_comparison, hinside]

end Language

/-! ### Flat expressions -/

/-- The clauses of a member of an expression. -/
def Item.clauses : Item → List Clause
  | .operand q => q.clauses
  | _ => []

namespace Query

/-- A flat expression: operands with links between them, each after any number of "not". -/
inductive Members : List Item → Prop where
  | last (q : Query) : Members [.operand q]
  | not {xs : List Item} (h : Members xs) : Members (.not :: xs)
  | link (q : Query) (k : Connective) {xs : List Item} (h : Members xs) :
      Members (.operand q :: .link k :: xs)

theorem Members.append {xs ys : List Item} (hx : Members xs) (k : Connective) (hy : Members ys) :
    Members (xs ++ .link k :: ys) := by
  induction hx with
  | last q => exact .link q k hy
  | not _ ih => exact .not ih
  | link q l _ ih => exact .link q l ih

theorem Members.nots {xs : List Item} (h : Members xs) :
    ∀ n : Nat, Members (List.replicate n .not ++ xs)
  | 0 => h
  | n + 1 => .not (h.nots n)

theorem chain?_members {xs : List Item} (h : Members xs) : ∀ nots, ∃ r, chain? nots xs = some r := by
  induction h with
  | last q => exact fun nots => ⟨_, rfl⟩
  | not _ ih => exact fun nots => ih (nots + 1)
  | link q k _ ih =>
    intro nots
    obtain ⟨⟨next, rest⟩, hr⟩ := ih 0
    exact ⟨(negated nots q, (k, next) :: rest), by simp [chain?, hr]⟩

/-- **A flat expression reads as a query.** -/
theorem ofItems?_members {xs : List Item} (h : Members xs) : ∃ q, ofItems? xs = some q := by
  obtain ⟨r, hr⟩ := chain?_members h 0
  exact ⟨ofChain r.1 r.2, by simp [ofItems?, hr]⟩

theorem clauses_negated (q : Query) : ∀ n, (negated n q).clauses = q.clauses
  | 0 => rfl
  | n + 1 => clauses_negated q n

theorem clauses_addRun (runs : Option Query) (run : Query) :
    (addRun runs run).clauses = runs.elim [] clauses ++ run.clauses := by
  cases runs <;> rfl

/-- Joining a chain keeps its clauses and their order. -/
theorem clauses_joinRuns : ∀ (rest : List (Connective × Query)) (runs : Option Query) (run : Query),
    (joinRuns runs run rest).clauses =
      runs.elim [] clauses ++ run.clauses ++ rest.flatMap (fun e => e.2.clauses)
  | [], runs, run => by simp [joinRuns, clauses_addRun]
  | (.and, q) :: rest, runs, run => by simp [joinRuns, clauses_joinRuns rest, clauses]
  | (.or, q) :: rest, runs, run => by simp [joinRuns, clauses_joinRuns rest, clauses_addRun]

theorem clauses_chain? {nots : Nat} {xs : List Item} {first : Query}
    {rest : List (Connective × Query)} (h : chain? nots xs = some (first, rest)) :
    first.clauses ++ rest.flatMap (fun e => e.2.clauses) = xs.flatMap Item.clauses := by
  fun_induction chain? nots xs generalizing first rest with
  | case1 nots items ih => simpa [Item.clauses] using ih h
  | case2 nots q =>
    obtain ⟨rfl, rfl⟩ : negated nots q = first ∧ [] = rest := by simpa using h
    simp [clauses_negated, Item.clauses]
  | case3 nots q k items next more hr ih =>
    obtain ⟨rfl, rfl⟩ : negated nots q = first ∧ (k, next) :: more = rest := by simpa using h
    simp [clauses_negated, Item.clauses, ← ih hr]
  | case4 nots q k items hr => simp at h
  | case5 nots xs => simp at h

/-- **The query of a flat expression has the clauses of its members.** -/
theorem clauses_ofItems? {xs : List Item} {q : Query} (h : ofItems? xs = some q) :
    q.clauses = xs.flatMap Item.clauses := by
  obtain ⟨⟨first, rest⟩, hr, rfl⟩ := Option.map_eq_some_iff.mp h
  rw [← clauses_chain? hr]
  simp [ofChain, clauses_joinRuns]

/-! ### Expressions -/

open Pattern FlowSelect.Language

variable {Q : Token → Clause → Prop} {nested : Matcher} {c : Cursor} {m : Match}

/-- Every comparison leaves one token that reads as a clause, and `Q` holds of the two. -/
def ComparisonsRead (Q : Token → Clause → Prop) : Prop :=
  ∀ nested : Matcher, nested.Advances → ∀ c m, Language.comparison.run nested .loose c = some m →
    ∃ t clause, m.tokens = [t] ∧ item? t = some (.operand (.clause clause)) ∧ Q t clause

theorem comparisonsRead_wellWritten : ComparisonsRead fun _ clause => clause.WellWritten :=
  fun _ hn _ _ h => comparison_token hn h

/-- Tokens that read as a flat expression, with the clauses of their comparisons. -/
def Formed (Q : Token → Clause → Prop) (ts : List Token) : Prop :=
  ∃ xs, items? ts = some xs ∧ Members xs ∧
    List.Forall₂ Q (Token.comparisons ts) (xs.flatMap Item.clauses)

theorem Formed.link {ts us vs : List Token} {k : Connective} (ht : Formed Q ts)
    (hu : items? us = some [.link k]) (hus : Token.comparisons us = []) (hv : Formed Q vs) :
    Formed Q (ts ++ (us ++ vs)) := by
  obtain ⟨xs, hxs, hx, hxq⟩ := ht
  obtain ⟨ys, hys, hy, hyq⟩ := hv
  refine ⟨xs ++ Item.link k :: ys, items?_append hxs (items?_append hu hys), hx.append k hy, ?_⟩
  simpa [Item.clauses, hus] using List.rel_append hxq hyq

/-- A matcher of expressions that leaves one token, which reads as a query with the clauses of the
token's comparisons. -/
def Shaped (Q : Token → Clause → Prop) (nested : Matcher) : Prop :=
  ∀ c m, nested .loose c = some m →
    ∃ t q, m.tokens = [t] ∧ item? t = some (.operand q) ∧ List.Forall₂ Q (Token.comparisons [t]) q.clauses

theorem negation_items (h : negation.run nested .loose c = some m) : items? m.tokens = some [.not] := by
  obtain ⟨cs, -, -, htok⟩ := run_whole (by decide) rfl h
  simp [htok, items?, item?]

theorem connective_items (h : connective.run nested .loose c = some m) :
    ∃ k, items? m.tokens = some [.link k] := by
  rcases run_alt_eq_some.mp h with h | ⟨-, h⟩
  · obtain ⟨cs, -, -, htok⟩ := run_whole (by decide) rfl h
    exact ⟨.and, by simp [htok, items?, item?]⟩
  · obtain ⟨cs, -, -, htok⟩ := run_whole (by decide) rfl h
    exact ⟨.or, by simp [htok, items?, item?]⟩

theorem negations_items (hn : nested.Advances)
    (h : (Pattern.many negation).run nested .loose c = some m) :
    ∃ n, items? m.tokens = some (List.replicate n .not) := by
  rcases (run_many_iff hn rfl).mp h with ⟨-, rfl⟩ | ⟨m₁, h₁, hloop⟩
  · exact ⟨0, rfl⟩
  · have hfirst : ∃ n, items? m₁.tokens = some (List.replicate n .not) := ⟨1, negation_items h₁⟩
    clear h h₁
    induction hloop with
    | stop _ => exact hfirst
    | more hstep _ ih =>
      obtain ⟨n, hitems⟩ := hfirst
      refine ih ⟨n + 1, ?_⟩
      rw [items?_append hitems (negation_items hstep), List.replicate_succ']

theorem primary_items (hQ : ComparisonsRead Q) (hn : nested.Advances) (hs : Shaped Q nested)
    (h : primary.run nested .loose c = some m) :
    ∃ q, items? m.tokens = some [.operand q] ∧ List.Forall₂ Q (Token.comparisons m.tokens) q.clauses := by
  rcases run_primary_iff.mp h with h | ⟨-, h⟩
  · obtain ⟨t, clause, htok, hitem, hq⟩ := hQ nested hn _ _ h
    refine ⟨.clause clause, by simp [htok, items?, hitem], ?_⟩
    rw [comparisons_comparison hn h, htok]
    exact .cons hq .nil
  · obtain ⟨_, n, _, _, hnested, _, rfl⟩ := run_bracketed_iff.mp h
    obtain ⟨t, q, htok, hitem, hq⟩ := hs _ _ hnested
    exact ⟨q, by simp [htok, items?, hitem], by rwa [htok]⟩

/-- An operand with the signs for "not" before it. -/
theorem operand_formed (hQ : ComparisonsRead Q) (hn : nested.Advances) (hs : Shaped Q nested) {n p : Match}
    {d : Cursor} (h₁ : (Pattern.many negation).run nested .loose c = some n)
    (h₂ : primary.run nested .loose d = some p) : Formed Q (n.tokens ++ p.tokens) := by
  obtain ⟨k, hk⟩ := negations_items hn h₁
  obtain ⟨q, hq, hclauses⟩ := primary_items hQ hn hs h₂
  refine ⟨_, items?_append hk hq, (Members.last q).nots k, ?_⟩
  rw [Token.comparisons_append, comparisons_eq_nil hn (by decide) (by decide) h₁]
  simpa [Item.clauses, List.flatMap_replicate] using hclauses

/-- Every link of a chain keeps it a flat expression. -/
theorem chain_formed (hQ : ComparisonsRead Q) (hn : nested.Advances) (hs : Shaped Q nested)
    {ts : List Token} {last : Match} (hloop : Loop .loose (link.run nested .loose) m last)
    (h : Formed Q (ts ++ m.tokens)) : Formed Q (ts ++ last.tokens) := by
  induction hloop with
  | stop _ => exact h
  | more hstep _ ih =>
    obtain ⟨o, n, p, ho, hn', hp, rfl⟩ := run_link_iff.mp hstep
    obtain ⟨k, hk⟩ := connective_items ho
    refine ih ?_
    rw [← List.append_assoc]
    exact h.link hk (comparisons_eq_nil hn (by decide) (by decide) ho) (operand_formed hQ hn hs hn' hp)

/-- One level of brackets more. -/
theorem expr_shaped (hQ : ComparisonsRead Q) (hn : nested.Advances) (hs : Shaped Q nested) :
    Shaped Q (expr.run nested) := by
  intro c m h
  obtain ⟨n, p, l, hn', hp, hl, rfl⟩ := (run_expr_iff hn).mp h
  have hform : Formed Q (n.tokens ++ p.tokens ++ l.tokens) :=
    chain_formed hQ hn hs hl (by simpa using operand_formed hQ hn hs hn' hp)
  obtain ⟨xs, hxs, hmembers, hq⟩ := hform
  obtain ⟨q, hquery⟩ := ofItems?_members hmembers
  rw [List.append_assoc] at hxs hq
  refine ⟨_, q, rfl, by simp [item?, hxs, hquery], ?_⟩
  rw [Token.comparisons_node (by decide), clauses_ofItems? hquery]
  exact hq

theorem matchExpr_shaped (hQ : ComparisonsRead Q) : ∀ depth, Shaped Q (matchExpr depth)
  | 0 => fun c m h => by simp [matchExpr] at h
  | depth + 1 => expr_shaped hQ (matchExpr_advances depth) (matchExpr_shaped hQ depth)

/-- **Every match of an expression reads as a query of its comparisons.** -/
theorem matchNested_shaped (hQ : ComparisonsRead Q) : Shaped Q matchNested :=
  fun c m h => matchExpr_shaped hQ (c.rest.length + 1) c m h

/-! ### Texts -/

/-- **A text in the language is read**: it has no comparisons and asks for nothing, or it writes a query
whose clauses are those of its comparisons. -/
theorem ofText_of_read (hQ : ComparisonsRead Q) {text : String} {ts : List Token}
    (h : tokens? program text = some ts) :
    ofText text = .ok none ∧ Token.comparisons ts = [] ∨
      ∃ q, ofText text = .ok (some q) ∧ List.Forall₂ Q (Token.comparisons ts) q.clauses := by
  obtain ⟨m, hm, rfl⟩ := Option.map_eq_some_iff.mp h
  rw [matchText_program, Cursor.ofText] at hm
  obtain ⟨e, he, hend, rfl⟩ := run_program_iff.mp hm
  rcases run_opt_eq_some.mp he with hexpr | ⟨-, rfl⟩
  · rw [← matchNested_eq_run] at hexpr
    obtain ⟨t, q, htok, hitem, hq⟩ := matchNested_shaped hQ _ _ hexpr
    refine .inr ⟨q, ofText_eq_some_iff.mpr ⟨e, t, hexpr, hend, htok, hitem⟩, ?_⟩
    have hlast : Token.comparisons [.node .endOfInput (e.after.skip .loose).offset "" []] = [] := rfl
    simp only [named, reduceCtorEq, if_false]
    rwa [Token.comparisons_node (by decide), htok, Token.comparisons_append, hlast, List.append_nil]
  · refine .inl ⟨ofText_eq_ok_iff.mpr ⟨_, hm, by simp [named, ofProgram?, Token.rule]⟩, ?_⟩
    simp [named, Token.comparisons_node]

/-- What reading a text can come to. -/
theorem ofText_cases (text : String) :
    (∃ u, ofText text = .error (.ofUnreadable (.unreadable u))) ∨
      ofText text = .ok none ∨ ∃ q, ofText text = .ok (some q) ∧ q.WellWritten := by
  cases h : tokens? program text with
  | none =>
    have hread : Language.read program text = .error (.unreadable (report program text)) := by
      unfold Language.read
      rw [h]
    refine .inl ⟨report program text, ?_⟩
    unfold ofText
    rw [hread]
  | some ts =>
    right
    rcases ofText_of_read comparisonsRead_wellWritten h with ⟨hnone, -⟩ | ⟨q, hq, hclauses⟩
    · exact .inl hnone
    · have hall : List.Forall₂ (fun clause _ => clause.WellWritten ∧ True) q.clauses (Token.comparisons ts) :=
        (List.Forall₂.flip hclauses).imp fun _ _ hw => ⟨hw, trivial⟩
      exact .inr ⟨q, hq, ((List.forall₂_and_left _ _).mp hall).1⟩

end Query

/-! ### The tokens of aliases -/

/-- A listing has the token of a column with an alias. -/
def Token.Mentions (listed : List (Nat × Token)) (name : String) : Prop :=
  ∃ l t, (l, t) ∈ listed ∧ t.rule = .column ∧ t.text = name

theorem Token.Mentions.mono {xs ys : List (Nat × Token)} {name : String} (h : Mentions xs name)
    (hsub : xs ⊆ ys) : Mentions ys name := by
  obtain ⟨l, t, ht, hr⟩ := h
  exact ⟨l, t, hsub ht, hr⟩

theorem ColumnName.ofToken?_mentions {t : Token} {name : String} (k : Nat)
    (h : ofToken? t = some (.registered name)) : Token.Mentions (t.listing k) name := by
  unfold ofToken? at h
  split at h
  · next start text children =>
    obtain rfl : text = name := by simpa using h
    exact ⟨k, .node .column start text children, by simp [Token.listing], rfl, rfl⟩
  · simp at h
  · simp at h

theorem Subject.ofToken?_mentions {t : Token} {x : Subject} {name : String} (k : Nat)
    (h : ofToken? t = some x) (hx : x.columnName = .registered name) :
    Token.Mentions (t.listing k) name := by
  unfold ofToken? at h
  split at h
  · obtain ⟨c, hc, rfl⟩ := Option.map_eq_some_iff.mp h
    obtain rfl : c = .registered name := hx
    refine (ColumnName.ofToken?_mentions (k + 1) hc).mono ?_
    intro y hy
    simp [Token.listing, Token.listingAll, hy]
  · obtain ⟨c, hc, rfl⟩ := Option.map_eq_some_iff.mp h
    obtain rfl : c = .registered name := hx
    exact ColumnName.ofToken?_mentions k hc

theorem Clause.ofTokens?_mentions {span : Span} {ts : List Token} {c : Clause} {name : String} (k : Nat)
    (h : ofTokens? span ts = some c) (hc : c.subject.columnName = .registered name) :
    Token.Mentions (Token.listingAll k ts) name := by
  have hparts : ∀ {t : Token} {r : Option Token} {v : Token} {us : List Token},
      ofParts? span t r v = some c → Token.Mentions (Token.listingAll k (t :: us)) name := by
    intro t r v us h
    unfold ofParts? at h
    split at h
    · next x _ _ hx _ =>
      obtain rfl : _ = c := by simpa using h
      refine (Subject.ofToken?_mentions k hx hc).mono ?_
      intro y hy
      simp [Token.listingAll, hy]
    · cases h
  unfold ofTokens? at h
  split at h
  · exact hparts h
  · exact hparts h
  · cases h

namespace Query

mutual

/-- An alias in a clause of a member comes from a token of a column. -/
theorem item?_mentions {x : Item} {clause : Clause} {name : String} : ∀ (t : Token) (k : Nat),
    item? t = some x → clause ∈ x.clauses → clause.subject.columnName = .registered name →
      Token.Mentions (t.listing k) name
  | .node r start text children, k, h, hx, hname => by
    have hlater : Token.listingAll (k + 1) children ⊆ (Token.node r start text children).listing k := by
      intro y hy
      simp [Token.listing, hy]
    cases r with
    | comparison =>
      obtain ⟨c, hc, rfl⟩ : ∃ c, Clause.ofTokens? (Token.node .comparison start text children).span
          children = some c ∧ Item.operand (.clause c) = x := by simpa [item?] using h
      obtain rfl : clause = c := by simpa [Item.clauses, clauses] using hx
      exact (Clause.ofTokens?_mentions (k + 1) hc hname).mono hlater
    | expr =>
      cases hitems : items? children with
      | none => simp [item?, hitems] at h
      | some xs =>
        obtain ⟨q, hq, rfl⟩ : ∃ q, ofItems? xs = some q ∧ Item.operand q = x := by
          simpa [item?, hitems] using h
        have hx : clause ∈ q.clauses := hx
        rw [clauses_ofItems? hq] at hx
        exact (items?_mentions children (k + 1) hitems hx hname).mono hlater
    | not =>
      obtain rfl : Item.not = x := by simpa [item?] using h
      simp [Item.clauses] at hx
    | and =>
      obtain rfl : Item.link .and = x := by simpa [item?] using h
      simp [Item.clauses] at hx
    | or =>
      obtain rfl : Item.link .or = x := by simpa [item?] using h
      simp [Item.clauses] at hx
    | _ => simp [item?] at h

/-- An alias in a clause of some members comes from a token of a column. -/
theorem items?_mentions {xs : List Item} {clause : Clause} {name : String} :
    ∀ (ts : List Token) (k : Nat), items? ts = some xs → clause ∈ xs.flatMap Item.clauses →
      clause.subject.columnName = .registered name → Token.Mentions (Token.listingAll k ts) name
  | [], k, h, hx, hname => by
    obtain rfl : [] = xs := by simpa [items?] using h
    simp at hx
  | t :: ts, k, h, hx, hname => by
    rw [items?] at h
    cases hitem : item? t with
    | none => simp [hitem] at h
    | some x =>
      cases hitems : items? ts with
      | none => simp [hitem, hitems] at h
      | some ys =>
        obtain rfl : x :: ys = xs := by simpa [hitem, hitems] using h
        rw [List.flatMap_cons, List.mem_append] at hx
        rw [Token.listingAll]
        rcases hx with hx | hx
        · exact (item?_mentions t k hitem hx hname).mono (List.subset_append_left _ _)
        · exact (items?_mentions ts k hitems hx hname).mono (List.subset_append_right _ _)

end

open Pattern FlowSelect.Language

end Query

end FlowSelect
