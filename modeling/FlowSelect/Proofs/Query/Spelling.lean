/-
# Comparisons as they are spelled

A column, a sign, a number and a quoted text are read as the tokens that one would expect, and so is
a comparison put together from them, with any blanks between them. Two choices have to come out right.
A column that a relation or a value follows is not a masked column, though masked columns are tried
first. And where no relation is written, none is found in the value.

Key definitions: `ColumnName.text`, `Language.IsNumeral`, `Language.Solid`, `Language.Blanks`,
`Language.Joint`.
Key theorems: `Language.gives_anyColumn`, `Language.value_gives_number`, `Language.Masks.gives`,
`Language.subject_gives_column`, `Language.comparison_gives`.
-/
import FlowSelect.Proofs.Query.Values

namespace FlowSelect

/-- A column as it is written in a filter. -/
def ColumnName.text : ColumnName → String
  | .registered name => name
  | .raw name => name

namespace Language

open Pattern

variable {nested : Matcher} {as bs cs ds js rest : List Char} {name symbol : String} {c : ColumnName}

/-! ### Blanks -/

/-- The text starts with a character that is no blank. -/
def Solid (cs : List Char) : Prop := ∃ r ds, cs = r :: ds ∧ Cursor.isBlank r = false

/-- The characters are blanks. -/
def Blanks (bs : List Char) : Prop := ∀ b ∈ bs, Cursor.isBlank b = true

theorem blanks_nil : Blanks [] := by simp [Blanks]

theorem blanks_space : Blanks [' '] := by simp [Blanks, Cursor.isBlank]

/-- What holds of every blank and of the first character after some blanks holds at their front. -/
theorem Blanks.head {P : Char → Prop} (hbs : Blanks bs) (hP : P ' ' ∧ P '\t' ∧ P '\r' ∧ P '\n')
    (hcs : ∀ c ∈ cs.head?, P c) : ∀ c ∈ (bs ++ cs).head?, P c := by
  cases bs with
  | nil => exact hcs
  | cons b bs =>
    rintro _ ⟨⟩
    obtain ⟨hspace, htab, hreturn, hnewline⟩ := hP
    rcases Cursor.isBlank_cases (hbs b (by simp)) with rfl | rfl | rfl | rfl <;> assumption

theorem Solid.skip (h : Solid cs) (offset : Nat) :
    Cursor.skip .loose ⟨offset, cs ++ rest⟩ = ⟨offset, cs ++ rest⟩ := by
  obtain ⟨r, ds, rfl, hr⟩ := h
  exact Cursor.skip_of_not_blank .loose rfl hr

theorem Solid.skip_blanks (h : Solid cs) (hbs : Blanks bs) (offset : Nat) :
    Cursor.skip .loose ⟨offset, bs ++ (cs ++ rest)⟩ = ⟨offset + bs.length, cs ++ rest⟩ := by
  induction bs generalizing offset with
  | nil => exact h.skip offset
  | cons b bs ih =>
    obtain ⟨hb, hbs⟩ := List.forall_mem_cons.mp hbs
    have hskip := ih hbs (offset + 1)
    rw [List.length_cons, Nat.add_comm bs.length, ← Nat.add_assoc, ← hskip]
    simp [Cursor.skip, Cursor.skipBlanksFrom, hb]

/-- A pattern that gives a token gives it after blanks too. -/
theorem gives_after_blanks {α : Type} {p : Pattern} {f : Token → Option α} {a : α} {c : Cursor}
    (h : Gives nested p f cs rest a) (hcs : Solid cs) (hbs : Blanks bs)
    (hc : c.rest = bs ++ (cs ++ rest)) :
    ∃ m t, p.run nested .loose (c.skip .loose) = some m ∧ m.after.rest = rest ∧ m.tokens = [t] ∧
      f t = some a := by
  obtain ⟨offset, _⟩ := c
  obtain rfl := hc
  rw [hcs.skip_blanks hbs]
  exact h (offset + bs.length)

/-- What a pattern reads starts with one of its first characters. -/
theorem Solid.first {α : Type} {p : Pattern} {f : Token → Option α} {a : α} (hcs : Solid cs)
    (hn : nested.Advances) (hp : p.nullable = false) (h : Gives nested p f cs rest a) :
    ∀ r ∈ (cs ++ rest).head?, p.first r = true := by
  obtain ⟨m, t, hm, -⟩ := h 0
  obtain ⟨r, more, hr, hfirst⟩ := run_startsAt hn (hcs.skip 0) hp hm
  have hhead : (cs ++ rest).head? = some r := congrArg List.head? hr
  intro r' hr'
  obtain rfl : r = r' := Option.some.inj (hhead.symm.trans hr')
  exact hfirst

/-! ### Columns -/

/-- **A stored column is read as a column.** -/
theorem gives_rawColumn (hn : nested.Advances) (h : Text.isRawColumn name = true) (hrest : EndsName rest) :
    Gives nested rawColumn ColumnName.ofToken? name.toList rest (.raw name) := by
  obtain ⟨ds, es, ps, hname, hds, hes, hps⟩ := Text.isRawColumn_iff.mp h
  have hbreaks : Digits.Breaks rest := hrest.breaks
  have hid : Digits.Breaks ('i' :: 'd' :: (es ++ ps) ++ rest) := by rintro _ ⟨⟩; rfl
  have hpart : Takes nested (.opt (.seq (exactly "p") (atLeastOne digit))) .tight ps rest ∧
      Digits.Breaks (ps ++ rest) := by
    rcases hps with rfl | ⟨qs, rfl, hqs⟩
    · refine ⟨takes_opt_nil (hrest.fails (by decide) rfl rfl fun r hr => ?_), hbreaks⟩
      obtain rfl : 'p' = r := by simpa [exactly, first, nullable] using hr
      rfl
    · refine ⟨takes_opt (takes_seq (by decide) (takes_literal ['p'])
        (takes_digits hn hqs hbreaks)), ?_⟩
      rintro _ ⟨⟩
      rfl
  have htail : Takes nested (.seq (.opt (.seq (exactly "p") (atLeastOne digit))) wordEnd) .tight
      ps rest := takes_seq_nil (by decide) hpart.1 (takes_wordEnd hrest)
  have hbody : Takes nested (inOrder (exactly "e") [atLeastOne digit, exactly "id", atLeastOne digit,
      .opt (.seq (exactly "p") (atLeastOne digit)), wordEnd]) .tight
      (['e'] ++ (ds ++ (['i', 'd'] ++ (es ++ ps)))) rest :=
    takes_seq (by decide) (takes_literal ['e']) (takes_seq (by decide) (takes_digits hn hds hid)
      (takes_seq (by decide) (takes_literal ['i', 'd'])
        (takes_seq (by decide) (takes_digits hn hes hpart.2) htail)))
  have hcs : name.toList = ['e'] ++ (ds ++ (['i', 'd'] ++ (es ++ ps))) := hname
  rw [hcs]
  refine gives_rule (takes_rule hbody) fun start children => ?_
  rw [← hcs, String.ofList_toList]
  rfl

/-- **A name of the schema is read as a column.** -/
theorem gives_registered (hn : nested.Advances) (h : (ColumnName.registered name).WellWritten)
    (hrest : EndsName rest) :
    Gives nested column ColumnName.ofToken? name.toList rest (.registered name) := by
  obtain ⟨cs, rfl, hcs⟩ := h
  obtain ⟨hne, hall⟩ : cs ≠ [] ∧ ∀ r ∈ cs, Text.isNameChar r = true := by
    simpa [Text.isName] using hcs
  have hname : Takes nested (atLeastOne nameChar) .tight cs rest :=
    takes_atLeastOne hn rfl (by decide) hne (fun r hr _ => takes_nameChar (hall r hr))
      (hrest.fails (by decide) rfl rfl fun r hr => (first_nameChar r).symm.trans hr)
  have hbody : Takes nested (.seq (exactly "%") (atLeastOne nameChar)) .tight (['%'] ++ cs) rest :=
    takes_seq (by decide) (takes_literal ['%']) hname
  rw [String.toList_ofList]
  exact gives_rule (takes_rule hbody) fun start children => rfl

/-- **A column is read up to where its name ends.** -/
theorem gives_anyColumn (hn : nested.Advances) (h : c.WellWritten) (hrest : EndsName rest) :
    Gives nested anyColumn ColumnName.ofToken? c.text.toList rest c := by
  cases c with
  | raw name => exact gives_alt_left (gives_rawColumn hn h hrest)
  | registered name =>
    have hraw : Fails nested rawColumn .loose (name.toList ++ rest) := by
      obtain ⟨cs, rfl, -⟩ := h
      refine fails_rule (fails_of_first (by decide) rfl rfl ?_)
      rw [String.toList_ofList]
      rintro _ ⟨⟩
      rfl
    exact gives_alt_right hraw (gives_registered hn h hrest)

/-- A column does not start with a blank, a bracket or a sign for "not". -/
theorem head_column (h : c.WellWritten) : ∃ r ds, c.text.toList = r :: ds ∧
    Cursor.isBlank r = false ∧ r ≠ '(' ∧ negation.first r = false := by
  cases c with
  | registered name =>
    obtain ⟨cs, rfl, -⟩ := h
    exact ⟨'%', cs, by simp [ColumnName.text], rfl, by decide, rfl⟩
  | raw name =>
    obtain ⟨ds, es, ps, hname, -⟩ := Text.isRawColumn_iff.mp h
    exact ⟨'e', _, hname, rfl, by decide, rfl⟩

theorem solid_column (h : c.WellWritten) : Solid c.text.toList := by
  obtain ⟨r, ds, hr, hblank, -⟩ := head_column h
  exact ⟨r, ds, hr, hblank⟩

/-! ### Signs -/

theorem relation_symbols (h : (Relation.ofSymbol? symbol).isSome = true) :
    symbol = "==" ∨ symbol = "!=" ∨ symbol = "<=" ∨ symbol = ">=" ∨ symbol = "<" ∨ symbol = ">" ∨
      symbol = "=" := by
  unfold Relation.ofSymbol? at h
  split at h <;> simp at h ⊢

theorem bitOperator_symbols (h : (BitOperator.ofSymbol? symbol).isSome = true) :
    symbol = "<<" ∨ symbol = ">>" ∨ symbol = "&" ∨ symbol = "|" ∨ symbol = "^" := by
  unfold BitOperator.ofSymbol? at h
  split at h <;> simp at h ⊢

theorem first_relation {r : Char} (h : relation.first r = true) : r = '=' ∨ r = '!' ∨ r = '<' ∨ r = '>' := by
  have hcases : '=' = r ∨ '!' = r ∨ '<' = r ∨ '>' = r ∨ '<' = r ∨ '>' = r ∨ '=' = r := by
    simpa [relation, whole, oneOf, exactly, first] using h
  tauto

theorem first_bitOperator {r : Char} (h : bitOperator.first r = true) :
    r = '<' ∨ r = '>' ∨ r = '&' ∨ r = '|' ∨ r = '^' := by
  have hcases : '<' = r ∨ '>' = r ∨ '&' = r ∨ '|' = r ∨ '^' = r := by
    simpa [bitOperator, whole, oneOf, exactly, first, nullable] using h
  tauto

/-- **The sign of a relation is read up to where no such sign goes on.** -/
theorem gives_relation (h : (Relation.ofSymbol? symbol).isSome = true)
    (hrest : ∀ r ∈ rest.head?, relation.first r = false) :
    Gives nested relation (fun t => some t.text) symbol.toList rest symbol := by
  refine gives_rule (takes_rule ?_) fun start children => by simp [Token.text]
  intro offset
  rcases rest with _ | ⟨r, rest⟩
  · rcases relation_symbols h with rfl | rfl | rfl | rfl | rfl | rfl | rfl <;> exact ⟨_, rfl, rfl⟩
  · have hr : '=' ≠ r := by
      rintro rfl
      exact absurd (hrest '=' rfl) (by decide)
    rcases relation_symbols h with rfl | rfl | rfl | rfl | rfl | rfl | rfl
    all_goals exact ⟨_, by simp [oneOf, exactly, run, takeLiteral, bare, Cursor.next, hr]; rfl, rfl⟩

/-- **The sign of a bit operator is read, unless it would be doubled.** -/
theorem gives_bitOperator (h : (BitOperator.ofSymbol? symbol).isSome = true)
    (hrest : ∀ r ∈ rest.head?, bitOperator.first r = false) :
    Gives nested bitOperator (fun t => some t.text) symbol.toList rest symbol := by
  refine gives_rule (takes_rule ?_) fun start children => by simp [Token.text]
  intro offset
  rcases rest with _ | ⟨r, rest⟩
  · rcases bitOperator_symbols h with rfl | rfl | rfl | rfl | rfl <;> exact ⟨_, rfl, rfl⟩
  · have hr : '&' ≠ r ∧ '|' ≠ r := by
      constructor <;> rintro rfl
      · exact absurd (hrest '&' rfl) (by decide)
      · exact absurd (hrest '|' rfl) (by decide)
    rcases bitOperator_symbols h with rfl | rfl | rfl | rfl | rfl
    all_goals
      exact ⟨_, by simp [oneOf, exactly, run, takeLiteral, bare, Cursor.next, Cursor.skip, hr]; rfl, rfl⟩

/-- A relation is not a bit operator: none of its signs is doubled. -/
theorem bitOperator_fails (h : (Relation.ofSymbol? symbol).isSome = true)
    (hrest : ∀ r ∈ rest.head?, relation.first r = false) :
    Fails nested bitOperator .loose (symbol.toList ++ rest) := by
  apply fails_rule
  intro offset
  rcases rest with _ | ⟨r, rest⟩
  · rcases relation_symbols h with rfl | rfl | rfl | rfl | rfl | rfl | rfl <;> rfl
  · have hr : '<' ≠ r ∧ '>' ≠ r := by
      constructor <;> rintro rfl
      · exact absurd (hrest '<' rfl) (by decide)
      · exact absurd (hrest '>' rfl) (by decide)
    rcases relation_symbols h with rfl | rfl | rfl | rfl | rfl | rfl | rfl
    all_goals simp [oneOf, exactly, run, takeLiteral, bare, Cursor.next, hr]

theorem solid_relation (h : (Relation.ofSymbol? symbol).isSome = true) : Solid symbol.toList := by
  rcases relation_symbols h with rfl | rfl | rfl | rfl | rfl | rfl | rfl <;> exact ⟨_, _, rfl, rfl⟩

theorem solid_bitOperator (h : (BitOperator.ofSymbol? symbol).isSome = true) : Solid symbol.toList := by
  rcases bitOperator_symbols h with rfl | rfl | rfl | rfl | rfl <;> exact ⟨_, _, rfl, rfl⟩

/-! ### Numbers -/

/-- A number as it is written in decimal: digits, or a minus sign and digits. -/
def IsNumeral (cs : List Char) : Prop :=
  Digits.isRun cs = true ∨ ∃ ds, cs = '-' :: ds ∧ Digits.isRun ds = true

theorem isNumeral_toString (n : Int) : IsNumeral (toString n).toList := by
  rw [Digits.toList_toString]
  split
  · exact .inl (Digits.isRun_toDigits _)
  · exact .inr ⟨_, rfl, Digits.isRun_toDigits _⟩

theorem written_of_isNumeral (h : IsNumeral cs) : Number.Written cs := by
  have hplain : ∀ {ds : List Char}, Digits.isRun ds = true → Number.Unsigned ds := by
    intro ds hds
    rw [← List.append_nil ds]
    exact .decimal hds (.inl rfl)
  rcases h with h | ⟨ds, rfl, h⟩
  · exact .inl (hplain h)
  · exact .inr ⟨ds, rfl, hplain h⟩

/-- A number starts with a digit or a minus sign. -/
theorem head_number (h : Number.Written cs) :
    ∃ r ds, cs = r :: ds ∧ (r.isDigit = true ∨ r = '-') := by
  rcases h with h | ⟨ds, rfl, -⟩
  · cases h with
    | hexadecimal hx hhs => exact ⟨_, _, rfl, .inl rfl⟩
    | @decimal ds unit hds hunit =>
      obtain ⟨hne, hdigits⟩ := mem_run hds
      obtain ⟨d, ds, rfl⟩ := List.exists_cons_of_ne_nil hne
      exact ⟨d, _, rfl, .inl (hdigits d (by simp))⟩
  · exact ⟨_, _, rfl, .inr rfl⟩

theorem solid_number (h : Number.Written cs) : Solid cs := by
  obtain ⟨r, ds, rfl, hr⟩ := head_number h
  refine ⟨r, ds, rfl, ?_⟩
  rw [← Bool.not_eq_true]
  intro hblank
  rcases Cursor.isBlank_cases hblank with rfl | rfl | rfl | rfl <;> simp at hr

/-- **A number is read as a number.** -/
theorem gives_number {α : Type} {f : Token → Option α} {a : α} (hn : nested.Advances)
    (hcs : Number.Written cs) (hrest : EndsName rest)
    (hf : ∀ start children, f (.node .number start (String.ofList cs) children) = some a) :
    Gives nested number f cs rest a :=
  gives_rule (takes_number hn hcs hrest) hf

/-- **A number is read as a value**: the times and addresses tried before it do not match. -/
theorem value_gives_number (hn : nested.Advances) (hcs : IsNumeral cs) (hrest : Closes rest) :
    Gives nested value ValueForm.ofToken? cs rest (.number, String.ofList cs) :=
  (lexes_number hn (written_of_isNumeral hcs) (ends_of_closes hrest)).gives (by decide)

/-! ### Left sides -/

/-- The characters of a masked column: a column, an operator and a number with blanks between them. -/
structure Masks (cs : List Char) (c : ColumnName) (op number : String) : Prop where
  column : c.WellWritten
  operator : (BitOperator.ofSymbol? op).isSome = true
  digits : Number.Written number.toList
  blanks : ∃ as bs, Blanks as ∧ Blanks bs ∧
    cs = c.text.toList ++ (as ++ (op.toList ++ (bs ++ number.toList)))

/-- **A masked column is read as one.** -/
theorem Masks.gives {op number : String} (h : Masks cs c op number) (hn : nested.Advances)
    (hrest : EndsName rest) :
    Gives nested masked Subject.ofToken? cs rest (.masked c op number) := by
  obtain ⟨as, bs, has, hbs, rfl⟩ := h.blanks
  have hop := solid_bitOperator h.operator
  have hnumber := solid_number h.digits
  have hdigits : ∀ r ∈ (bs ++ (number.toList ++ rest)).head?, bitOperator.first r = false := by
    apply hbs.head (P := fun r => bitOperator.first r = false) (by decide)
    obtain ⟨r, ds, hr, hcases⟩ := head_number h.digits
    rw [hr]
    rintro _ ⟨⟩
    rw [← Bool.not_eq_true]
    intro hfirst
    rcases first_bitOperator hfirst with rfl | rfl | rfl | rfl | rfl <;> simp at hcases
  have hends : EndsName (as ++ (op.toList ++ (bs ++ (number.toList ++ rest)))) := by
    apply has.head (P := fun r => Text.isNameChar r = false) (by decide)
    rcases bitOperator_symbols h.operator with rfl | rfl | rfl | rfl | rfl <;> (rintro _ ⟨⟩; rfl)
  intro offset
  obtain ⟨a, t, ha, hafter, hat, ht⟩ := gives_anyColumn hn h.column hends offset
  obtain ⟨b, u, hb, hafter', hbu, hu⟩ :=
    gives_after_blanks (gives_bitOperator h.operator hdigits) hop has hafter
  obtain ⟨n, v, hnum, hafter'', hnv, hv⟩ :=
    gives_after_blanks (gives_number (f := fun t => some t.text) (a := String.ofList number.toList) hn
      h.digits hrest fun _ _ => rfl) hnumber hbs hafter'
  have htext : c.text.toList ++ (as ++ (op.toList ++ (bs ++ number.toList))) ++ rest =
      c.text.toList ++ (as ++ (op.toList ++ (bs ++ (number.toList ++ rest)))) := by simp
  rw [htext]
  refine ⟨_, _, run_masked_iff.mpr ⟨a, b, n, ha, hb, hnum, rfl⟩, hafter'', rfl, ?_⟩
  simp [hat, hbu, hnv, Subject.ofToken?, ht, Option.some.inj hu, Option.some.inj hv]

theorem Masks.solid {op number : String} (h : Masks cs c op number) : Solid cs := by
  obtain ⟨as, bs, -, -, rfl⟩ := h.blanks
  obtain ⟨r, ds, hr, hblank⟩ := solid_column h.column
  exact ⟨r, _, by rw [hr, List.cons_append], hblank⟩

/-- A masked column in brackets is a left side, whatever follows. -/
theorem Masks.subject_gives_brackets {op number : String} (h : Masks cs c op number) (hn : nested.Advances)
    (has : Blanks as) (hbs : Blanks bs) (rest : List Char) :
    Gives nested subject Subject.ofToken? ('(' :: (as ++ (cs ++ (bs ++ [')'])))) rest
      (.masked c op number) := by
  intro offset
  have hclose : Solid [')'] := ⟨_, _, rfl, rfl⟩
  have hends : EndsName (bs ++ ([')'] ++ rest)) := by
    apply hbs.head (P := fun r => Text.isNameChar r = false) (by decide)
    rintro _ ⟨⟩
    rfl
  have hopen : (Cursor.next '(' offset (as ++ (cs ++ (bs ++ ([')'] ++ rest))))).rest =
      as ++ (cs ++ (bs ++ ([')'] ++ rest))) := rfl
  obtain ⟨m, t, hm, hafter, htok, ht⟩ := gives_after_blanks (h.gives hn hends) h.solid has hopen
  have hskip : (m.after.skip .loose).rest = ')' :: rest := by
    rcases hm' : m.after with ⟨offset', _⟩
    rw [hm'] at hafter
    obtain rfl := hafter
    rw [hclose.skip_blanks hbs]
    rfl
  refine ⟨_, t, run_subject_iff.mpr (.inl (run_bracketed_iff.mpr
    ⟨as ++ (cs ++ (bs ++ ([')'] ++ rest))), m, rest, by simp, hm, hskip, rfl⟩)), rfl, htok, ht⟩

/-- A masked column without brackets is a left side where its number ends. -/
theorem Masks.subject_gives {op number : String} (h : Masks cs c op number) (hn : nested.Advances)
    (hrest : EndsName rest) : Gives nested subject Subject.ofToken? cs rest (.masked c op number) := by
  intro offset
  obtain ⟨as, bs, -, -, hcs⟩ := h.blanks
  obtain ⟨r, ds, hr, -, hbracket, -⟩ := head_column h.column
  obtain ⟨m, t, hm, hafter, htok, ht⟩ := h.gives hn hrest offset
  refine ⟨m, t, run_subject_iff.mpr (.inr ⟨?_, run_alt_eq_some.mpr (.inl hm)⟩), hafter, htok, ht⟩
  exact bracketed_fails (r := r) (by rw [hcs, hr]; rfl) hbracket

/-- **A column is a left side where no bit operator follows it.** -/
theorem subject_gives_column (hn : nested.Advances) (h : c.WellWritten) (hbs : Blanks bs) (hcs : Solid cs)
    (hends : EndsName (bs ++ (cs ++ rest))) (hop : Fails nested bitOperator .loose (cs ++ rest)) :
    Gives nested subject Subject.ofToken? c.text.toList (bs ++ (cs ++ rest)) (.column c) := by
  intro offset
  obtain ⟨r, ds, hr, -, hbracket, -⟩ := head_column h
  obtain ⟨m, t, hm, hafter, htok, ht⟩ := gives_anyColumn hn h hends offset
  have hmasked : masked.run nested .loose ⟨offset, c.text.toList ++ (bs ++ (cs ++ rest))⟩ = none := by
    rw [Option.eq_none_iff_forall_ne_some]
    intro n hmask
    obtain ⟨a, b, -, ha, hb, -, -⟩ := run_masked_iff.mp hmask
    obtain rfl : a = m := Option.some.inj (ha.symm.trans hm)
    rcases ha' : a.after with ⟨offset', _⟩
    rw [ha'] at hafter hb
    obtain rfl := hafter
    rw [hcs.skip_blanks hbs, hop] at hb
    cases hb
  refine ⟨m, t, run_subject_iff.mpr (.inr ⟨?_, run_alt_eq_some.mpr (.inr ⟨hmasked, hm⟩)⟩), hafter, htok, ?_⟩
  · exact bracketed_fails (r := r) (by rw [hr]; rfl) hbracket
  · rw [Subject.ofToken?, ht]
    · rfl
    · rintro _ _ _ _ _ rfl
      simp [ColumnName.ofToken?] at ht

theorem isSome_ofSymbol? (r : Relation) : (Relation.ofSymbol? r.symbol).isSome = true := by
  cases r <;> rfl

/-- A column before a relation between blanks is the left side. -/
theorem subject_gives_column_spaced (hn : nested.Advances) (h : c.WellWritten) (r : Relation)
    (rest : List Char) :
    Gives nested subject Subject.ofToken? c.text.toList (' ' :: (r.symbol.toList ++ ' ' :: rest))
      (.column c) := by
  have hends : EndsName (' ' :: (r.symbol.toList ++ ' ' :: rest)) := by
    rintro _ ⟨⟩
    rfl
  have hblank : ∀ x ∈ (' ' :: rest).head?, relation.first x = false := by
    rintro _ ⟨⟩
    rfl
  exact subject_gives_column hn h blanks_space (solid_relation (isSome_ofSymbol? r)) hends
    (bitOperator_fails (isSome_ofSymbol? r) hblank)

/-! ### Comparisons -/

/-- What stands between a left side and a value: blanks, with or without a relation among them. -/
inductive Joint : List Char → Option String → Prop where
  | bare {bs : List Char} (hbs : Blanks bs) : Joint bs none
  | sign {as bs : List Char} {symbol : String} (has : Blanks as)
      (hsymbol : (Relation.ofSymbol? symbol).isSome = true) (hbs : Blanks bs) :
      Joint (as ++ (symbol.toList ++ bs)) (some symbol)

/-- A value does not start as a relation or a bit operator does. -/
theorem first_value {r : Char} (h : value.first r = true) :
    relation.first r = false ∧ bitOperator.first r = false := by
  rw [← Bool.not_eq_true, ← Bool.not_eq_true]
  constructor
  · intro hr
    rcases first_relation hr with rfl | rfl | rfl | rfl <;> exact absurd h (by decide)
  · intro hr
    rcases first_bitOperator hr with rfl | rfl | rfl | rfl | rfl <;> exact absurd h (by decide)

/-- What follows the sign of a relation does not go on with such a sign. -/
theorem head_after_relation (hbs : Blanks bs) (hfirst : ∀ r ∈ (ds ++ rest).head?, value.first r = true) :
    ∀ r ∈ (bs ++ (ds ++ rest)).head?, relation.first r = false := by
  apply hbs.head (P := fun r => relation.first r = false) (by decide)
  intro r hr
  exact (first_value (hfirst r hr)).1

/-- **Between a left side and a value the relation is read**, if there is one. -/
theorem Joint.reads {sign : Option String} (h : Joint js sign) (hn : nested.Advances) (hds : Solid ds)
    (hfirst : ∀ r ∈ (ds ++ rest).head?, value.first r = true) {c : Cursor}
    (hc : c.rest = js ++ (ds ++ rest)) :
    ∃ m offset, (Pattern.opt relation).run nested .loose (c.skip .loose) = some m ∧
      m.after.skip .loose = ⟨offset, ds ++ rest⟩ ∧
      (sign = none ∧ m.tokens = [] ∨ ∃ t, sign = some t.text ∧ m.tokens = [t]) := by
  obtain ⟨offset, _⟩ := c
  obtain rfl := hc
  cases h with
  | bare hbs =>
    obtain ⟨r, ds, rfl, hr⟩ := hds
    have hfails : relation.run nested .loose ⟨offset + js.length, r :: ds ++ rest⟩ = none :=
      run_eq_none hn rfl rfl hr (first_value (hfirst r rfl)).1
    rw [Solid.skip_blanks ⟨r, ds, rfl, hr⟩ hbs]
    refine ⟨_, offset + js.length, run_opt_eq_some.mpr (.inr ⟨hfails, rfl⟩), ?_, .inl ⟨rfl, rfl⟩⟩
    exact Cursor.skip_of_not_blank .loose rfl hr
  | @sign as bs symbol has hsymbol hbs =>
    have hrelation : Gives nested relation (fun t => some t.text) symbol.toList (bs ++ (ds ++ rest))
        symbol := gives_relation hsymbol (head_after_relation hbs hfirst)
    obtain ⟨m, t, hm, hafter, htok, ht⟩ := gives_after_blanks
      (c := ⟨offset, as ++ (symbol.toList ++ bs) ++ (ds ++ rest)⟩) hrelation (solid_relation hsymbol) has
      (by simp)
    obtain ⟨ts, offset', _⟩ := m
    obtain rfl := hafter
    exact ⟨_, _, run_opt_eq_some.mpr (.inl hm), hds.skip_blanks hbs offset', .inr ⟨t, ht.symm, htok⟩⟩

/-- **A column is the left side where a relation or a value follows it.** -/
theorem Joint.subject_gives_column {sign : Option String} (h : Joint js sign) (hn : nested.Advances)
    (hc : c.WellWritten) (hds : Solid ds) (hfirst : ∀ r ∈ (ds ++ rest).head?, value.first r = true)
    (hends : EndsName (js ++ (ds ++ rest))) :
    Gives nested subject Subject.ofToken? c.text.toList (js ++ (ds ++ rest)) (.column c) := by
  cases h with
  | bare hbs =>
    apply Language.subject_gives_column hn hc hbs hds hends
    obtain ⟨r, ds, rfl, hr⟩ := hds
    intro offset
    exact run_eq_none hn rfl rfl hr (first_value (hfirst r rfl)).2
  | @sign as bs symbol has hsymbol hbs =>
    have hsplit : as ++ (symbol.toList ++ bs) ++ (ds ++ rest) =
        as ++ (symbol.toList ++ (bs ++ (ds ++ rest))) := by simp
    rw [hsplit] at hends ⊢
    exact Language.subject_gives_column hn hc has (solid_relation hsymbol) hends
      (bitOperator_fails hsymbol (head_after_relation hbs hfirst))

/-- **A left side, perhaps a relation, and a value are read as a clause.** -/
theorem comparison_gives {x : Subject} {sign : Option String} {form : ValueForm} {text : String}
    (hn : nested.Advances) (hx : Gives nested subject Subject.ofToken? cs (js ++ (ds ++ rest)) x)
    (hj : Joint js sign) (hv : Gives nested value ValueForm.ofToken? ds rest (form, text)) (hds : Solid ds)
    (offset : Nat) :
    ∃ m span, comparison.run nested .loose ⟨offset, cs ++ (js ++ (ds ++ rest))⟩ = some m ∧
      m.after.rest = rest ∧
      Query.items? m.tokens = some [.operand (.clause ⟨span, x, sign, form, text⟩)] := by
  obtain ⟨a, t, ha, hafter, hat, ht⟩ := hx offset
  obtain ⟨b, offset', hb, hskip, hsign⟩ := hj.reads hn hds (hds.first hn rfl hv) hafter
  obtain ⟨v, w, hv, hend, hvw, hw⟩ := hv offset'
  rw [← hskip] at hv
  have hclause := ofTokens?_parts hat ht hsign hvw hw
  set c : Cursor := ⟨offset, cs ++ (js ++ (ds ++ rest))⟩
  refine ⟨_, (Token.node .comparison c.offset (c.textTo v.after) (a.tokens ++ (b.tokens ++ v.tokens))).span,
    run_comparison_iff.mpr ⟨a, b, v, ha, hb, hv, rfl⟩, hend, ?_⟩
  simp [named, Query.items?, Query.item?, hclause]

end Language

end FlowSelect
