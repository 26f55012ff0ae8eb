/-
# Matching a text that is known

The other proofs about the grammar start from a match and say what was read. Here the text is known,
and the pattern is shown to match: `Takes` says that it reads the given characters and stops before
the rest, `Fails` that it does not match. Both are put together along the pattern. Inside a rule that
is matched as a whole, the first character decides most failures (`fails_of_first`); the others are
those of a sequence whose first member matches and whose second one does not (`fails_seq`).

A token ends before the end of the text, a blank or a closing bracket (`Closes`): no token but a
quoted text can hold one of those.

Key definitions: `Pattern.Takes`, `Pattern.Fails`, `Pattern.Gives`, `Pattern.Closes`.
Key theorems: `Pattern.takes_seq`, `Pattern.takes_many`, `Pattern.fails_of_first`,
`Pattern.token_of_takes`.
-/
import FlowSelect.Proofs.Grammar.First

namespace FlowSelect

theorem Cursor.isBlank_cases {r : Char} (h : isBlank r = true) :
    r = ' ' ∨ r = '\t' ∨ r = '\r' ∨ r = '\n' := by
  simpa [isBlank, or_assoc] using h

namespace Pattern

variable {nested : Matcher} {s : Spacing} {p q : Pattern} {as bs cs rest : List Char}

/-- Before `rest`, the pattern reads the characters `cs`. -/
def Takes (nested : Matcher) (p : Pattern) (s : Spacing) (cs rest : List Char) : Prop :=
  ∀ offset, ∃ m, p.run nested s ⟨offset, cs ++ rest⟩ = some m ∧ m.after.rest = rest

/-- The pattern does not match at the start of the characters. -/
def Fails (nested : Matcher) (p : Pattern) (s : Spacing) (cs : List Char) : Prop :=
  ∀ offset, p.run nested s ⟨offset, cs⟩ = none

/-! ### Matches -/

theorem takeLiteral_append : ∀ (ls rest : List Char) (offset : Nat),
    ∃ d, takeLiteral ls ⟨offset, ls ++ rest⟩ = some d ∧ d.rest = rest
  | [], rest, offset => ⟨_, rfl, rfl⟩
  | l :: ls, rest, offset => by
    obtain ⟨d, hd, hrest⟩ := takeLiteral_append ls rest (offset + l.utf8Size)
    exact ⟨d, by simpa [takeLiteral, Cursor.next] using hd, hrest⟩

theorem takes_literal (ls : List Char) : Takes nested (.literal ls) s ls rest := by
  intro offset
  obtain ⟨d, hd, hrest⟩ := takeLiteral_append ls rest offset
  exact ⟨⟨[], d⟩, by simp [run, hd, bare], hrest⟩

theorem takes_one {k : CharClass} {r : Char} (h : k.contains r = true) : Takes nested (.one k) s [r] rest :=
  fun offset => ⟨⟨[], Cursor.next r offset rest⟩, by simp [run, takeOne, h, bare], rfl⟩

theorem takes_seq (hs : s ≠ .loose) (hp : Takes nested p s as (bs ++ rest))
    (hq : Takes nested q s bs rest) : Takes nested (.seq p q) s (as ++ bs) rest := by
  intro offset
  obtain ⟨m, hm, hafter⟩ := hp offset
  obtain ⟨n, hn, hend⟩ := hq m.after.offset
  rw [← hafter] at hn
  refine ⟨_, run_seq_eq_some.mpr ⟨m, n, by rwa [List.append_assoc], ?_, rfl⟩, hend⟩
  rwa [Cursor.skip_eq_self hs]

/-- A second member that reads nothing. -/
theorem takes_seq_nil (hs : s ≠ .loose) (hp : Takes nested p s cs rest) (hq : Takes nested q s [] rest) :
    Takes nested (.seq p q) s cs rest := by
  rw [← List.append_nil cs]
  exact takes_seq hs hp hq

theorem takes_alt_left (hp : Takes nested p s cs rest) : Takes nested (.alt p q) s cs rest := by
  intro offset
  obtain ⟨m, hm, hafter⟩ := hp offset
  exact ⟨m, run_alt_eq_some.mpr (.inl hm), hafter⟩

theorem takes_alt_right (hp : Fails nested p s (cs ++ rest)) (hq : Takes nested q s cs rest) :
    Takes nested (.alt p q) s cs rest := by
  intro offset
  obtain ⟨m, hm, hafter⟩ := hq offset
  exact ⟨m, run_alt_eq_some.mpr (.inr ⟨hp offset, hm⟩), hafter⟩

theorem takes_opt (hp : Takes nested p s cs rest) : Takes nested (.opt p) s cs rest := by
  intro offset
  obtain ⟨m, hm, hafter⟩ := hp offset
  exact ⟨m, run_opt_eq_some.mpr (.inl hm), hafter⟩

theorem takes_opt_nil (hp : Fails nested p s rest) : Takes nested (.opt p) s [] rest :=
  fun offset => ⟨_, run_opt_eq_some.mpr (.inr ⟨hp offset, rfl⟩), rfl⟩

theorem takes_absent (hp : Fails nested p s rest) : Takes nested (.absent p) s [] rest :=
  fun offset => ⟨_, run_absent_eq_some.mpr ⟨hp offset, rfl⟩, rfl⟩

theorem takes_rule {r : Rule} {spacing : Option Spacing} {body : Pattern}
    (h : Takes nested body (spacing.getD s) cs rest) : Takes nested (.rule r spacing body) s cs rest := by
  intro offset
  obtain ⟨m, hm, hafter⟩ := h offset
  exact ⟨_, run_rule_eq_some.mpr ⟨m, hm, rfl⟩, by rwa [named_after]⟩

/-- A loop does not look at the tokens found before it. -/
theorem Loop.after_tokens {step : Cursor → Option Match} {m last : Match} (ts : List Token)
    (h : Loop s step m last) :
    Loop s step ⟨ts ++ m.tokens, m.after⟩ ⟨ts ++ last.tokens, last.after⟩ := by
  induction h with
  | stop hstop => exact .stop hstop
  | more hround _ ih => exact .more hround (by rwa [List.append_assoc])

theorem takes_many_nil (hrest : Fails nested p s rest) : Takes nested (.many p) s [] rest := by
  intro offset
  rw [List.nil_append, run, hrest offset]
  exact ⟨_, rfl, rfl⟩

/-- One round of a repetition, and then the others. -/
theorem takes_many_cons (hn : nested.Advances) (hp : p.nullable = false) (hs : s ≠ .loose)
    (has : Takes nested p s as (bs ++ rest)) (hbs : Takes nested (.many p) s bs rest) :
    Takes nested (.many p) s (as ++ bs) rest := by
  intro offset
  obtain ⟨m, hm, hafter⟩ := has offset
  obtain ⟨last, hlast, hend⟩ := hbs m.after.offset
  rw [← hafter] at hlast
  have hloop := ((run_many_iff_loop hn hp (Cursor.skip_eq_self hs _)).mp hlast).after_tokens m.tokens
  rw [List.append_nil, ← List.nil_append m.tokens] at hloop
  have hround : p.run nested s (Cursor.skip s ⟨offset, as ++ bs ++ rest⟩) = some m := by
    rwa [Cursor.skip_eq_self hs, List.append_assoc]
  exact ⟨_, (run_many_iff_loop hn hp (Cursor.skip_eq_self hs _)).mpr (.more hround hloop), hend⟩

/-- **A repetition reads single characters up to one that it does not match.** -/
theorem takes_many (hn : nested.Advances) (hp : p.nullable = false) (hs : s ≠ .loose)
    (hcs : ∀ r ∈ cs, ∀ rest, Takes nested p s [r] rest) (hrest : Fails nested p s rest) :
    Takes nested (.many p) s cs rest := by
  induction cs with
  | nil => exact takes_many_nil hrest
  | cons r cs ih =>
    obtain ⟨hr, hcs⟩ := List.forall_mem_cons.mp hcs
    exact takes_many_cons hn hp hs (hr _) (ih hcs)

theorem takes_atLeastOne (hn : nested.Advances) (hp : p.nullable = false) (hs : s ≠ .loose)
    (hne : cs ≠ []) (hcs : ∀ r ∈ cs, ∀ rest, Takes nested p s [r] rest)
    (hrest : Fails nested p s rest) : Takes nested (atLeastOne p) s cs rest := by
  obtain ⟨r, ds, rfl⟩ := List.exists_cons_of_ne_nil hne
  have hmany := takes_many hn hp hs (fun x hx => hcs x (List.mem_cons_of_mem r hx)) hrest
  exact takes_seq hs (hcs r List.mem_cons_self (ds ++ rest)) hmany

/-! ### Failures -/

theorem fails_rule {r : Rule} {spacing : Option Spacing} {body : Pattern}
    (h : Fails nested body (spacing.getD s) cs) : Fails nested (.rule r spacing body) s cs := by
  intro offset
  rw [run, h offset]

theorem fails_seq_first (hp : Fails nested p s cs) : Fails nested (.seq p q) s cs := by
  intro offset
  rw [run, hp offset]

theorem fails_seq (hs : s ≠ .loose) (hp : Takes nested p s as rest) (hq : Fails nested q s rest) :
    Fails nested (.seq p q) s (as ++ rest) := by
  intro offset
  obtain ⟨m, hm, hafter⟩ := hp offset
  have hnone := hq m.after.offset
  rw [← hafter] at hnone
  simp only [run, hm, Cursor.skip_eq_self hs, hnone]

/-- Only a nullable pattern can read nothing. -/
theorem nullable_of_denotes : ∀ (p : Pattern), p.isTight = true → p.Denotes [] → p.nullable = true := by
  intro p
  induction p with
  | literal ls => exact fun _ h => by simp [nullable, ← show [] = ls from h]
  | letters ls => exact fun _ h => by simp [nullable, ← show [] = ls from h]
  | one k =>
    rintro _ ⟨r, -, h⟩
    cases h
  | start | finish | many p | opt p | absent p => exact fun _ _ => rfl
  | seq p q ihp ihq =>
    rintro ht ⟨as, bs, happend, ha, hb⟩
    obtain ⟨htp, htq⟩ := Bool.and_eq_true_iff.mp ht
    obtain ⟨rfl, rfl⟩ := List.append_eq_nil_iff.mp happend.symm
    simp [nullable, ihp htp ha, ihq htq hb]
  | alt p q ihp ihq =>
    intro ht h
    obtain ⟨htp, htq⟩ := Bool.and_eq_true_iff.mp ht
    rcases h with h | h
    · simp [nullable, ihp htp h]
    · simp [nullable, ihq htq h]
  | rule k spacing body ih => exact fun ht h => ih (Bool.and_eq_true_iff.mp ht).2 h
  | nested => exact fun ht => by simp [isTight] at ht

/-- What a pattern can read starts with one of its first characters. -/
theorem first_of_denotes : ∀ (p : Pattern) {cs : List Char} {r : Char}, p.isTight = true →
    p.Denotes (r :: cs) → p.first r = true := by
  intro p
  induction p with
  | literal ls =>
    rintro cs r _ rfl
    simp [first]
  | letters ls =>
    rintro cs r _ rfl
    simp [first]
  | one k =>
    rintro cs r _ ⟨r', hr', h⟩
    obtain ⟨rfl, -⟩ := List.cons.inj h
    exact hr'
  | start | finish | absent p => exact fun _ h => by cases h
  | seq p q ihp ihq =>
    rintro cs r ht ⟨as, bs, happend, ha, hb⟩
    obtain ⟨htp, htq⟩ := Bool.and_eq_true_iff.mp ht
    cases as with
    | nil =>
      obtain rfl : r :: cs = bs := happend
      simp [first, nullable_of_denotes p htp ha, ihq htq hb]
    | cons a as =>
      obtain ⟨rfl, -⟩ := List.cons.inj happend
      simp [first, ihp htp ha]
  | alt p q ihp ihq =>
    intro cs r ht h
    obtain ⟨htp, htq⟩ := Bool.and_eq_true_iff.mp ht
    rcases h with h | h
    · simp [first, ihp htp h]
    · simp [first, ihq htq h]
  | many p ihp =>
    rintro cs r ht ⟨parts, happend, hparts⟩
    -- the first round that reads something reads the first character
    induction parts with
    | nil => cases happend
    | cons part parts ih =>
      cases part with
      | nil => exact ih happend fun x hx => hparts x (List.mem_cons_of_mem _ hx)
      | cons a as =>
        obtain ⟨rfl, -⟩ := List.cons.inj happend
        exact ihp ht (hparts _ List.mem_cons_self)
  | opt p ihp =>
    rintro cs r ht (h | h)
    · cases h
    · exact ihp ht h
  | rule k spacing body ih => exact fun ht h => ih (Bool.and_eq_true_iff.mp ht).2 h
  | nested => exact fun ht => by simp [isTight] at ht

/-- **A pattern does not match where the text ends or goes on with another character**, a blank
included. -/
theorem fails_of_first (hs : s ≠ .loose) (ht : p.isTight = true) (hp : p.nullable = false)
    (hcs : ∀ r ∈ cs.head?, p.first r = false) : Fails nested p s cs := by
  intro offset
  rw [Option.eq_none_iff_forall_ne_some]
  intro m hm
  obtain ⟨ds, ⟨hds, -⟩, hd⟩ := run_denotes p hs ht hm
  cases ds with
  | nil => simp [nullable_of_denotes p ht hd] at hp
  | cons r ds =>
    have hr := hcs r (by simp [show cs = r :: (ds ++ m.after.rest) from hds])
    simp [first_of_denotes p ht hd] at hr

/-! ### Ends of tokens -/

/-- Whether a token ends before the character: a blank or a closing bracket. -/
def closes (c : Char) : Bool := Cursor.isBlank c || c == ')'

/-- The text ends, or goes on with a character that ends a token. -/
def Closes (rest : List Char) : Prop := ∀ c ∈ rest.head?, closes c = true

theorem closes_nil : Closes [] := by simp [Closes]

theorem closes_cons {c : Char} (h : closes c = true) (cs : List Char) : Closes (c :: cs) := by
  rintro _ ⟨⟩
  exact h

/-- What holds of every character that ends a token. -/
theorem Closes.forall {P : Char → Prop} (h : Closes rest)
    (hP : P ' ' ∧ P '\t' ∧ P '\r' ∧ P '\n' ∧ P ')') : ∀ c ∈ rest.head?, P c := by
  intro c hc
  obtain ⟨hspace, htab, hreturn, hnewline, hclose⟩ := hP
  have hcases : Cursor.isBlank c = true ∨ c = ')' := by simpa [closes] using h c hc
  rcases hcases with hblank | rfl
  · rcases Cursor.isBlank_cases hblank with rfl | rfl | rfl | rfl <;> assumption
  · exact hclose

theorem Closes.fails (h : Closes rest) (hs : s ≠ .loose) (ht : p.isTight = true)
    (hp : p.nullable = false)
    (hfirst : p.first ' ' = false ∧ p.first '\t' = false ∧ p.first '\r' = false ∧
      p.first '\n' = false ∧ p.first ')' = false) : Fails nested p s rest :=
  fails_of_first hs ht hp (h.forall (P := fun c => p.first c = false) hfirst)

/-! ### Tokens -/

/-- Before `rest`, the pattern reads the characters `cs` and leaves one token, which is read as `a`
by the function `f`. -/
def Gives {α : Type} (nested : Matcher) (p : Pattern) (f : Token → Option α) (cs rest : List Char)
    (a : α) : Prop :=
  ∀ offset, ∃ m t, p.run nested .loose ⟨offset, cs ++ rest⟩ = some m ∧ m.after.rest = rest ∧
    m.tokens = [t] ∧ f t = some a

variable {α : Type} {f : Token → Option α} {a : α}

theorem gives_alt_left (hp : Gives nested p f cs rest a) : Gives nested (.alt p q) f cs rest a := by
  intro offset
  obtain ⟨m, t, hm, h⟩ := hp offset
  exact ⟨m, t, run_alt_eq_some.mpr (.inl hm), h⟩

theorem gives_alt_right (hp : Fails nested p .loose (cs ++ rest)) (hq : Gives nested q f cs rest a) :
    Gives nested (.alt p q) f cs rest a := by
  intro offset
  obtain ⟨m, t, hm, h⟩ := hq offset
  exact ⟨m, t, run_alt_eq_some.mpr (.inr ⟨hp offset, hm⟩), h⟩

/-- **A rule leaves the token of what it reads.** -/
theorem token_of_takes {r : Rule} {spacing : Option Spacing} {body : Pattern}
    (h : Takes nested (.rule r spacing body) .loose cs rest) (offset : Nat) :
    ∃ m children, (Pattern.rule r spacing body).run nested .loose ⟨offset, cs ++ rest⟩ = some m ∧
      m.after.rest = rest ∧ m.tokens = [.node r offset (String.ofList cs) children] := by
  obtain ⟨m, hm, hafter⟩ := h offset
  obtain ⟨m₁, -, rfl⟩ := run_rule_eq_some.mp hm
  rw [named_after] at hafter
  refine ⟨_, m₁.tokens, hm, by rwa [named_after], ?_⟩
  simp [named, Cursor.textTo, hafter]

theorem gives_rule {r : Rule} {spacing : Option Spacing} {body : Pattern}
    (h : Takes nested (.rule r spacing body) .loose cs rest)
    (hf : ∀ start children, f (.node r start (String.ofList cs) children) = some a) :
    Gives nested (.rule r spacing body) f cs rest a := by
  intro offset
  obtain ⟨m, children, hm, hafter, htok⟩ := token_of_takes h offset
  exact ⟨m, _, hm, hafter, htok, hf offset children⟩

end Pattern

end FlowSelect
