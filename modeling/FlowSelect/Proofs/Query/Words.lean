/-
# Words and keywords

A word is a value in which no other alternative of a value can start or which it cannot finish: it has
no digit or quote at its front and no colon in it. What a word must not do is start with a keyword. The
keyword is taken to end where a name would end, but a word goes on over hyphens and dots as well. So
`nothing` is a word, while `not-set` is none, as it starts with the keyword `not`
(`Text.startsWithKeyword`).

Key definitions: `Text.isWord`, `Text.startsWithKeyword`.
Key theorems: `Language.keyword_run_eq_none_iff`, `Language.lexes_word`, `Language.value_fails_on_keyword`.
-/
import FlowSelect.Proofs.Query.Values

namespace FlowSelect

namespace Text

/-- Whether a character may stand in a word. -/
def isWordChar (c : Char) : Bool := isNameChar c || c == '-' || c == '.'

/-- Whether a text is a word: a letter or an underscore, and characters of words after it. -/
def isWord : List Char → Bool
  | [] => false
  | c :: cs => (c.isAlpha || c == '_') && cs.all isWordChar

/-- The words that join or negate expressions. -/
def keywords : List (List Char) := [['a', 'n', 'd'], ['o', 'r'], ['n', 'o', 't']]

/-- Whether a text starts with a keyword, in any letter case, at which a name would end. -/
def startsWithKeyword (cs : List Char) : Bool :=
  keywords.any fun k =>
    (cs.take k.length).map Char.toLower == k && !(cs.drop k.length).head?.any isNameChar

variable {cs ks rest : List Char}

theorem startsWithKeyword_iff : startsWithKeyword cs = true ↔
    ∃ ks rest, cs = ks ++ rest ∧ ks.map Char.toLower ∈ keywords ∧ Language.EndsName rest := by
  have hends : ∀ {rest : List Char}, rest.head?.any isNameChar = false ↔ Language.EndsName rest := by
    intro rest
    cases rest <;> simp [Language.EndsName]
  simp only [startsWithKeyword, List.any_eq_true, Bool.and_eq_true, beq_iff_eq, Bool.not_eq_true',
    hends]
  constructor
  · rintro ⟨k, hk, hlower, hrest⟩
    exact ⟨cs.take k.length, cs.drop k.length, by simp, by rwa [hlower], hrest⟩
  · rintro ⟨ks, rest, rfl, hks, hrest⟩
    exact ⟨_, hks, by simp, by simpa using hrest⟩

theorem isAlpha_of_mem_keyword (h : ks.map Char.toLower ∈ keywords) : ∀ c ∈ ks, c.isAlpha = true := by
  have hletters : ∀ k ∈ keywords, ∀ c ∈ k, c.isAlpha = true := by simp [keywords]
  intro c hc
  exact isAlpha_of_toLower (hletters _ h _ (List.mem_map_of_mem hc))

/-- What follows a text matters for its keyword only if a name goes on there. -/
theorem startsWithKeyword_append (hrest : Language.EndsName rest) :
    startsWithKeyword (cs ++ rest) = startsWithKeyword cs := by
  rw [Bool.eq_iff_iff, startsWithKeyword_iff, startsWithKeyword_iff]
  constructor
  · rintro ⟨ks, more, happend, hks, hmore⟩
    rcases List.append_eq_append_iff.mp happend with ⟨us, rfl, rfl⟩ | ⟨us, rfl, rfl⟩
    · cases us with
      | nil => exact ⟨cs, [], by simp, by simpa using hks, by simp [Language.EndsName]⟩
      | cons u us =>
        -- the keyword would go on after the text, with a letter
        have hletter := isAlpha_of_mem_keyword hks u (by simp)
        have hname := hrest u (by simp)
        rw [Language.isNameChar_of_isAlpha hletter] at hname
        cases hname
    · refine ⟨ks, us, rfl, hks, ?_⟩
      cases us with
      | nil => simp [Language.EndsName]
      | cons u us => exact hmore
  · rintro ⟨ks, us, rfl, hks, hus⟩
    refine ⟨ks, us ++ rest, by simp, hks, ?_⟩
    cases us with
    | nil => exact hrest
    | cons u us => exact hus

end Text

namespace Language

open Pattern

variable {nested : Matcher} {cs rest : List Char}

/-! ### Keywords -/

theorem takes_letters {ks ls : List Char} {s : Spacing} (h : ks.map Char.toLower = ls) :
    Takes nested (.letters ls) s ks rest := by
  subst h
  induction ks with
  | nil => exact fun offset => ⟨_, rfl, rfl⟩
  | cons k ks ih =>
    intro offset
    obtain ⟨m, hm, hafter⟩ := ih (offset + k.utf8Size)
    exact ⟨m, by simpa [run, takeLetters, Cursor.next] using hm, hafter⟩

/-- Letters are not read where the text starts with another letter. -/
theorem letters_fail {k l : Char} {ks ls : List Char} (h : l ≠ k.toLower) :
    Fails nested (.letters (l :: ls)) .tight (k :: ks ++ rest) :=
  fun offset => by simp [run, takeLetters, h, bare]

/-- A keyword in any letter case is read where a name would end after it. -/
theorem takes_keyword {ks : List Char} (hks : ks.map Char.toLower ∈ Text.keywords) (hrest : EndsName rest) :
    Takes nested keyword .tight ks rest := by
  have hcases : ks.map Char.toLower = ['a', 'n', 'd'] ∨ ks.map Char.toLower = ['o', 'r'] ∨
      ks.map Char.toLower = ['n', 'o', 't'] := by simpa [Text.keywords] using hks
  obtain ⟨k, ks, rfl⟩ : ∃ k ks', ks = k :: ks' := by
    apply List.exists_cons_of_ne_nil
    rintro rfl
    simp [Text.keywords] at hks
  have hword : Takes nested (oneOf (anyCase "and") [anyCase "or", anyCase "not"]) .tight (k :: ks) rest := by
    rcases hcases with hand | hor | hnot
    · exact takes_alt_left (takes_letters hand)
    · have hk : k.toLower = 'o' := (List.cons.inj hor).1
      exact takes_alt_right (letters_fail (l := 'a') (by simp [hk])) (takes_alt_left (takes_letters hor))
    · have hk : k.toLower = 'n' := (List.cons.inj hnot).1
      exact takes_alt_right (letters_fail (l := 'a') (by simp [hk]))
        (takes_alt_right (letters_fail (l := 'o') (by simp [hk])) (takes_letters hnot))
  exact takes_rule (takes_seq_nil (by decide) hword (takes_wordEnd hrest))

/-- **A keyword is read exactly where a text starts with one.** -/
theorem keyword_run_eq_none_iff {c : Cursor} :
    keyword.run nested .tight c = none ↔ Text.startsWithKeyword c.rest = false := by
  obtain ⟨offset, cs⟩ := c
  constructor
  · intro hnone
    rw [← Bool.not_eq_true, Text.startsWithKeyword_iff]
    rintro ⟨ks, rest, rfl, hks, hrest⟩
    have htakes : Takes nested keyword .tight ks rest := takes_keyword hks hrest
    obtain ⟨m, hm, -⟩ := htakes offset
    rw [hnone] at hm
    cases hm
  · intro hkeyword
    rw [Option.eq_none_iff_forall_ne_some]
    intro m hm
    obtain ⟨m₁, h₁, rfl⟩ := run_rule_eq_some.mp hm
    obtain ⟨a, b, ha, hb, rfl⟩ := run_seq_eq_some.mp h₁
    obtain ⟨hend, -⟩ := run_absent_eq_some.mp hb
    obtain ⟨ks, ⟨hread, -⟩, hks⟩ := run_denotes (oneOf (anyCase "and") [anyCase "or", anyCase "not"])
      (by decide) rfl ha
    have hmem : ks.map Char.toLower ∈ Text.keywords := by
      rcases hks with hand | hor | hnot
      · simp [Text.keywords, show ks.map Char.toLower = ['a', 'n', 'd'] from hand]
      · simp [Text.keywords, show ks.map Char.toLower = ['o', 'r'] from hor]
      · simp [Text.keywords, show ks.map Char.toLower = ['n', 'o', 't'] from hnot]
    have hstarts := Text.startsWithKeyword_iff.mpr ⟨ks, _, hread, hmem, endsName_of_nameChar hend⟩
    rw [show Text.startsWithKeyword cs = false from hkeyword] at hstarts
    cases hstarts

/-! ### Words -/

/-- A character of a word. -/
def wordChar : Pattern := oneOf (.one .alphanumeric) [exactly "_", exactly "-", exactly "."]

theorem takes_wordChar {r : Char} (h : Text.isWordChar r = true) (rest : List Char) :
    Takes nested wordChar .tight [r] rest := by
  have hcases : ((r.isAlphanum = true ∨ r = '_') ∨ r = '-') ∨ r = '.' := by
    simpa [Text.isWordChar, Text.isNameChar] using h
  rcases hcases with ((hname | rfl) | rfl) | rfl
  · exact takes_alt_left (takes_one hname)
  all_goals exact fun offset => ⟨_, rfl, rfl⟩

theorem wordChar_fails (h : ∀ c ∈ rest.head?, Text.isWordChar c = false) :
    Fails nested wordChar .tight rest := by
  apply fails_of_first (by decide) rfl rfl
  intro c hc
  have hchar := h c hc
  simp only [Text.isWordChar, Text.isNameChar, Bool.or_eq_false_iff, beq_eq_false_iff_ne] at hchar
  obtain ⟨⟨⟨hname, hline⟩, hhyphen⟩, hdot⟩ := hchar
  simp [wordChar, oneOf, exactly, first, CharClass.contains, hname, Ne.symm hline,
    Ne.symm hhyphen, Ne.symm hdot]

/-- A word starts with a letter or an underscore. -/
theorem head_word (h : Text.isWord cs = true) : ∃ c ds, cs = c :: ds ∧
    (c.isAlpha = true ∨ c = '_') ∧ ∀ r ∈ ds, Text.isWordChar r = true := by
  cases cs with
  | nil => cases h
  | cons c ds => exact ⟨c, ds, rfl, by simpa [Text.isWord] using h⟩

theorem takes_word (hn : nested.Advances) (hcs : Text.isWord cs = true)
    (hkeyword : Text.startsWithKeyword (cs ++ rest) = false)
    (hrest : ∀ c ∈ rest.head?, Text.isWordChar c = false) : Takes nested word .loose cs rest := by
  have hguard : Takes nested (.absent keyword) .tight [] (cs ++ rest) :=
    takes_absent fun offset => keyword_run_eq_none_iff.mpr hkeyword
  obtain ⟨c, ds, rfl, hc, hds⟩ := head_word hcs
  have hfirst : Takes nested (.alt (.one .letter) (exactly "_")) .tight [c] (ds ++ rest) := by
    rcases hc with halpha | rfl
    · exact takes_alt_left (takes_one halpha)
    · exact fun offset => ⟨_, rfl, rfl⟩
  have hmany : Takes nested (.many wordChar) .tight ds rest :=
    takes_many hn rfl (by decide) (fun r hr more => takes_wordChar (hds r hr) more) (wordChar_fails hrest)
  exact takes_rule (takes_seq (by decide) hguard (takes_seq (by decide) hfirst hmany))

/-- Before a word nothing else is read: the other forms start with a digit, a sign or a quote, apart from
an address that goes on to a colon. -/
theorem earlier_fail_on_word (hn : nested.Advances) (hcs : Text.isWord cs = true)
    (hrest : ∀ c ∈ rest.head?, c ≠ ':' ∧ Digits.isHex c = false) :
    ∀ e ∈ ValueForm.word.earlier, Fails nested e.pattern .loose (cs ++ rest) := by
  obtain ⟨c, ds, rfl, hc, hds⟩ := head_word hcs
  have hsix : Fails nested ip6Body .tight (c :: ds ++ rest) := by
    apply ip6Body_fails hn ?_ hrest
    intro hcolon
    rcases List.mem_cons.mp hcolon with rfl | hcolon
    · simp at hc
    · exact absurd (hds _ hcolon) (by decide)
  have hdigit : c.isDigit = false := by
    rcases hc with halpha | rfl
    · exact Text.isDigit_of_isAlpha halpha
    · rfl
  have hsigns : c ≠ '-' ∧ c ≠ '0' ∧ c ≠ '"' := by
    refine ⟨?_, ?_, ?_⟩ <;> rintro rfl <;> simp at hc hdigit
  have hstart : ∀ {r : Rule} {spacing : Option Spacing} {body : Pattern}, spacing.getD .loose ≠ .loose →
      body.isTight = true → body.nullable = false → body.first c = false →
      Fails nested (.rule r spacing body) .loose (c :: ds ++ rest) := by
    intro r spacing body hspacing ht hb hfirst
    apply fails_rule
    apply fails_of_first hspacing ht hb
    rintro _ ⟨⟩
    exact hfirst
  intro e he
  have hcases : e = .timestamp ∨ e = .ip6Subnet ∨ e = .ip6 ∨ e = .ip4Subnet ∨ e = .ip4 ∨ e = .number ∨
      e = .quoted := by simpa [ValueForm.earlier, ValueForm.alternatives] using he
  rcases hcases with rfl | rfl | rfl | rfl | rfl | rfl | rfl
  · exact hstart (by decide) rfl rfl (by
      simp [inOrder, atLeastOne, digit, first, nullable, CharClass.contains, hdigit])
  · exact fails_rule (fails_seq_first hsix)
  · exact fails_rule hsix
  · exact hstart (by decide) rfl rfl (by
      simp [inOrder, ip4Body, atLeastOne, digit, first, nullable, CharClass.contains, hdigit])
  · exact hstart (by decide) rfl rfl (by
      simp [inOrder, ip4Body, atLeastOne, digit, first, nullable, CharClass.contains, hdigit])
  · exact hstart (by decide) rfl rfl (by
      simp [inOrder, exactly, atLeastOne, digit, first, nullable, CharClass.contains, hdigit,
        Ne.symm hsigns.1, Ne.symm hsigns.2.1])
  · exact hstart (by decide) rfl rfl (by
      simp [inOrder, exactly, first, nullable, Ne.symm hsigns.2.2])

/-- **A word without a keyword at its front is read as a word.** -/
theorem lexes_word (hn : nested.Advances) (hcs : Text.isWord cs = true)
    (hkeyword : Text.startsWithKeyword cs = false) (hrest : Ends rest) : Lexes nested .word cs rest := by
  have hcolon : ∀ c ∈ rest.head?, c ≠ ':' ∧ Digits.isHex c = false :=
    hrest.forall (P := fun c => c ≠ ':' ∧ Digits.isHex c = false) (by decide)
  refine ⟨takes_word hn hcs ?_ ?_, earlier_fail_on_word hn hcs hcolon⟩
  · rwa [Text.startsWithKeyword_append hrest.endsName]
  · exact hrest.forall (P := fun c => Text.isWordChar c = false) (by decide)

/-- **A word with a keyword at its front is no value.** -/
theorem value_fails_on_keyword (hn : nested.Advances) (hcs : Text.isWord cs = true)
    (hkeyword : Text.startsWithKeyword cs = true) : Fails nested value .loose cs := by
  obtain ⟨p, ps, hvalue, hps⟩ := value_eq_oneOf
  rw [hvalue]
  apply fails_oneOf
  rw [hps]
  intro x hx
  obtain ⟨e, he, rfl⟩ := List.mem_map.mp hx
  by_cases hword : e = .word
  · subst hword
    obtain ⟨ks, rest, rfl, hks, hrest⟩ := Text.startsWithKeyword_iff.mp hkeyword
    have htakes : Takes nested keyword .tight ks rest := takes_keyword hks hrest
    have hguard : Fails nested (.absent keyword) .tight (ks ++ rest) := by
      intro offset
      obtain ⟨m, hm, -⟩ := htakes offset
      rw [run, hm]
    exact fails_rule (fails_seq_first hguard)
  · have hearlier : e ∈ ValueForm.word.earlier := by
      cases e <;> simp [ValueForm.earlier, ValueForm.alternatives] at hword ⊢
    rw [← List.append_nil cs]
    exact earlier_fail_on_word hn hcs (by simp) e hearlier

end Language

end FlowSelect
