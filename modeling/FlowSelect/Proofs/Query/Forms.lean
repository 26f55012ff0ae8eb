/-
# Values as they are written

Each form of a value has characters of its own, and the grammar finds the form back. Characters that
are written in a form are read in that form before anything that ends a value
(`ValueForm.Written.gives`), and whatever is read as a value is written in the form it is read in
(`Language.value_written`). So a value that is cut out of its text is read as it was read in it.

Key definition: `ValueForm.Written`.
Key theorems: `ValueForm.Written.lexes`, `ValueForm.Written.gives`, `Language.value_written`.
-/
import FlowSelect.Proofs.Query.Spelling
import FlowSelect.Proofs.Query.Words

namespace FlowSelect

/-- The characters are written in a form, and the text is what its token holds: the characters
themselves, or what stands between the quotes. -/
inductive ValueForm.Written : ValueForm → List Char → String → Prop where
  | timestamp {cs : List Char} (h : Timestamp.Written cs) : Written .timestamp cs (String.ofList cs)
  | ip6Subnet {address bits : List Char} (h : Ip6.Written address) (hbits : Digits.isRun bits = true) :
      Written .ip6Subnet (address ++ '/' :: bits) (String.ofList (address ++ '/' :: bits))
  | ip6 {cs : List Char} (h : Ip6.Written cs) : Written .ip6 cs (String.ofList cs)
  | ip4Subnet {address bits : List Char} (h : Ip4.Written address) (hbits : Digits.isRun bits = true) :
      Written .ip4Subnet (address ++ '/' :: bits) (String.ofList (address ++ '/' :: bits))
  | ip4 {cs : List Char} (h : Ip4.Written cs) : Written .ip4 cs (String.ofList cs)
  | number {cs : List Char} (h : Number.Written cs) : Written .number cs (String.ofList cs)
  | quoted {cs : List Char} (h : '"' ∉ cs) : Written .quoted ('"' :: (cs ++ ['"'])) (String.ofList cs)
  | word {cs : List Char} (h : Text.isWord cs = true) (hkeyword : Text.startsWithKeyword cs = false) :
      Written .word cs (String.ofList cs)

namespace ValueForm.Written

open Pattern FlowSelect.Language

variable {nested : Matcher} {form : ValueForm} {cs rest : List Char} {text : String}

/-- **What is written in a form, the form lexes.** -/
theorem lexes (h : form.Written cs text) (hn : nested.Advances) (hrest : Ends rest) :
    Lexes nested form cs rest := by
  cases h with
  | timestamp h => exact lexes_timestamp hn h hrest
  | ip6Subnet h hbits => exact lexes_ip6Subnet hn h hbits hrest
  | ip6 h => exact lexes_ip6 hn h hrest
  | ip4Subnet h hbits => exact lexes_ip4Subnet hn h hbits hrest
  | ip4 h => exact lexes_ip4 hn h hrest
  | number h => exact lexes_number hn h hrest
  | quoted h => exact lexes_quoted hn h rest
  | word h hkeyword => exact lexes_word hn h hkeyword hrest

/-- **What is written in a form is read as a value of the form.** -/
theorem gives (h : form.Written cs text) (hn : nested.Advances) (hrest : Ends rest) :
    Gives nested value ValueForm.ofToken? cs rest (form, text) := by
  have hlexes := h.lexes hn hrest
  cases h with
  | quoted h => exact value_gives_quoted hn h rest
  | _ => exact hlexes.gives (by decide)

/-- No value starts with a blank. -/
theorem solid (h : form.Written cs text) : Solid cs := by
  have hlexes : Lexes matchNested form cs [] := h.lexes matchNested_advances (ends_of_closes closes_nil)
  have hnot : ¬Closes cs := by
    intro hcloses
    have hfails : Fails matchNested form.pattern .loose cs := by
      cases form <;> exact fails_rule (hcloses.fails (by decide) rfl rfl (by decide))
    obtain ⟨m, hm, -⟩ := hlexes.takes 0
    rw [List.append_nil, hfails 0] at hm
    cases hm
  cases cs with
  | nil => exact absurd closes_nil hnot
  | cons r ds =>
    refine ⟨r, ds, rfl, ?_⟩
    rw [← Bool.not_eq_true]
    intro hblank
    exact hnot (closes_cons (by simp [closes, hblank]) ds)

end ValueForm.Written

/-! ### What is read as a value -/

namespace Language

open Pattern

variable {nested : Matcher} {c : Cursor} {m : Match} {cs : List Char}

theorem timestamp_written (h : timestamp.Denotes cs) : Timestamp.Written cs := by
  obtain ⟨year, _, rfl, hyear, _, more, rfl, rfl, hmore⟩ := h
  have hmark : ∀ cs, (oneOf digit [exactly "/", exactly ".", exactly ":"]).Denotes cs →
      ∃ r, Timestamp.isMark r = true ∧ cs = [r] := by
    rintro _ (⟨r, hr, rfl⟩ | rfl | rfl | rfl)
    · exact ⟨r, by simp [Timestamp.isMark, show r.isDigit = true from hr], rfl⟩
    all_goals exact ⟨_, rfl, rfl⟩
  obtain ⟨hne, hmarks⟩ := denotes_run hmark hmore
  exact ⟨year, more, rfl, denotes_digits hyear, hne, hmarks⟩

theorem ip6_written (h : ip6Body.Denotes cs) : Ip6.Written cs := by
  obtain ⟨g, _, rfl, hg, _, more, rfl, rfl, hmore⟩ := h
  have hmark : ∀ cs, (oneOf hexDigit [exactly ":", exactly "."]).Denotes cs →
      ∃ r, Ip6.isMark r = true ∧ cs = [r] := by
    rintro _ (⟨r, hr, rfl⟩ | rfl | rfl)
    · exact ⟨r, by simp [Ip6.isMark, show Digits.isHex r = true from hr], rfl⟩
    all_goals exact ⟨_, rfl, rfl⟩
  exact ⟨g, more, rfl, denotes_many (fun _ (hd : hexDigit.Denotes _) => hd) hg, denotes_many hmark hmore⟩

theorem ip4_written (h : ip4Body.Denotes cs) : Ip4.Written cs := by
  have hgroup : ∀ cs, (Pattern.seq (exactly ".") (atLeastOne digit)).Denotes cs →
      ∃ g, Digits.isRun g = true ∧ cs = '.' :: g := by
    rintro _ ⟨_, g, rfl, rfl, hg⟩
    exact ⟨g, denotes_digits hg, rfl⟩
  have hgroups : ∀ parts : List (List Char), (∀ part ∈ parts, ∃ g, Digits.isRun g = true ∧ part = '.' :: g) →
      ∃ gs : List (List Char), parts.flatten = gs.flatMap ('.' :: ·) ∧ ∀ g ∈ gs, Digits.isRun g = true := by
    intro parts
    induction parts with
    | nil => exact fun _ => ⟨[], rfl, by simp⟩
    | cons part parts ih =>
      intro hparts
      obtain ⟨⟨g, hg, rfl⟩, hmore⟩ := List.forall_mem_cons.mp hparts
      obtain ⟨gs, hflat, hgs⟩ := ih hmore
      exact ⟨g :: gs, by simp [hflat], List.forall_mem_cons.mpr ⟨hg, hgs⟩⟩
  obtain ⟨g, _, rfl, hg, as, _, rfl, ha, parts, rfl, hparts⟩ := h
  obtain ⟨g', hg', rfl⟩ := hgroup as ha
  obtain ⟨gs, hflat, hgs⟩ := hgroups parts fun part hpart => hgroup part (hparts part hpart)
  refine ⟨g, g' :: gs, ?_, by simp, denotes_digits hg, List.forall_mem_cons.mpr ⟨hg', hgs⟩⟩
  rw [hflat]
  simp

theorem unsigned_written (h : (Pattern.alt (inOrder (exactly "0") [anyCase "x", atLeastOne hexDigit])
    (.seq (atLeastOne digit) (.opt (.one .letter)))).Denotes cs) : Number.Unsigned cs := by
  rcases h with ⟨_, _, rfl, rfl, xs, hs, rfl, hx, hhs⟩ | ⟨ds, unit, rfl, hds, hunit⟩
  · obtain ⟨hne, hhex⟩ : hs ≠ [] ∧ ∀ r ∈ hs, Digits.isHex r = true :=
      denotes_run (fun _ (hd : hexDigit.Denotes _) => hd) hhs
    obtain ⟨x, rfl, hlower⟩ : ∃ x, xs = [x] ∧ x.toLower = 'x' :=
      List.map_eq_singleton_iff.mp (show xs.map Char.toLower = ['x'] from hx)
    have hletter : x = 'x' ∨ x = 'X' := by
      rcases Text.toLower_cases x with hsame | ⟨-, -, hmoved⟩
      · exact .inl (hsame.symm.trans hlower)
      · right
        rw [hlower] at hmoved
        have hx : 'x'.toNat = 120 := rfl
        rw [← Char.ofNat_toNat x, show x.toNat = 88 by omega]
    exact .hexadecimal hletter (by simpa [Digits.isHexRun, hne] using hhex)
  · refine .decimal (denotes_digits hds) ?_
    rcases hunit with rfl | ⟨u, hu, rfl⟩
    · exact .inl rfl
    · exact .inr ⟨u, hu, rfl⟩

theorem number_written (h : number.Denotes cs) : Number.Written cs := by
  obtain ⟨_, _, rfl, hsign, ds, _, rfl, hds, rfl⟩ := h
  rw [List.append_nil]
  rcases hsign with rfl | rfl
  · exact .inl (unsigned_written hds)
  · exact .inr ⟨ds, rfl, unsigned_written hds⟩

theorem denotes_wordChar (h : wordChar.Denotes cs) : ∃ r, Text.isWordChar r = true ∧ cs = [r] := by
  rcases h with ⟨r, hr, rfl⟩ | rfl | rfl | rfl
  · exact ⟨r, by simp [Text.isWordChar, Text.isNameChar, show r.isAlphanum = true from hr], rfl⟩
  all_goals exact ⟨_, rfl, rfl⟩

/-- A word goes on as far as it can, so no name goes on after it. -/
theorem endsName_of_word (hn : nested.Advances) (h : word.run nested .loose c = some m) :
    EndsName m.after.rest := by
  obtain ⟨m₁, h₁, rfl⟩ := run_rule_eq_some.mp h
  obtain ⟨k, m₂, -, h₂, rfl⟩ := run_seq_eq_some.mp h₁
  obtain ⟨f, l, -, hl, rfl⟩ := run_seq_eq_some.mp h₂
  have hstop := ((run_many_iff_loop hn rfl rfl).mp hl).last_fails
  rw [named_after]
  rcases hafter : l.after with ⟨offset, cs⟩
  rw [hafter] at hstop
  intro r hr
  obtain ⟨rest, rfl⟩ := List.head?_eq_some_iff.mp hr
  rw [← Bool.not_eq_true]
  intro hname
  have htakes : Takes nested wordChar .tight [r] rest :=
    takes_wordChar (by simp [Text.isWordChar, hname]) rest
  obtain ⟨n, hn', -⟩ := htakes offset
  exact absurd (hstop.symm.trans hn') (by simp)

theorem word_written (hn : nested.Advances) (h : word.run nested .loose c = some m) :
    ∃ cs, c.Reads cs m.after ∧ m.tokens = [.node .word c.offset (String.ofList cs) []] ∧
      Text.isWord cs = true ∧ Text.startsWithKeyword cs = false := by
  obtain ⟨cs, hread, hd, htok⟩ := run_whole (by decide) rfl h
  refine ⟨cs, hread, htok, ?_, ?_⟩
  · obtain ⟨_, _, rfl, rfl, as, bs, rfl, ha, hb⟩ := hd
    have hchars := denotes_many (fun _ => denotes_wordChar) hb
    rcases ha with ⟨r, hr, rfl⟩ | rfl
    · simpa [Text.isWord, show r.isAlpha = true from hr] using hchars
    · simpa [Text.isWord, exactly] using hchars
  · have hends := endsName_of_word hn h
    obtain ⟨m₁, h₁, rfl⟩ := run_rule_eq_some.mp h
    obtain ⟨k, m₂, hk, -, rfl⟩ := run_seq_eq_some.mp h₁
    obtain ⟨hnone, -⟩ := run_absent_eq_some.mp hk
    have hkeyword := keyword_run_eq_none_iff.mp hnone
    rwa [hread.1, Text.startsWithKeyword_append hends] at hkeyword

/-- **What is read as a value is written in its form.** -/
theorem value_written (hn : nested.Advances) (h : value.run nested .loose c = some m) :
    ∃ t form text cs, m.tokens = [t] ∧ ValueForm.ofToken? t = some (form, text) ∧ c.Reads cs m.after ∧
      form.Written cs text := by
  have hwhole : ∀ {r : Rule} {body : Pattern} {form : ValueForm},
      (whole r body).run nested .loose c = some m → body.isTight = true →
      (∀ start text, ValueForm.ofToken? (.node r start text []) = some (form, text)) →
      (∀ cs, body.Denotes cs → form.Written cs (String.ofList cs)) →
      ∃ t form text cs, m.tokens = [t] ∧ ValueForm.ofToken? t = some (form, text) ∧
        c.Reads cs m.after ∧ form.Written cs text := by
    intro r body form h hb hform hwritten
    obtain ⟨cs, hread, hd, htok⟩ := run_whole (by decide) hb h
    exact ⟨_, form, String.ofList cs, cs, htok, hform _ _, hread, hwritten cs hd⟩
  rcases run_alt_eq_some.mp h with h | ⟨-, h⟩
  · exact hwhole h rfl (fun _ _ => rfl) fun cs hd => .timestamp (timestamp_written hd)
  rcases run_alt_eq_some.mp h with h | ⟨-, h⟩
  · refine hwhole h rfl (fun _ _ => rfl) fun cs hd => ?_
    obtain ⟨address, _, rfl, haddress, _, bits, rfl, rfl, hbits⟩ := hd
    exact .ip6Subnet (ip6_written haddress) (denotes_digits hbits)
  rcases run_alt_eq_some.mp h with h | ⟨-, h⟩
  · exact hwhole h rfl (fun _ _ => rfl) fun cs hd => .ip6 (ip6_written hd)
  rcases run_alt_eq_some.mp h with h | ⟨-, h⟩
  · refine hwhole h rfl (fun _ _ => rfl) fun cs hd => ?_
    obtain ⟨address, _, rfl, haddress, _, bits, rfl, rfl, hbits⟩ := hd
    exact .ip4Subnet (ip4_written haddress) (denotes_digits hbits)
  rcases run_alt_eq_some.mp h with h | ⟨-, h⟩
  · exact hwhole h rfl (fun _ _ => rfl) fun cs hd => .ip4 (ip4_written hd)
  rcases run_alt_eq_some.mp h with h | ⟨-, h⟩
  · exact hwhole h rfl (fun _ _ => rfl) fun cs hd => .number (number_written hd)
  rcases run_alt_eq_some.mp h with h | ⟨-, h⟩
  · obtain ⟨t, cs, htok, ht, hquote, hread⟩ := quoted_token hn h
    exact ⟨t, .quoted, String.ofList cs, _, htok, ht, hread, .quoted hquote⟩
  · obtain ⟨cs, hread, htok, hword, hkeyword⟩ := word_written hn h
    exact ⟨_, .word, String.ofList cs, cs, htok, rfl, hread, .word hword hkeyword⟩

end Language

end FlowSelect
