/-
# Values and what is tried before them

The alternatives of a value overlap: digits start a time, an address of either family and a number, and
the first alternative that matches counts. So a literal is read by its own alternative only if every
earlier one fails on it (`Language.Lexes`). Those that are tried before it all read a run of digits and
then ask for a sign of their own, a slash, a colon or a dot. They fail because the run ends before
another character (`Language.timestamp_fails`, `Language.ip6Body_fails`, `Language.ip4Body_fails`), or
because the literal ends before the slash of a subnet (`Language.masked_fails_of_ends`).

A value ends before the end of the text, white space or a closing bracket (`Language.Ends`).

Key definitions: `ValueForm.alternatives`, `ValueForm.pattern`, `Language.Ends`, `Language.EndsName`,
`Language.Lexes`.
Key theorems: `Language.lexes_timestamp`, `Language.lexes_ip6Subnet`, `Language.lexes_ip6`,
`Language.lexes_ip4Subnet`, `Language.lexes_ip4`, `Language.lexes_number`, `Language.lexes_quoted`.
-/
import FlowSelect.Proofs.Grammar.Takes
import FlowSelect.Proofs.Query.Shape
import FlowSelect.Proofs.Text.Characters
import FlowSelect.Proofs.Text.Literals
import FlowSelect.Text.Blank

namespace FlowSelect

/-! ### The alternatives of a value -/

namespace ValueForm

/-- The forms of a value, in the order in which they are tried. -/
def alternatives : List ValueForm :=
  [.timestamp, .ip6Subnet, .ip6, .ip4Subnet, .ip4, .number, .quoted, .word]

/-- The forms that are tried before a form. -/
def earlier (form : ValueForm) : List ValueForm := alternatives.takeWhile (· != form)

/-- The rule of a form. -/
def rule : ValueForm → Rule
  | .timestamp => .timestamp
  | .ip6Subnet => .ip6Subnet
  | .ip6 => .ip6
  | .ip4Subnet => .ip4Subnet
  | .ip4 => .ip4
  | .number => .number
  | .quoted => .quoted
  | .word => .word

/-- The pattern of a form. -/
def pattern : ValueForm → Pattern
  | .timestamp => Language.timestamp
  | .ip6Subnet => Language.ip6Subnet
  | .ip6 => Language.ip6
  | .ip4Subnet => Language.ip4Subnet
  | .ip4 => Language.ip4
  | .number => Language.number
  | .quoted => Language.quoted
  | .word => Language.word

theorem pattern_eq_rule (form : ValueForm) : ∃ spacing body, form.pattern = .rule form.rule spacing body := by
  cases form <;> exact ⟨_, _, rfl⟩

theorem alternatives_eq (form : ValueForm) : ∃ later, alternatives = form.earlier ++ form :: later := by
  cases form <;> exact ⟨_, rfl⟩

end ValueForm

namespace Pattern

/-- The first pattern that matches counts. -/
theorem run_oneOf {nested : Matcher} {s : Spacing} {c : Cursor} {m : Match} {p : Pattern} :
    ∀ {before after : List Pattern} {q : Pattern} {qs : List Pattern}, q :: qs = before ++ p :: after →
      (∀ x ∈ before, x.run nested s c = none) → p.run nested s c = some m →
      (oneOf q qs).run nested s c = some m
  | [], after, q, qs, hqs, _, hp => by
    obtain ⟨rfl, rfl⟩ := List.cons.inj hqs
    cases qs with
    | nil => exact hp
    | cons q' qs => exact run_alt_eq_some.mpr (.inl hp)
  | x :: before, after, q, qs, hqs, hbefore, hp => by
    obtain ⟨rfl, htail⟩ := List.cons.inj hqs
    obtain ⟨hx, hbefore⟩ := List.forall_mem_cons.mp hbefore
    cases qs with
    | nil => cases before <;> cases htail
    | cons q' qs => exact run_alt_eq_some.mpr (.inr ⟨hx, run_oneOf htail hbefore hp⟩)

theorem fails_oneOf {nested : Matcher} {s : Spacing} {cs : List Char} :
    ∀ {p : Pattern} {ps : List Pattern}, (∀ x ∈ p :: ps, Fails nested x s cs) → Fails nested (oneOf p ps) s cs
  | p, [], h => h p (by simp)
  | p, q :: qs, h => by
    obtain ⟨hp, hqs⟩ := List.forall_mem_cons.mp h
    intro offset
    rw [oneOf, run, hp offset]
    exact fails_oneOf hqs offset

end Pattern

namespace Language

open Pattern

variable {nested : Matcher} {form : ValueForm} {cs ds rest : List Char}

/-- A value is the first of its alternatives that matches. -/
theorem value_eq_oneOf :
    ∃ p ps, value = oneOf p ps ∧ p :: ps = ValueForm.alternatives.map ValueForm.pattern :=
  ⟨_, _, rfl, rfl⟩

/-- Before `rest`, the characters `cs` are read by the alternative of a form, and every alternative
before it fails. -/
structure Lexes (nested : Matcher) (form : ValueForm) (cs rest : List Char) : Prop where
  takes : Takes nested form.pattern .loose cs rest
  earlier_fail : ∀ e ∈ form.earlier, Fails nested e.pattern .loose (cs ++ rest)

theorem Lexes.run_value (h : Lexes nested form cs rest) (offset : Nat) :
    value.run nested .loose ⟨offset, cs ++ rest⟩ = form.pattern.run nested .loose ⟨offset, cs ++ rest⟩ := by
  obtain ⟨later, halternatives⟩ := form.alternatives_eq
  obtain ⟨p, ps, hvalue, hps⟩ := value_eq_oneOf
  obtain ⟨m, hm, -⟩ := h.takes offset
  rw [halternatives, List.map_append, List.map_cons] at hps
  rw [hvalue, hm]
  refine run_oneOf hps ?_ hm
  intro x hx
  obtain ⟨e, he, rfl⟩ := List.mem_map.mp hx
  exact h.earlier_fail e he offset

/-- **What a form lexes is read as a value of the form.** -/
theorem Lexes.token (h : Lexes nested form cs rest) (offset : Nat) :
    ∃ m children, value.run nested .loose ⟨offset, cs ++ rest⟩ = some m ∧ m.after.rest = rest ∧
      m.tokens = [.node form.rule offset (String.ofList cs) children] := by
  obtain ⟨spacing, body, hpattern⟩ := form.pattern_eq_rule
  rw [h.run_value, hpattern]
  exact token_of_takes (hpattern ▸ h.takes) offset

theorem Lexes.gives (h : Lexes nested form cs rest) (hform : form ≠ .quoted) :
    Gives nested value ValueForm.ofToken? cs rest (form, String.ofList cs) := by
  intro offset
  obtain ⟨m, children, hm, hafter, htok⟩ := h.token offset
  refine ⟨m, _, hm, hafter, htok, ?_⟩
  cases form with
  | quoted => exact absurd rfl hform
  | _ => rfl

/-! ### Ends of values -/

/-- Whether a value ends before the character: white space or a closing bracket. -/
def endsValue (c : Char) : Bool := Text.isBlank c || c == ')'

/-- The text ends, or goes on with a character that ends a value. -/
def Ends (rest : List Char) : Prop := ∀ c ∈ rest.head?, endsValue c = true

/-- The code points of the characters that end a value. -/
def enders : List Nat :=
  [0x29, 0x09, 0x0A, 0x0B, 0x0C, 0x0D, 0x20, 0x85, 0xA0, 0x1680, 0x2000, 0x2001, 0x2002, 0x2003, 0x2004,
    0x2005, 0x2006, 0x2007, 0x2008, 0x2009, 0x200A, 0x2028, 0x2029, 0x202F, 0x205F, 0x3000]

theorem mem_enders {c : Char} (h : endsValue c = true) : c.toNat ∈ enders := by
  rcases Bool.or_eq_true_iff.mp h with hblank | hclose
  · simp only [Text.isBlank, Bool.or_eq_true, Bool.and_eq_true, decide_eq_true_eq, beq_iff_eq] at hblank
    simp only [enders, List.mem_cons, List.not_mem_nil, or_false]
    omega
  · rw [beq_iff_eq.mp hclose]
    decide

theorem ends_of_closes (h : Closes rest) : Ends rest :=
  h.forall (P := fun c => endsValue c = true) (by decide)

/-- What holds of every character that ends a value. -/
theorem Ends.forall {P : Char → Prop} (h : Ends rest) (hP : ∀ n ∈ enders, P (Char.ofNat n)) :
    ∀ c ∈ rest.head?, P c := by
  intro c hc
  rw [← Char.ofNat_toNat c]
  exact hP _ (mem_enders (h c hc))

theorem Ends.fails {s : Spacing} {p : Pattern} (h : Ends rest) (hs : s ≠ .loose) (ht : p.isTight = true)
    (hp : p.nullable = false) (hfirst : ∀ n ∈ enders, p.first (Char.ofNat n) = false) :
    Fails nested p s rest :=
  fails_of_first hs ht hp (h.forall (P := fun c => p.first c = false) hfirst)

theorem Ends.breaks (h : Ends rest) : Digits.Breaks rest :=
  h.forall (P := fun c => c.isDigit = false) (by decide)

/-! ### Ends of names -/

/-- The text ends, or goes on with a character that is not one of a name. -/
def EndsName (rest : List Char) : Prop := ∀ c ∈ rest.head?, Text.isNameChar c = false

theorem first_nameChar (r : Char) : nameChar.first r = Text.isNameChar r := by
  have hsign : ('_' == r) = (r == '_') := Bool.beq_comm
  simp [nameChar, exactly, first, CharClass.contains, Text.isNameChar, hsign]

theorem Ends.endsName (h : Ends rest) : EndsName rest :=
  h.forall (P := fun c => Text.isNameChar c = false) (by decide)

/-- A pattern that starts with a character of a name does not match where a name ends. -/
theorem EndsName.fails {s : Spacing} {p : Pattern} (h : EndsName rest) (hs : s ≠ .loose)
    (ht : p.isTight = true) (hp : p.nullable = false)
    (hfirst : ∀ r, p.first r = true → Text.isNameChar r = true) : Fails nested p s rest := by
  apply fails_of_first hs ht hp
  intro c hc
  rw [← Bool.not_eq_true]
  intro hpc
  have hname := h c hc
  rw [hfirst c hpc] at hname
  cases hname

theorem EndsName.breaks (h : EndsName rest) : Digits.Breaks rest := by
  intro c hc
  have hname := h c hc
  simp only [Text.isNameChar, Char.isAlphanum, Bool.or_eq_false_iff] at hname
  exact hname.1.2

theorem isNameChar_of_isHex {r : Char} (h : Digits.isHex r = true) : Text.isNameChar r = true := by
  simp [Text.isNameChar, Digits.isAlphanum_of_isHex h]

theorem isNameChar_of_isAlpha {r : Char} (h : r.isAlpha = true) : Text.isNameChar r = true := by
  simp [Text.isNameChar, Char.isAlphanum, h]

theorem takes_wordEnd (h : EndsName rest) : Takes nested wordEnd .tight [] rest :=
  takes_absent (h.fails (by decide) rfl rfl fun r hr => (first_nameChar r).symm.trans hr)

theorem takes_nameChar {r : Char} (h : Text.isNameChar r = true) : Takes nested nameChar .tight [r] rest := by
  by_cases hr : r.isAlphanum = true
  · exact takes_alt_left (takes_one hr)
  · obtain rfl : r = '_' := by simpa [Text.isNameChar, hr] using h
    exact takes_alt_right (fails_of_first (by decide) rfl rfl (by rintro _ ⟨⟩; rfl)) (takes_literal ['_'])

/-- A name ends where no character of a name is read. -/
theorem endsName_of_nameChar {c : Cursor} (h : nameChar.run nested .tight c = none) : EndsName c.rest := by
  obtain ⟨offset, cs⟩ := c
  intro r hr
  rw [← Bool.not_eq_true]
  intro hname
  obtain ⟨rest, rfl⟩ := List.head?_eq_some_iff.mp hr
  have htakes : Takes nested nameChar .tight [r] rest := takes_nameChar hname
  obtain ⟨m, hm, -⟩ := htakes offset
  rw [List.singleton_append, h] at hm
  cases hm

/-! ### Runs before a sign -/

/-- No sign follows a run of characters of a class, if the text has none and does not go on with one. -/
theorem head_dropWhile_ne {inside : Char → Bool} {sign : Char} (hcs : sign ∉ cs)
    (hrest : ∀ c ∈ rest.head?, c ≠ sign ∧ inside c = false) :
    ∀ c ∈ ((cs ++ rest).dropWhile inside).head?, c ≠ sign := by
  induction cs with
  | nil =>
    cases rest with
    | nil => simp
    | cons r rest =>
      rw [List.nil_append, List.dropWhile_cons_of_neg (by simp [(hrest r rfl).2])]
      exact fun c hc => (hrest c hc).1
  | cons r cs ih =>
    obtain ⟨hr, hcs⟩ : sign ≠ r ∧ sign ∉ cs := by simpa using hcs
    rw [List.cons_append, List.dropWhile_cons]
    split
    · exact ih hcs
    · rintro _ ⟨⟩
      exact Ne.symm hr

theorem one_fails_dropWhile (k : CharClass) (cs : List Char) :
    Fails nested (.one k) .tight (cs.dropWhile k.contains) := by
  refine fails_of_first (by decide) rfl rfl fun c hc => ?_
  have hhead := List.head?_dropWhile_not k.contains cs
  rw [Option.mem_def.mp hc] at hhead
  simpa [first] using hhead

theorem takes_takeWhile (hn : nested.Advances) (k : CharClass) (cs : List Char) :
    Takes nested (.many (.one k)) .tight (cs.takeWhile k.contains) (cs.dropWhile k.contains) :=
  takes_many hn rfl (by decide) (fun _ hc _ => takes_one (List.mem_takeWhile_imp hc))
    (one_fails_dropWhile k cs)

/-- A pattern that starts with a run fails where its next member fails after the run. -/
theorem fails_after_many {q : Pattern} (hn : nested.Advances) (k : CharClass)
    (hq : Fails nested q .tight (cs.dropWhile k.contains)) :
    Fails nested (.seq (.many (.one k)) q) .tight cs := by
  have hfails := fails_seq (by decide) (takes_takeWhile hn k cs) hq
  rwa [List.takeWhile_append_dropWhile] at hfails

theorem fails_after_run {q : Pattern} (hn : nested.Advances) (k : CharClass)
    (hq : Fails nested q .tight (cs.dropWhile k.contains)) :
    Fails nested (.seq (atLeastOne (.one k)) q) .tight cs := by
  cases cs with
  | nil => exact fails_seq_first (fails_of_first (by decide) rfl rfl (by simp))
  | cons c cs =>
    by_cases hc : k.contains c = true
    · rw [List.dropWhile_cons_of_pos hc] at hq
      have hrun : Takes nested (atLeastOne (.one k)) .tight ([c] ++ cs.takeWhile k.contains)
          (cs.dropWhile k.contains) := takes_seq (by decide) (takes_one hc) (takes_takeWhile hn k cs)
      have hfails := fails_seq (by decide) hrun hq
      rwa [List.append_assoc, List.takeWhile_append_dropWhile] at hfails
    · refine fails_seq_first (fails_of_first (by decide) rfl rfl ?_)
      rintro _ ⟨⟩
      simpa [atLeastOne, first, nullable] using hc

theorem literal_fails {sign : Char} (h : ∀ c ∈ cs.head?, c ≠ sign) :
    Fails nested (.literal [sign]) .tight cs :=
  fails_of_first (by decide) rfl rfl fun c hc => by simpa [first] using Ne.symm (h c hc)

/-- A time needs a slash after its first digits. -/
theorem timestamp_fails (hn : nested.Advances) (hcs : '/' ∉ cs)
    (hrest : ∀ c ∈ rest.head?, c ≠ '/' ∧ c.isDigit = false) :
    Fails nested timestamp .loose (cs ++ rest) :=
  fails_rule (fails_after_run hn .digit (fails_seq_first (literal_fails (head_dropWhile_ne hcs hrest))))

/-- An IPv6 address needs a colon after its first digits. -/
theorem ip6Body_fails (hn : nested.Advances) (hcs : ':' ∉ cs)
    (hrest : ∀ c ∈ rest.head?, c ≠ ':' ∧ Digits.isHex c = false) :
    Fails nested ip6Body .tight (cs ++ rest) :=
  fails_after_many hn .hexDigit (fails_seq_first (literal_fails (head_dropWhile_ne hcs hrest)))

/-- An IPv4 address needs a dot after its first digits. -/
theorem ip4Body_fails (hn : nested.Advances) (hcs : '.' ∉ cs)
    (hrest : ∀ c ∈ rest.head?, c ≠ '.' ∧ c.isDigit = false) :
    Fails nested ip4Body .tight (cs ++ rest) :=
  fails_after_run hn .digit
    (fails_seq_first (fails_seq_first (literal_fails (head_dropWhile_ne hcs hrest))))

/-! ### Runs of digits -/

theorem mem_run (h : Digits.isRun cs = true) : cs ≠ [] ∧ ∀ r ∈ cs, r.isDigit = true := by
  simpa [Digits.isRun] using h

theorem takes_digits (hn : nested.Advances) (hcs : Digits.isRun cs = true) (hrest : Digits.Breaks rest) :
    Takes nested (atLeastOne digit) .tight cs rest := by
  obtain ⟨hne, hdigits⟩ := mem_run hcs
  exact takes_atLeastOne hn rfl (by decide) hne (fun r hr _ => takes_one (hdigits r hr))
    (fails_of_first (by decide) rfl rfl hrest)

/-! ### Times -/

theorem takes_timestamp_mark {c : Char} (h : Timestamp.isMark c = true) (rest : List Char) :
    Takes nested (oneOf digit [exactly "/", exactly ".", exactly ":"]) .tight [c] rest := by
  have hcases : ((c.isDigit = true ∨ c = '/') ∨ c = '.') ∨ c = ':' := by simpa [Timestamp.isMark] using h
  rcases hcases with ((hdigit | rfl) | rfl) | rfl
  · exact takes_alt_left (takes_one hdigit)
  all_goals exact fun offset => ⟨_, rfl, rfl⟩

/-- **A time is read as a time.** Nothing is tried before it. -/
theorem lexes_timestamp (hn : nested.Advances) (h : Timestamp.Written cs) (hrest : Ends rest) :
    Lexes nested .timestamp cs rest := by
  obtain ⟨year, more, rfl, hyear, hne, hmore⟩ := h
  have hslash : Digits.Breaks ('/' :: more ++ rest) := by
    rintro _ ⟨⟩
    rfl
  have hmarks : Takes nested (atLeastOne (oneOf digit [exactly "/", exactly ".", exactly ":"])) .tight
      more rest :=
    takes_atLeastOne hn rfl (by decide) hne (fun c hc rest => takes_timestamp_mark (hmore c hc) rest)
      (hrest.fails (by decide) rfl rfl (by decide))
  refine ⟨takes_rule ?_, by simp [ValueForm.earlier, ValueForm.alternatives]⟩
  exact takes_seq (by decide) (takes_digits hn hyear hslash)
    (takes_seq (by decide) (takes_literal ['/']) hmarks)

/-! ### Masks -/

/-- An address and a mask of digits. -/
theorem takes_masked {body : Pattern} {address bits : List Char} (hn : nested.Advances)
    (hbody : Takes nested body .tight address ('/' :: bits ++ rest)) (hbits : Digits.isRun bits = true)
    (hrest : Ends rest) :
    Takes nested (inOrder body [exactly "/", atLeastOne digit]) .tight (address ++ '/' :: bits) rest :=
  takes_seq (by decide) hbody
    (takes_seq (by decide) (takes_literal ['/']) (takes_digits hn hbits hrest.breaks))

/-- An address that ends has no mask. -/
theorem masked_fails_of_ends {body : Pattern} (hbody : Takes nested body .tight cs rest) (hrest : Ends rest) :
    Fails nested (inOrder body [exactly "/", atLeastOne digit]) .tight (cs ++ rest) :=
  fails_seq (by decide) hbody (hrest.fails (by decide) rfl rfl (by decide))

/-! ### IPv6 addresses -/

theorem takes_ip6_mark {c : Char} (h : Ip6.isMark c = true) (rest : List Char) :
    Takes nested (oneOf hexDigit [exactly ":", exactly "."]) .tight [c] rest := by
  have hcases : (Digits.isHex c = true ∨ c = ':') ∨ c = '.' := by simpa [Ip6.isMark] using h
  rcases hcases with (hhex | rfl) | rfl
  · exact takes_alt_left (takes_one hhex)
  all_goals exact fun offset => ⟨_, rfl, rfl⟩

theorem takes_ip6Body (hn : nested.Advances) (h : Ip6.Written cs)
    (hrest : ∀ c ∈ rest.head?, Ip6.isMark c = false) : Takes nested ip6Body .tight cs rest := by
  obtain ⟨g, more, rfl, hg, hmore⟩ := h
  have hhex : Takes nested (.many hexDigit) .tight g (':' :: more ++ rest) := by
    refine takes_many hn rfl (by decide) (fun c hc _ => takes_one (hg c hc))
      (fails_of_first (by decide) rfl rfl ?_)
    rintro _ ⟨⟩
    rfl
  have hmarks : Takes nested (.many (oneOf hexDigit [exactly ":", exactly "."])) .tight more rest := by
    refine takes_many hn rfl (by decide) (fun c hc rest => takes_ip6_mark (hmore c hc) rest)
      (fails_of_first (by decide) rfl rfl fun c hc => ?_)
    have hmark := hrest c hc
    simp only [Ip6.isMark, Bool.or_eq_false_iff, beq_eq_false_iff_ne] at hmark
    simp [oneOf, hexDigit, exactly, first, CharClass.contains, hmark.1.1, Ne.symm hmark.1.2,
      Ne.symm hmark.2]
  exact takes_seq (by decide) hhex (takes_seq (by decide) (takes_literal [':']) hmarks)

/-- Before the first colon of an address there is no slash. -/
theorem timestamp_fails_on_ip6 (hn : nested.Advances) (h : Ip6.Written cs) (rest : List Char) :
    Fails nested timestamp .loose (cs ++ rest) := by
  obtain ⟨g, more, rfl, hg, -⟩ := h
  rw [List.append_assoc]
  refine timestamp_fails hn (fun hslash => absurd (hg _ hslash) (by decide)) ?_
  rintro _ ⟨⟩
  decide

theorem lexes_ip6Subnet {address bits : List Char} (hn : nested.Advances) (h : Ip6.Written address)
    (hbits : Digits.isRun bits = true) (hrest : Ends rest) :
    Lexes nested .ip6Subnet (address ++ '/' :: bits) rest := by
  have hslash : ∀ c ∈ ('/' :: bits ++ rest).head?, Ip6.isMark c = false := by
    rintro _ ⟨⟩
    rfl
  refine ⟨takes_rule (takes_masked hn (takes_ip6Body hn h hslash) hbits hrest), fun e he => ?_⟩
  obtain rfl : e = .timestamp := by simpa [ValueForm.earlier, ValueForm.alternatives] using he
  rw [List.append_assoc]
  exact timestamp_fails_on_ip6 hn h _

theorem lexes_ip6 (hn : nested.Advances) (h : Ip6.Written cs) (hrest : Ends rest) :
    Lexes nested .ip6 cs rest := by
  have hbody := takes_ip6Body hn h (hrest.forall (P := fun c => Ip6.isMark c = false) (by decide))
  refine ⟨takes_rule hbody, fun e he => ?_⟩
  have hcases : e = .timestamp ∨ e = .ip6Subnet := by
    simpa [ValueForm.earlier, ValueForm.alternatives] using he
  rcases hcases with rfl | rfl
  · exact timestamp_fails_on_ip6 hn h rest
  · exact fails_rule (masked_fails_of_ends hbody hrest)

/-! ### IPv4 addresses -/

theorem takes_group {g : List Char} (hn : nested.Advances) (hg : Digits.isRun g = true)
    (hrest : Digits.Breaks rest) :
    Takes nested (.seq (exactly ".") (atLeastOne digit)) .tight ('.' :: g) rest :=
  takes_seq (by decide) (takes_literal ['.']) (takes_digits hn hg hrest)

/-- Groups of digits, each after a dot. -/
theorem takes_groups (hn : nested.Advances) (hrest : ∀ c ∈ rest.head?, c ≠ '.' ∧ c.isDigit = false) :
    ∀ {gs : List (List Char)}, (∀ g ∈ gs, Digits.isRun g = true) →
      Takes nested (.many (.seq (exactly ".") (atLeastOne digit))) .tight (gs.flatMap ('.' :: ·)) rest ∧
        Digits.Breaks (gs.flatMap ('.' :: ·) ++ rest)
  | [], _ => by
    refine ⟨takes_many_nil (fails_seq_first ?_), fun c hc => (hrest c hc).2⟩
    exact literal_fails fun c hc => (hrest c hc).1
  | g :: gs, h => by
    obtain ⟨hg, hgs⟩ := List.forall_mem_cons.mp h
    obtain ⟨hmore, hbreaks⟩ := takes_groups hn hrest hgs
    refine ⟨takes_many_cons hn rfl (by decide) (takes_group hn hg hbreaks) hmore, ?_⟩
    rintro _ ⟨⟩
    rfl

theorem takes_ip4Body (hn : nested.Advances) (h : Ip4.Written cs)
    (hrest : ∀ c ∈ rest.head?, c ≠ '.' ∧ c.isDigit = false) : Takes nested ip4Body .tight cs rest := by
  obtain ⟨g, gs, rfl, hne, hg, hgs⟩ := h
  obtain ⟨g', gs, rfl⟩ := List.exists_cons_of_ne_nil hne
  obtain ⟨hg', hgs⟩ := List.forall_mem_cons.mp hgs
  obtain ⟨hmore, hbreaks⟩ := takes_groups hn hrest hgs
  have hdot : Digits.Breaks ((g' :: gs).flatMap ('.' :: ·) ++ rest) := by
    rintro _ ⟨⟩
    rfl
  exact takes_seq (by decide) (takes_digits hn hg hdot)
    (takes_seq (by decide) (takes_group hn hg' hbreaks) hmore)

/-- Before the first dot of an address there is no slash and no colon. -/
theorem earlier_fail_on_ip4 (hn : nested.Advances) (h : Ip4.Written cs) (rest : List Char) :
    Fails nested timestamp .loose (cs ++ rest) ∧ Fails nested ip6Body .tight (cs ++ rest) := by
  obtain ⟨g, gs, rfl, hne, hg, -⟩ := h
  obtain ⟨g', gs, rfl⟩ := List.exists_cons_of_ne_nil hne
  have hdigits := (mem_run hg).2
  rw [List.append_assoc]
  refine ⟨timestamp_fails hn (fun hslash => absurd (hdigits _ hslash) (by decide)) ?_,
    ip6Body_fails hn (fun hcolon => absurd (hdigits _ hcolon) (by decide)) ?_⟩
  all_goals
    rintro _ ⟨⟩
    decide

theorem lexes_ip4Subnet {address bits : List Char} (hn : nested.Advances) (h : Ip4.Written address)
    (hbits : Digits.isRun bits = true) (hrest : Ends rest) :
    Lexes nested .ip4Subnet (address ++ '/' :: bits) rest := by
  have hslash : ∀ c ∈ ('/' :: bits ++ rest).head?, c ≠ '.' ∧ c.isDigit = false := by
    rintro _ ⟨⟩
    decide
  refine ⟨takes_rule (takes_masked hn (takes_ip4Body hn h hslash) hbits hrest), fun e he => ?_⟩
  obtain ⟨htime, hsix⟩ := earlier_fail_on_ip4 hn h ('/' :: bits ++ rest)
  have hcases : e = .timestamp ∨ e = .ip6Subnet ∨ e = .ip6 := by
    simpa [ValueForm.earlier, ValueForm.alternatives] using he
  rw [List.append_assoc]
  rcases hcases with rfl | rfl | rfl
  · exact htime
  · exact fails_rule (fails_seq_first hsix)
  · exact fails_rule hsix

theorem lexes_ip4 (hn : nested.Advances) (h : Ip4.Written cs) (hrest : Ends rest) :
    Lexes nested .ip4 cs rest := by
  have hbody := takes_ip4Body hn h
    (hrest.forall (P := fun c => c ≠ '.' ∧ c.isDigit = false) (by decide))
  refine ⟨takes_rule hbody, fun e he => ?_⟩
  obtain ⟨htime, hsix⟩ := earlier_fail_on_ip4 hn h rest
  have hcases : e = .timestamp ∨ e = .ip6Subnet ∨ e = .ip6 ∨ e = .ip4Subnet := by
    simpa [ValueForm.earlier, ValueForm.alternatives] using he
  rcases hcases with rfl | rfl | rfl | rfl
  · exact htime
  · exact fails_rule (fails_seq_first hsix)
  · exact fails_rule hsix
  · exact fails_rule (masked_fails_of_ends hbody hrest)

/-! ### Numbers -/

/-- What starts with an `x`, in either letter case, starts with a letter. -/
theorem isAlpha_of_first_x {r : Char} (h : (anyCase "x").first r = true) : r.isAlpha = true := by
  have hlower : 'x' = r.toLower := by simpa [anyCase, first] using h
  exact Text.isAlpha_of_toLower (hlower ▸ rfl)

theorem hexDigits_fail (hrest : EndsName rest) : Fails nested (atLeastOne hexDigit) .tight rest := by
  apply hrest.fails (by decide) rfl rfl
  intro r hr
  have hhex : hexDigit.first r = true := by simpa [atLeastOne, hexDigit, first, nullable] using hr
  exact isNameChar_of_isHex hhex

/-- Digits and a letter are not a hexadecimal number: no `x` follows their first zero, or no digit
follows the `x`. -/
theorem hexadecimal_fails {unit : List Char} (hds : Digits.isRun ds = true)
    (hunit : unit = [] ∨ ∃ u, u.isAlpha = true ∧ unit = [u]) (hrest : EndsName rest) :
    Fails nested (inOrder (exactly "0") [anyCase "x", atLeastOne hexDigit]) .tight
      (ds ++ (unit ++ rest)) := by
  obtain ⟨hne, hdigits⟩ := mem_run hds
  obtain ⟨d, ds, rfl⟩ := List.exists_cons_of_ne_nil hne
  by_cases hd : '0' = d
  · subst hd
    have hx : Fails nested (.seq (anyCase "x") (atLeastOne hexDigit)) .tight (ds ++ (unit ++ rest)) := by
      cases ds with
      | cons d ds =>
        apply fails_seq_first
        apply fails_of_first (by decide) rfl rfl
        rintro _ ⟨⟩
        rw [← Bool.not_eq_true]
        intro hfirst
        have hdigit := hdigits d (by simp)
        rw [Text.isDigit_of_isAlpha (isAlpha_of_first_x hfirst)] at hdigit
        cases hdigit
      | nil =>
        rcases hunit with rfl | ⟨u, -, rfl⟩
        · exact fails_seq_first (hrest.fails (by decide) rfl rfl fun r hr =>
            isNameChar_of_isAlpha (isAlpha_of_first_x hr))
        · by_cases hu : 'x' = u.toLower
          · have hletter : Takes nested (anyCase "x") .tight [u] rest := fun offset =>
              ⟨⟨[], Cursor.next u offset rest⟩, by simp [anyCase, run, takeLetters, bare, ← hu], rfl⟩
            exact (fails_seq (by decide) hletter (hexDigits_fail hrest) :)
          · apply fails_seq_first
            apply fails_of_first (by decide) rfl rfl
            rintro _ ⟨⟩
            simpa [anyCase, first] using hu
    exact (fails_seq (by decide) (takes_literal ['0']) hx :)
  · refine fails_of_first (by decide) rfl rfl ?_
    rintro _ ⟨⟩
    simpa [inOrder, exactly, first, nullable] using hd

theorem takes_unsigned (hn : nested.Advances) (hcs : Number.Unsigned cs) (hrest : EndsName rest) :
    Takes nested (.alt (inOrder (exactly "0") [anyCase "x", atLeastOne hexDigit])
      (.seq (atLeastOne digit) (.opt (.one .letter)))) .tight cs rest := by
  cases hcs with
  | @hexadecimal x hs hx hhs =>
    obtain ⟨hne, hhex⟩ : hs ≠ [] ∧ ∀ c ∈ hs, Digits.isHex c = true := by
      simpa [Digits.isHexRun] using hhs
    have hletter : Takes nested (anyCase "x") .tight [x] (hs ++ rest) := by
      rcases hx with rfl | rfl <;> exact fun offset => ⟨_, rfl, rfl⟩
    have hdigits : Takes nested (atLeastOne hexDigit) .tight hs rest :=
      takes_atLeastOne hn rfl (by decide) hne (fun c hc _ => takes_one (hhex c hc))
        (hrest.fails (by decide) rfl rfl fun r hr => isNameChar_of_isHex hr)
    exact takes_alt_left (takes_seq (by decide) (takes_literal ['0'])
      (takes_seq (by decide) hletter hdigits))
  | @decimal ds unit hds hunit =>
    have hoption : Takes nested (.opt (.one .letter)) .tight unit rest ∧ Digits.Breaks (unit ++ rest) := by
      rcases hunit with rfl | ⟨u, hu, rfl⟩
      · exact ⟨takes_opt_nil (hrest.fails (by decide) rfl rfl fun r hr => isNameChar_of_isAlpha hr),
          hrest.breaks⟩
      · refine ⟨takes_opt (takes_one hu), ?_⟩
        rintro _ ⟨⟩
        exact Text.isDigit_of_isAlpha hu
    have hhex : Fails nested (inOrder (exactly "0") [anyCase "x", atLeastOne hexDigit]) .tight
        (ds ++ unit ++ rest) := by
      rw [List.append_assoc]
      exact hexadecimal_fails hds hunit hrest
    exact takes_alt_right hhex (takes_seq (by decide) (takes_digits hn hds hoption.2) hoption.1)

theorem head_unsigned (h : Number.Unsigned cs) : ∀ c ∈ (cs ++ rest).head?, c ≠ '-' := by
  cases h with
  | hexadecimal hx hhs =>
    rintro _ ⟨⟩
    decide
  | @decimal ds unit hds hunit =>
    obtain ⟨hne, hdigits⟩ := mem_run hds
    obtain ⟨d, ds, rfl⟩ := List.exists_cons_of_ne_nil hne
    rintro _ ⟨⟩ rfl
    exact absurd (hdigits '-' List.mem_cons_self) (by decide)

/-- **A number is read as a number.** -/
theorem takes_number (hn : nested.Advances) (h : Number.Written cs) (hrest : EndsName rest) :
    Takes nested number .loose cs rest := by
  have hend : Takes nested wordEnd .tight [] rest := takes_wordEnd hrest
  rcases h with h | ⟨ds, rfl, h⟩
  · have hsign : Takes nested (.opt (exactly "-")) .tight [] (cs ++ rest) :=
      takes_opt_nil (literal_fails (head_unsigned h))
    exact takes_rule (takes_seq (by decide) hsign
      (takes_seq_nil (by decide) (takes_unsigned hn h hrest) hend))
  · have hsign : Takes nested (.opt (exactly "-")) .tight ['-'] (ds ++ rest) :=
      takes_opt (takes_literal ['-'])
    exact takes_rule (takes_seq (by decide) hsign
      (takes_seq_nil (by decide) (takes_unsigned hn h hrest) hend))

/-- No sign of a time or of an address stands in a number. -/
theorem lexes_number (hn : nested.Advances) (h : Number.Written cs) (hrest : Ends rest) :
    Lexes nested .number cs rest := by
  refine ⟨takes_number hn h hrest.endsName, fun e he => ?_⟩
  have htime : Fails nested timestamp .loose (cs ++ rest) :=
    timestamp_fails hn (Number.not_mem_of_written h (by decide) (by decide))
      (hrest.forall (P := fun c => c ≠ '/' ∧ c.isDigit = false) (by decide))
  have hsix : Fails nested ip6Body .tight (cs ++ rest) :=
    ip6Body_fails hn (Number.not_mem_of_written h (by decide) (by decide))
      (hrest.forall (P := fun c => c ≠ ':' ∧ Digits.isHex c = false) (by decide))
  have hfour : Fails nested ip4Body .tight (cs ++ rest) :=
    ip4Body_fails hn (Number.not_mem_of_written h (by decide) (by decide))
      (hrest.forall (P := fun c => c ≠ '.' ∧ c.isDigit = false) (by decide))
  have hcases : e = .timestamp ∨ e = .ip6Subnet ∨ e = .ip6 ∨ e = .ip4Subnet ∨ e = .ip4 := by
    simpa [ValueForm.earlier, ValueForm.alternatives] using he
  rcases hcases with rfl | rfl | rfl | rfl | rfl
  · exact htime
  · exact fails_rule (fails_seq_first hsix)
  · exact fails_rule hsix
  · exact fails_rule (fails_seq_first hfour)
  · exact fails_rule hfour

/-! ### Quoted texts -/

/-- A quoted text is read up to its quote, whatever follows; nothing else starts with a quote. -/
theorem lexes_quoted (hn : nested.Advances) (hcs : '"' ∉ cs) (rest : List Char) :
    Lexes nested .quoted ('"' :: (cs ++ ['"'])) rest := by
  have hchars : Takes nested (.many quotedChar) .tight cs ('"' :: rest) := by
    refine takes_many hn rfl (by decide) (fun r hr more offset => ?_) fun offset => quotedChar_at_quote rfl
    have hne : r ≠ '"' := fun h => hcs (h ▸ hr)
    exact ⟨_, run_quotedChar_iff.mpr ⟨r, more, rfl, hne, rfl⟩, rfl⟩
  have hbody : Takes nested (inOrder (exactly "\"") [quotedText, exactly "\""]) .joined
      (['"'] ++ (cs ++ ['"'])) rest :=
    takes_seq (by decide) (takes_literal ['"']) (takes_seq (by decide) (takes_rule hchars)
      (takes_literal ['"']))
  have hquote : ∀ {r : Rule} {body : Pattern}, body.isTight = true → body.nullable = false →
      body.first '"' = false → Fails nested (whole r body) .loose ('"' :: (cs ++ ['"']) ++ rest) := by
    intro r body ht hb hfirst
    refine fails_rule (fails_of_first (by decide) ht hb ?_)
    rintro _ ⟨⟩
    exact hfirst
  refine ⟨takes_rule hbody, fun e he => ?_⟩
  have hcases : e = .timestamp ∨ e = .ip6Subnet ∨ e = .ip6 ∨ e = .ip4Subnet ∨ e = .ip4 ∨ e = .number := by
    simpa [ValueForm.earlier, ValueForm.alternatives] using he
  rcases hcases with rfl | rfl | rfl | rfl | rfl | rfl <;> exact hquote rfl rfl rfl

/-- **A quoted text is read as a value**, and its token writes what stands between the quotes. -/
theorem value_gives_quoted (hn : nested.Advances) (hcs : '"' ∉ cs) (rest : List Char) :
    Gives nested value ValueForm.ofToken? ('"' :: (cs ++ ['"'])) rest (.quoted, String.ofList cs) := by
  intro offset
  have hlexes := lexes_quoted hn hcs rest
  obtain ⟨m, hm, hafter⟩ := hlexes.takes offset
  obtain ⟨t, ds, htok, ht, -, ⟨hds, -⟩⟩ := quoted_token hn hm
  obtain rfl : cs = ds := by
    rw [hafter] at hds
    simpa using List.append_cancel_right hds
  exact ⟨m, t, (hlexes.run_value offset).trans hm, hafter, htok, ht⟩

end Language

end FlowSelect
