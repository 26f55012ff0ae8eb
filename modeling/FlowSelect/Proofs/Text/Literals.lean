/-
# Literals as they are written

What the characters of a literal look like once its reader has accepted it. The readers judge values:
the days of a month, the range of an octet, the number of groups. The grammar only looks at
characters, so this is what the two have in common: digits before the first slash of a time, no dot
before the first colon of an IPv6 address, groups of digits between the dots of an IPv4 address, a sign,
digits and a unit in a number.

Key definitions: `Timestamp.Written`, `Ip6.Written`, `Ip4.Written`, `Number.Written`.
Key theorems: `Timestamp.written_of_parse`, `Ip6.written_of_read?`, `Ip4.written_of_read`,
`Number.written_of_parse`.
-/
import FlowSelect.Proofs.Net.Prefix
import FlowSelect.Proofs.Text.Numerals
import FlowSelect.Time.Timestamp

namespace FlowSelect

/-! ### Groups between separators -/

/-- A text is its groups with the separator between them. -/
theorem Text.exists_splitAt (separator : Char) : ∀ cs : List Char,
    ∃ g gs, splitAt separator cs = g :: gs ∧ cs = g ++ gs.flatMap (separator :: ·)
  | [] => ⟨[], [], rfl, rfl⟩
  | c :: cs => by
    obtain ⟨g, gs, hsplit, hcs⟩ := exists_splitAt separator cs
    rw [splitAt, hsplit]
    by_cases hc : c = separator
    · refine ⟨[], g :: gs, if_pos hc, ?_⟩
      rw [hc, List.nil_append, List.flatMap_cons, List.cons_append, ← hcs]
    · refine ⟨c :: g, gs, if_neg hc, ?_⟩
      rw [List.cons_append, ← hcs]

theorem Digits.isHex_of_isDigit {c : Char} (h : c.isDigit = true) : isHex c = true := by
  simp [isHex, hexValue?, h]

theorem Digits.isAlphanum_of_isHex {c : Char} (h : isHex c = true) : c.isAlphanum = true := by
  by_cases hdigit : c.isDigit = true
  · simp [Char.isAlphanum, hdigit]
  · have hletter : ('a' ≤ c ∧ c ≤ 'f') ∨ ('A' ≤ c ∧ c ≤ 'F') := by
      by_contra hnone
      rw [not_or] at hnone
      simp [isHex, hexValue?, hdigit, hnone.1, hnone.2] at h
    have halpha : c.isAlpha = true := by
      simp only [Char.isAlpha, Char.isUpper, Char.isLower, Bool.or_eq_true, decide_eq_true_eq,
        Bool.and_eq_true]
      rcases hletter with ⟨hleast, hmost⟩ | ⟨hleast, hmost⟩
      · exact .inr ⟨hleast, le_trans hmost (by decide)⟩
      · exact .inl ⟨hleast, le_trans hmost (by decide)⟩
    simp [Char.isAlphanum, halpha]

/-! ### Times -/

namespace Timestamp

/-- A character that may stand after the first slash of a time. -/
def isMark (c : Char) : Bool := c.isDigit || c == '/' || c == '.' || c == ':'

/-- Digits, a slash, and digits and signs after it. -/
def Written (cs : List Char) : Prop :=
  ∃ year more, cs = year ++ '/' :: more ∧ Digits.isRun year = true ∧ more ≠ [] ∧
    ∀ c ∈ more, isMark c = true

attribute [local simp] follows

theorem follows_cons (f c : Char) (form cs : List Char) :
    follows (f :: form) (c :: cs) = ((if f = 'd' then c.isDigit else c == f) && follows form cs) := by
  by_cases hf : f = 'd'
  · rw [hf, if_pos rfl, follows]
  · rw [if_neg hf, follows]
    exact hf

theorem follows_append : ∀ {f g cs : List Char}, follows (f ++ g) cs = true →
    ∃ as bs, cs = as ++ bs ∧ follows f as = true ∧ follows g bs = true
  | [], g, cs, h => ⟨[], cs, rfl, rfl, h⟩
  | x :: f, g, [], h => by simp at h
  | x :: f, g, c :: cs, h => by
    rw [List.cons_append, follows_cons, Bool.and_eq_true] at h
    obtain ⟨as, bs, rfl, has, hbs⟩ := follows_append h.2
    refine ⟨c :: as, bs, rfl, ?_, hbs⟩
    rw [follows_cons, h.1, has, Bool.and_true]

theorem length_of_follows : ∀ {form cs : List Char}, follows form cs = true → cs.length = form.length
  | [], [], _ => rfl
  | [], c :: cs, h => by simp at h
  | f :: form, [], h => by simp at h
  | f :: form, c :: cs, h => by
    rw [follows_cons, Bool.and_eq_true] at h
    rw [List.length_cons, List.length_cons, length_of_follows h.2]

/-- Where a form has a digit stands a digit, and elsewhere the character of the form. -/
theorem mem_of_follows : ∀ {form cs : List Char}, follows form cs = true → ∀ c ∈ cs,
    c.isDigit = true ∨ c ∈ form ∧ c ≠ 'd'
  | [], [], _, c, hc => by cases hc
  | [], a :: cs, h, _, _ => by simp at h
  | f :: form, [], h, _, _ => by simp at h
  | f :: form, a :: cs, h, c, hc => by
    rw [follows_cons, Bool.and_eq_true] at h
    obtain ⟨ha, hcs⟩ := h
    rcases List.mem_cons.mp hc with rfl | hc
    · by_cases hf : f = 'd'
      · rw [if_pos hf] at ha
        exact .inl ha
      · rw [if_neg hf] at ha
        obtain rfl : c = f := by simpa using ha
        exact .inr ⟨List.mem_cons_self, hf⟩
    · exact (mem_of_follows hcs c hc).imp_right fun h => ⟨List.mem_cons_of_mem f h.1, h.2⟩

theorem written_of_follows {cs : List Char} (h : follows form cs = true) : Written cs := by
  have hform : form = "dddd".toList ++ ("/".toList ++ "dd/dd.dd:dd:dd".toList) := rfl
  rw [hform] at h
  obtain ⟨year, tail, rfl, hyear, htail⟩ := follows_append h
  obtain ⟨slash, more, rfl, hslash, hmore⟩ := follows_append htail
  obtain ⟨c, rfl⟩ : ∃ c, slash = [c] := List.length_eq_one_iff.mp (length_of_follows hslash)
  obtain rfl : c = '/' := by simpa using hslash
  refine ⟨year, more, rfl, ?_, ?_, ?_⟩
  · have hlength : year.length = 4 := length_of_follows hyear
    have hne : year ≠ [] := by
      rintro rfl
      cases hlength
    have hdigits : ∀ c ∈ year, c.isDigit = true := by
      intro c hc
      rcases mem_of_follows hyear c hc with hdigit | ⟨hmem, hd⟩
      · exact hdigit
      · exact absurd (by simpa using hmem) hd
    simpa [Digits.isRun, hne] using hdigits
  · rintro rfl
    cases length_of_follows hmore
  · intro c hc
    rcases mem_of_follows hmore c hc with hdigit | ⟨hmem, hd⟩
    · simp [isMark, hdigit]
    · have hsigns : c = '/' ∨ c = '.' ∨ c = ':' := by simpa [hd] using hmem
      rcases hsigns with rfl | rfl | rfl <;> rfl

theorem written_of_parse {text : String} {n : Int64} (h : parse text = .ok n) : Written text.toList := by
  by_cases hfollows : follows form text.toList = true
  · exact written_of_follows hfollows
  · simp [parse, value, hfollows] at h

end Timestamp

/-! ### IPv4 addresses -/

namespace Ip4

/-- Groups of digits with dots between them, two groups or more. -/
def Written (cs : List Char) : Prop :=
  ∃ g gs, cs = g ++ gs.flatMap ('.' :: ·) ∧ gs ≠ [] ∧ Digits.isRun g = true ∧
    ∀ x ∈ gs, Digits.isRun x = true

theorem isRun_of_octets : ∀ {groups : List (List Char)} {os : List Nat}, octets groups = .ok os →
    ∀ g ∈ groups, Digits.isRun g = true
  | [], _, _, _, hg => by cases hg
  | g :: gs, os, h, x, hx => by
    rw [octets] at h
    cases hg : octet g with
    | error reason => simp [hg] at h
    | ok n =>
      cases hgs : octets gs with
      | error reason => simp [hg, hgs] at h
      | ok ns =>
        rcases List.mem_cons.mp hx with rfl | hx
        · by_contra hrun
          simp [octet, hrun] at hg
        · exact isRun_of_octets hgs x hx

theorem written_of_read {cs : List Char} {a : Ip4} (h : read cs = .ok a) : Written cs := by
  obtain ⟨g, gs, hsplit, hcs⟩ := Text.exists_splitAt '.' cs
  rw [read, hsplit] at h
  by_cases hlength : (g :: gs).length = 4
  · rw [if_pos hlength] at h
    cases hoctets : octets (g :: gs) with
    | error reason => simp [hoctets] at h
    | ok os =>
      obtain ⟨hg, hgs⟩ := List.forall_mem_cons.mp (isRun_of_octets hoctets)
      refine ⟨g, gs, hcs, ?_, hg, hgs⟩
      rintro rfl
      cases hlength
  · rw [if_neg hlength] at h
    cases h

theorem written_of_parse {text : String} {a : Ip4} (h : parse text = .ok a) : Written text.toList := by
  cases hread : read text.toList with
  | error reason => simp [parse, parseAs, hread] at h
  | ok b => exact written_of_read hread

end Ip4

/-! ### IPv6 addresses -/

namespace Ip6

/-- A character that may stand after the first colon of an address. -/
def isMark (c : Char) : Bool := Digits.isHex c || c == ':' || c == '.'

/-- Hexadecimal digits, a colon, and digits and signs after it. -/
def Written (cs : List Char) : Prop :=
  ∃ g more, cs = g ++ ':' :: more ∧ (∀ c ∈ g, Digits.isHex c = true) ∧ ∀ c ∈ more, isMark c = true

theorem isHex_of_group? {cs : List Char} {n : Nat} (h : group? cs = some n) :
    ∀ c ∈ cs, Digits.isHex c = true := by
  by_cases hrun : (Digits.isHexRun cs && cs.length ≤ 4) = true
  · have hcs : (cs ≠ [] ∧ ∀ c ∈ cs, Digits.isHex c = true) ∧ cs.length ≤ 4 := by
      simpa [Digits.isHexRun] using hrun
    exact hcs.1.2
  · simp [group?, hrun] at h

theorem isDigit_of_octet? {cs : List Char} {n : Nat} (h : octet? cs = some n) :
    ∀ c ∈ cs, c.isDigit = true := by
  by_cases hrun : Digits.isRun cs = true
  · have hcs : cs ≠ [] ∧ ∀ c ∈ cs, c.isDigit = true := by simpa [Digits.isRun] using hrun
    exact hcs.2
  · simp [octet?, hrun] at h

theorem dotted?_eq_some {cs : List Char} {ns : List Nat} (h : dotted? cs = some ns) :
    ns.length = 2 ∧ ∀ c ∈ cs, isMark c = true := by
  obtain ⟨g, gs, hsplit, hcs⟩ := Text.exists_splitAt '.' cs
  unfold dotted? at h
  split at h
  · next a b c d habcd =>
    obtain ⟨rfl, rfl⟩ := List.cons.inj (hsplit.symm.trans habcd)
    split at h
    · next ha hb hc hd =>
      obtain rfl := Option.some.inj h
      refine ⟨rfl, fun x hx => ?_⟩
      have hmark : x.isDigit = true ∨ x = '.' := by
        have hx : x ∈ g ∨ x = '.' ∨ x ∈ b ∨ x = '.' ∨ x ∈ c ∨ x = '.' ∨ x ∈ d := by
          simpa [hcs] using hx
        rcases hx with hx | hx | hx | hx | hx | hx | hx
        · exact .inl (isDigit_of_octet? ha x hx)
        · exact .inr hx
        · exact .inl (isDigit_of_octet? hb x hx)
        · exact .inr hx
        · exact .inl (isDigit_of_octet? hc x hx)
        · exact .inr hx
        · exact .inl (isDigit_of_octet? hd x hx)
      rcases hmark with hdigit | rfl
      · simp [isMark, Digits.isHex_of_isDigit hdigit]
      · rfl
    · cases h
  · cases h

theorem lastPiece?_eq_some {dottedTail : Bool} {cs : List Char} {ns : List Nat}
    (h : lastPiece? dottedTail cs = some ns) :
    ns.length ≤ 2 ∧ (∀ c ∈ cs, isMark c = true) ∧
      (dottedTail = false → ∀ c ∈ cs, Digits.isHex c = true) := by
  unfold lastPiece? at h
  cases hgroup : group? cs with
  | some n =>
    obtain rfl : [n] = ns := by simpa [hgroup] using h
    have hhex := isHex_of_group? hgroup
    exact ⟨by simp, fun c hc => by simp [isMark, hhex c hc], fun _ => hhex⟩
  | none =>
    cases dottedTail with
    | false => simp [hgroup] at h
    | true =>
      obtain ⟨hlength, hmarks⟩ := dotted?_eq_some (by simpa [hgroup] using h)
      exact ⟨hlength.le, hmarks, by simp⟩

theorem isMark_of_pieces? {dottedTail : Bool} : ∀ {gs : List (List Char)} {ns : List Nat},
    pieces? dottedTail gs = some ns → ∀ g ∈ gs, ∀ c ∈ g, isMark c = true
  | [], _, _, _, hg => by cases hg
  | [g], ns, h, x, hx => by
    obtain rfl : x = g := by simpa using hx
    exact (lastPiece?_eq_some h).2.1
  | g :: g' :: gs, ns, h, x, hx => by
    rw [pieces?] at h
    · cases hg : group? g with
      | none => simp [hg] at h
      | some n =>
        cases hgs : pieces? dottedTail (g' :: gs) with
        | none => simp [hg, hgs] at h
        | some ns' =>
          rcases List.mem_cons.mp hx with rfl | hx
          · exact fun c hc => by simp [isMark, isHex_of_group? hg c hc]
          · exact isMark_of_pieces? hgs x hx
    · simp

theorem isMark_of_groups? {dottedTail : Bool} {cs : List Char} {ns : List Nat}
    (h : groups? dottedTail cs = some ns) : ∀ c ∈ cs, isMark c = true := by
  cases cs with
  | nil => simp
  | cons c cs =>
    obtain ⟨g, gs, hsplit, hcs⟩ := Text.exists_splitAt ':' (c :: cs)
    have hmarks := isMark_of_pieces? (show pieces? dottedTail (g :: gs) = some ns from hsplit ▸ h)
    intro x hx
    rw [hcs, List.mem_append, List.mem_flatMap] at hx
    rcases hx with hx | ⟨g', hg', hx⟩
    · exact hmarks g List.mem_cons_self x hx
    · rcases List.mem_cons.mp hx with rfl | hx
      · rfl
      · exact hmarks g' (List.mem_cons_of_mem g hg') x hx

/-- A piece before a colon has no dotted tail, and neither has any piece before a double colon. -/
theorem isHex_of_pieces? {dottedTail : Bool} {g : List Char} {gs : List (List Char)} {ns : List Nat}
    (h : pieces? dottedTail (g :: gs) = some ns) (hlast : gs ≠ [] ∨ dottedTail = false) :
    ∀ c ∈ g, Digits.isHex c = true := by
  cases gs with
  | nil =>
    have htail : dottedTail = false := by simpa using hlast
    exact (lastPiece?_eq_some h).2.2 htail
  | cons g' gs =>
    rw [pieces?] at h
    · cases hg : group? g with
      | none => simp [hg] at h
      | some n => exact isHex_of_group? hg
    · simp

theorem eq_append_of_cutDouble? {cs left right : List Char} (h : cutDouble? cs = some (left, right)) :
    cs = left ++ ':' :: ':' :: right := by
  fun_induction cutDouble? cs generalizing left with
  | case1 => cases h
  | case2 cs =>
    obtain ⟨rfl, rfl⟩ : [] = left ∧ cs = right := by simpa using h
    rfl
  | case3 c cs hdouble ih =>
    obtain ⟨⟨left', right'⟩, hcut, hx⟩ := Option.map_eq_some_iff.mp h
    obtain ⟨rfl, rfl⟩ : c :: left' = left ∧ right' = right := by simpa using hx
    rw [List.cons_append, ← ih hcut]

theorem written_of_marks {cs g more : List Char} (hcs : cs = g ++ ':' :: more)
    (hg : ∀ c ∈ g, Digits.isHex c = true) (hmarks : ∀ c ∈ cs, isMark c = true) : Written cs := by
  refine ⟨g, more, hcs, hg, fun c hc => hmarks c ?_⟩
  rw [hcs]
  exact List.mem_append_right g (List.mem_cons_of_mem _ hc)

/-- Without a double colon eight groups take more than one piece. -/
theorem written_of_groups? {cs : List Char} {ns : List Nat} (h : groups? true cs = some ns)
    (hlength : ns.length = 8) : Written cs := by
  have hmarks := isMark_of_groups? h
  cases cs with
  | nil =>
    obtain rfl : [] = ns := by simpa [groups?] using h
    cases hlength
  | cons c cs =>
    obtain ⟨g, gs, hsplit, hcs⟩ := Text.exists_splitAt ':' (c :: cs)
    have hpieces : pieces? true (g :: gs) = some ns := hsplit ▸ h
    cases gs with
    | nil =>
      have hle := (lastPiece?_eq_some hpieces).1
      omega
    | cons g' gs =>
      rw [List.flatMap_cons, List.cons_append] at hcs
      exact written_of_marks hcs (isHex_of_pieces? hpieces (by simp)) hmarks

/-- Before a double colon stands nothing, or a piece that a colon ends. -/
theorem written_of_double {left right : List Char} {ls rs : List Nat}
    (hleft : groups? false left = some ls) (hright : groups? true right = some rs) :
    Written (left ++ ':' :: ':' :: right) := by
  have hmarks : ∀ c ∈ left ++ ':' :: ':' :: right, isMark c = true := by
    intro c hc
    have hc : c ∈ left ∨ c = ':' ∨ c ∈ right := by simpa using hc
    rcases hc with hc | rfl | hc
    · exact isMark_of_groups? hleft c hc
    · rfl
    · exact isMark_of_groups? hright c hc
  cases left with
  | nil => exact written_of_marks (g := []) rfl (by simp) hmarks
  | cons a left =>
    obtain ⟨g, gs, hsplit, hcs⟩ := Text.exists_splitAt ':' (a :: left)
    have hpieces : pieces? false (g :: gs) = some ls := hsplit ▸ hleft
    have hhex := isHex_of_pieces? hpieces (.inr rfl)
    cases gs with
    | nil =>
      rw [List.flatMap_nil, List.append_nil] at hcs
      exact written_of_marks (by rw [hcs]) hhex hmarks
    | cons g' gs =>
      have hcolon : a :: left ++ ':' :: ':' :: right =
          g ++ ':' :: (g' ++ gs.flatMap (':' :: ·) ++ ':' :: ':' :: right) := by
        rw [hcs, List.flatMap_cons, List.append_assoc, List.cons_append, List.cons_append]
      exact written_of_marks hcolon hhex hmarks

theorem written_of_read? {cs : List Char} {a : Ip6} (h : read? cs = some a) : Written cs := by
  obtain ⟨ns, height, -⟩ := Option.map_eq_some_iff.mp h
  unfold eight? at height
  split at height
  · cases hgroups : groups? true cs with
    | none => simp [hgroups] at height
    | some ms =>
      by_cases hlength : ms.length = 8
      · exact written_of_groups? hgroups hlength
      · simp [hgroups, hlength] at height
  · next left right hcut =>
    rw [eq_append_of_cutDouble? hcut]
    split at height
    · next ls rs hleft hright => exact written_of_double hleft hright
    · cases height

theorem written_of_parse {text : String} {a : Ip6} (h : parse text = .ok a) : Written text.toList := by
  cases hread : read? text.toList with
  | none => simp [parse, hread] at h
  | some b => exact written_of_read? hread

end Ip6

/-! ### Numbers -/

namespace Number

/-- A number without its sign: hexadecimal digits after `0x`, or digits and perhaps a letter for a
unit. -/
inductive Unsigned : List Char → Prop where
  | hexadecimal {x : Char} {hs : List Char} (hx : x = 'x' ∨ x = 'X') (hhs : Digits.isHexRun hs = true) :
      Unsigned ('0' :: x :: hs)
  | decimal {ds unit : List Char} (hds : Digits.isRun ds = true)
      (hunit : unit = [] ∨ ∃ u, u.isAlpha = true ∧ unit = [u]) : Unsigned (ds ++ unit)

/-- A number with a minus sign or without one. -/
def Written (cs : List Char) : Prop := Unsigned cs ∨ ∃ ds, cs = '-' :: ds ∧ Unsigned ds

/-- A number holds letters, digits and its sign. -/
theorem mem_unsigned {cs : List Char} (h : Unsigned cs) : ∀ c ∈ cs, c.isAlphanum = true := by
  cases h with
  | @hexadecimal x hs hx hhs =>
    have hhex : hs ≠ [] ∧ ∀ c ∈ hs, Digits.isHex c = true := by simpa [Digits.isHexRun] using hhs
    intro c hc
    have hc : c = '0' ∨ c = x ∨ c ∈ hs := by simpa using hc
    rcases hc with rfl | rfl | hc
    · rfl
    · rcases hx with rfl | rfl <;> rfl
    · exact Digits.isAlphanum_of_isHex (hhex.2 c hc)
  | @decimal ds unit hds hunit =>
    have hdigits : ds ≠ [] ∧ ∀ c ∈ ds, c.isDigit = true := by simpa [Digits.isRun] using hds
    intro c hc
    rcases List.mem_append.mp hc with hc | hc
    · simp [Char.isAlphanum, hdigits.2 c hc]
    · rcases hunit with rfl | ⟨u, hu, rfl⟩
      · cases hc
      · rw [List.mem_singleton.mp hc]
        simp [Char.isAlphanum, hu]

theorem not_mem_of_written {cs : List Char} {sign : Char} (h : Written cs)
    (hsign : sign.isAlphanum = false) (hminus : sign ≠ '-') : sign ∉ cs := by
  intro hmem
  rcases h with h | ⟨ds, rfl, h⟩
  · simp [mem_unsigned h sign hmem] at hsign
  · rcases List.mem_cons.mp hmem with rfl | hmem
    · exact hminus rfl
    · simp [mem_unsigned h sign hmem] at hsign

theorem unsigned_of_numeral {x : Numeral} {cs : List Char} (h : x.Unsigned cs) : Unsigned cs := by
  cases h with
  | hexadecimal hx hcs => exact .hexadecimal hx (Numeral.spells_hexadecimal.mp hcs).1
  | decimal hcs => simpa using Unsigned.decimal (Numeral.spells_decimal.mp hcs).1 (.inl rfl)
  | scaled hcs hu =>
    exact .decimal (Numeral.spells_decimal.mp hcs).1 (.inr ⟨_, Numeral.isAlpha_of_mem_units hu, rfl⟩)

theorem written_of_parse {text : String} {n : Int64} (h : parse text = .ok n) : Written text.toList := by
  obtain ⟨x, ⟨ds, hds, hcs⟩, -⟩ := value_eq_ok_iff.mp (parse_eq_ok_iff.mp h)
  rw [hcs]
  split
  · exact .inr ⟨ds, rfl, unsigned_of_numeral hds⟩
  · exact .inl (unsigned_of_numeral hds)

end Number

end FlowSelect
