/-
# Literals are read by their own rules

The grammar knows a literal by its characters, and the reader of its form judges its value afterwards. The
two agree: whatever the reader of a form accepts, the grammar reads as that form, the whole of it, and
hands to that reader (`accepted_literals_are_lexed`). A mask with a plus sign is the one exception. Its
reader takes it, while the grammar ends the address before the slash, so masks are in digits here.

Key definitions: `Subnet.maskInDigits`, `ValueForm.Accepts`.
Key theorems: `ValueForm.Accepts.written_form`, `ValueForm.Accepts.lexes`, `accepted_literals_are_lexed`.
-/
import FlowSelect.Compile.Clause
import FlowSelect.Proofs.Query.Forms

namespace FlowSelect

/-! ### Accepted literals -/

/-- Whether only digits follow the first slash of a text. -/
def Subnet.maskInDigits (text : String) : Bool :=
  match Text.cutAt? '/' text.toList with
  | some (_, bits) => bits.all Char.isDigit
  | none => false

/-- What is written is a literal of a form: the reader of the form accepts the text it writes, as the
given right side. Only a text in quotes is written with more than its characters. -/
inductive ValueForm.Accepts : ValueForm → (written text : String) → Side → Prop where
  | timestamp {text : String} {n : Int64} (h : Timestamp.parse text = .ok n) :
      Accepts .timestamp text text (.literal (.timestamp n))
  | ip6Subnet {text : String} {s : Subnet 128} (h : Subnet.parseIp6 text = .ok s)
      (hmask : Subnet.maskInDigits text = true) : Accepts .ip6Subnet text text (.network (.ip6 s))
  | ip6 {text : String} {a : Ip6} (h : Ip6.parse text = .ok a) :
      Accepts .ip6 text text (.literal (.ip6 a))
  | ip4Subnet {text : String} {s : Subnet 32} (h : Subnet.parseIp4 text = .ok s)
      (hmask : Subnet.maskInDigits text = true) : Accepts .ip4Subnet text text (.network (.ip4 s))
  | ip4 {text : String} {a : Ip4} (h : Ip4.parse text = .ok a) :
      Accepts .ip4 text text (.literal (.ip4 a))
  | number {text : String} {n : Int64} (h : Number.parse text = .ok n) :
      Accepts .number text text (.literal (.number n))
  | quoted {text : String} (h : '"' ∉ text.toList) :
      Accepts .quoted ("\"" ++ text ++ "\"") text (.literal (.quoted text))

theorem Subnet.isRun_of_mask {most n : Nat} {text : String} {address bits : List Char}
    (hcut : Text.cutAt? '/' text.toList = some (address, bits)) (hwidth : width? most bits = some n)
    (hmask : maskInDigits text = true) : Digits.isRun bits = true := by
  have hne : bits ≠ [] := by
    rintro rfl
    simp [width?, Digits.isRun] at hwidth
  have hdigits : bits.all Char.isDigit = true := by simpa [maskInDigits, hcut] using hmask
  simp [Digits.isRun, hne, hdigits]

namespace ValueForm.Accepts

variable {nested : Matcher} {form : ValueForm} {written text : String} {side : Side} {rest : List Char}

/-- **What the reader of a form accepts is written in the form.** -/
theorem written_form (h : form.Accepts written text side) : form.Written written.toList text := by
  have hself : ∀ {s : String}, form.Written s.toList (String.ofList s.toList) → form.Written s.toList s := by
    intro s hs
    rwa [String.ofList_toList] at hs
  cases h with
  | timestamp h => exact hself (.timestamp (Timestamp.written_of_parse h))
  | ip6Subnet h hmask =>
    obtain ⟨address, bits, hcut, hread, hwidth⟩ := Subnet.cutAt?_of_parseIp6 h
    apply hself
    rw [Text.eq_append_of_cutAt? hcut]
    exact .ip6Subnet (Ip6.written_of_read? hread) (Subnet.isRun_of_mask hcut hwidth hmask)
  | ip6 h => exact hself (.ip6 (Ip6.written_of_parse h))
  | ip4Subnet h hmask =>
    obtain ⟨address, bits, hcut, hread, hwidth⟩ := Subnet.cutAt?_of_parseIp4 h
    apply hself
    rw [Text.eq_append_of_cutAt? hcut]
    exact .ip4Subnet (Ip4.written_of_read hread) (Subnet.isRun_of_mask hcut hwidth hmask)
  | ip4 h => exact hself (.ip4 (Ip4.written_of_parse h))
  | number h => exact hself (.number (Number.written_of_parse h))
  | quoted h =>
    have hquoted := ValueForm.Written.quoted h
    rw [String.ofList_toList] at hquoted
    rw [String.toList_append, String.toList_append, List.append_assoc]
    exact hquoted

/-- **What the reader of a form accepts, the form lexes.** -/
theorem lexes (h : form.Accepts written text side) (hn : nested.Advances) (hrest : Language.Ends rest) :
    Language.Lexes nested form written.toList rest :=
  h.written_form.lexes hn hrest

theorem gives (h : form.Accepts written text side) (hn : nested.Advances) (hrest : Language.Ends rest) :
    Pattern.Gives nested Language.value ValueForm.ofToken? written.toList rest (form, text) :=
  h.written_form.gives hn hrest

theorem side_eq (h : form.Accepts written text side) : form.side text = .ok side := by
  cases h with
  | quoted h => rfl
  | timestamp h => rw [ValueForm.side, h, Except.map]
  | ip6Subnet h _ => rw [ValueForm.side, h, Except.map]
  | ip6 h => rw [ValueForm.side, h, Except.map]
  | ip4Subnet h _ => rw [ValueForm.side, h, Except.map]
  | ip4 h => rw [ValueForm.side, h, Except.map]
  | number h => rw [ValueForm.side, h, Except.map]

end ValueForm.Accepts

/-! ### The token of a literal -/

/-- **The grammar reads accepted literals as what they are.** A literal that its reader accepts, before the
end of the text, white space or a closing bracket, is one value: it leaves one token, of the rule of its
form, which covers all of it and which that same reader then gets. No alternative that is tried before
matches there at all. -/
theorem accepted_literals_are_lexed (form : ValueForm) (written text rest : String) (side : Side)
    (h : form.Accepts written text side)
    (hrest : ∀ c ∈ rest.toList.head?, Text.isBlank c = true ∨ c = ')') :
    (∃ t, Language.tokens? Language.value (written ++ rest) = some [t] ∧
        t.rule = form.rule ∧ t.start = 0 ∧ t.text = written ∧
        ValueForm.ofToken? t = some (form, text) ∧ form.side text = .ok side) ∧
      ∀ e ∈ form.earlier, Language.matchText e.pattern (written ++ rest) = none := by
  have hends : Language.Ends rest.toList := by
    intro c hc
    rw [Language.endsValue, Bool.or_eq_true, beq_iff_eq]
    exact hrest c hc
  have hn := Language.matchExpr_advances (Language.depthOf (written ++ rest))
  have hlexes := h.lexes hn hends
  have hcursor : Cursor.ofText (written ++ rest) = ⟨0, written.toList ++ rest.toList⟩ := by
    rw [Cursor.ofText, String.toList_append]
  refine ⟨?_, ?_⟩
  · obtain ⟨m, children, hm, -, htok⟩ := hlexes.token 0
    obtain ⟨m', t, hm', -, htok', ht⟩ := h.gives hn hends 0
    obtain rfl : m = m' := Option.some.inj (hm.symm.trans hm')
    obtain rfl : t = _ := List.singleton_inj.mp (htok'.symm.trans htok)
    rw [← hcursor] at hm
    refine ⟨_, ?_, rfl, rfl, by rw [Token.text, String.ofList_toList], ht, h.side_eq⟩
    rw [Language.tokens?, Language.matchText, hm, Option.map_some, htok]
  · intro e he
    rw [Language.matchText, hcursor]
    exact hlexes.earlier_fail e he 0

/-- A subnet with a dotted tail and zeros before its width. A time, a number and an IPv4 address could
start with the same characters. -/
theorem accepted_literals_are_lexed_dotted_tail :
    let text := "64::10.20.30.40/0096"
    let s : Subnet 128 := ⟨0x64000000000000000000000a141e28, 96, by decide⟩
    ValueForm.Accepts .ip6Subnet text text (.network (.ip6 s)) ∧
      (∃ t, Language.tokens? Language.value (text ++ " or") = some [t] ∧ t.rule = .ip6Subnet ∧
        t.text = text) ∧
      Language.matchText Language.timestamp (text ++ " or") = none := by
  intro text s
  have haccepts : ValueForm.Accepts .ip6Subnet text text (.network (.ip6 s)) :=
    .ip6Subnet (by decide) (by decide)
  have hspace : ∀ c ∈ " or".toList.head?, Text.isBlank c = true ∨ c = ')' := by
    rintro _ ⟨⟩
    exact .inl (by decide)
  obtain ⟨⟨t, htokens, hrule, -, htext, -⟩, hearlier⟩ :=
    accepted_literals_are_lexed .ip6Subnet text text " or" _ haccepts hspace
  exact ⟨haccepts, ⟨t, htokens, hrule, htext⟩, hearlier .timestamp (by decide)⟩

end FlowSelect
