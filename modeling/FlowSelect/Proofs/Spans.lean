/-
# Error spans and characters

The span of a rejection counts bytes, and a reader who cuts it out of the text needs both of its ends to
stand between characters. The span of a faulty comparison is that of its token, so its ends do. A report
on a text that is not in the language points at one byte, at the furthest failure or before the end of the
text. It starts where a character starts, but it ends inside that character if the character is longer
than a byte (`error_spans_split_only_wide_characters`). That does happen (`accented_letter_is_split`).

Key definition: `Text.WideAt`.
Key theorems: `Text.isValid_iff`, `Language.pointAt_isValid`, `error_spans_split_only_wide_characters`.
-/
import FlowSelect.Proofs.Grammar.Failures
import FlowSelect.Proofs.Query.Leftmost

namespace FlowSelect

namespace Text

variable {text : String} {before rest : List Char} {r : Char} {k : Nat}

/-! ### Boundaries of characters -/

theorem utf8ByteSize_eq (text : String) : text.utf8ByteSize = byteLength text.toList := by
  have hlen : ∀ cs : List Char, String.utf8Len cs = byteLength cs := by
    intro cs
    induction cs with
    | nil => rfl
    | cons c cs ih => rw [String.utf8Len_cons, byteLength, ih, Nat.add_comm]
  rw [← hlen, ← String.utf8ByteSize_ofList, String.ofList_toList]

/-- **A boundary is a place between characters.** -/
theorem isValid_iff : String.Pos.Raw.IsValid text ⟨k⟩ ↔
    ∃ before rest, text.toList = before ++ rest ∧ byteLength before = k := by
  rw [String.Pos.Raw.isValid_iff_exists_append]
  constructor
  · rintro ⟨s, t, rfl, hk⟩
    refine ⟨s.toList, t.toList, String.toList_append, ?_⟩
    rw [← utf8ByteSize_eq]
    exact (congrArg String.Pos.Raw.byteIdx hk).symm
  · rintro ⟨before, rest, htext, rfl⟩
    refine ⟨String.ofList before, String.ofList rest, ?_, ?_⟩
    · rw [← String.ofList_append, ← htext, String.ofList_toList]
    · apply String.Pos.Raw.ext
      rw [String.byteIdx_rawEndPos, utf8ByteSize_eq, String.toList_ofList]

theorem isValid_of_append (h : text.toList = before ++ rest) :
    String.Pos.Raw.IsValid text ⟨byteLength before⟩ := by
  rw [isValid_iff]
  exact ⟨before, rest, h, rfl⟩

/-- The characters before a place are known by their bytes. -/
theorem append_inj_of_byteLength : ∀ {as bs cs ds : List Char}, as ++ bs = cs ++ ds →
    byteLength as = byteLength cs → as = cs ∧ bs = ds
  | [], bs, [], ds, h, _ => ⟨rfl, h⟩
  | [], bs, c :: cs, ds, _, hlen => by
    have := c.utf8Size_pos
    simp only [byteLength] at hlen
    omega
  | a :: as, bs, [], ds, _, hlen => by
    have := a.utf8Size_pos
    simp only [byteLength] at hlen
    omega
  | a :: as, bs, c :: cs, ds, h, hlen => by
    obtain ⟨rfl, hmore⟩ := List.cons.inj h
    rw [byteLength, byteLength] at hlen
    obtain ⟨rfl, rfl⟩ := append_inj_of_byteLength hmore (Nat.add_left_cancel hlen)
    exact ⟨rfl, rfl⟩

/-- A character of more than one byte starts at an offset of a text. -/
def WideAt (text : String) (offset : Nat) : Prop :=
  ∃ before r rest, text.toList = before ++ r :: rest ∧ byteLength before = offset ∧ 1 < r.utf8Size

theorem wideAt_iff (h : text.toList = before ++ r :: rest) :
    WideAt text (byteLength before) ↔ 1 < r.utf8Size := by
  constructor
  · rintro ⟨before', r', rest', h', hlen, hr⟩
    obtain ⟨-, hcons⟩ := append_inj_of_byteLength (h'.symm.trans h) hlen
    obtain ⟨rfl, -⟩ := List.cons.inj hcons
    exact hr
  · exact fun hr => ⟨before, r, rest, h, rfl, hr⟩

/-- One byte further on is a boundary exactly if no wide character is split there. -/
theorem isValid_succ_iff (h : text.toList = before ++ r :: rest) :
    String.Pos.Raw.IsValid text ⟨byteLength before + 1⟩ ↔ ¬WideAt text (byteLength before) := by
  rw [wideAt_iff h, isValid_iff]
  have hpos := r.utf8Size_pos
  constructor
  · rintro ⟨before', rest', h', hlen⟩
    rcases List.append_eq_append_iff.mp (h'.symm.trans h) with ⟨more, hbefore, -⟩ | ⟨more, hbefore', hmore⟩
    · rw [hbefore, byteLength_append] at hlen
      omega
    · rw [hbefore', byteLength_append] at hlen
      cases more with
      | nil => simp [byteLength] at hlen
      | cons r' more =>
        obtain ⟨rfl, -⟩ := List.cons.inj hmore
        simp only [byteLength] at hlen
        omega
  · intro hr
    have hone : r.utf8Size = 1 := by omega
    refine ⟨before ++ [r], rest, by simpa using h, ?_⟩
    simp [byteLength_append, byteLength, hone]

end Text

/-! ### Spans -/

theorem Span.Cuts.isValid {span : Span} {text excerpt : String} (h : span.Cuts text excerpt) :
    span.offset + span.length ≤ text.utf8ByteSize ∧ String.Pos.Raw.IsValid text ⟨span.offset⟩ ∧
      String.Pos.Raw.IsValid text ⟨span.offset + span.length⟩ := by
  obtain ⟨before, rest, htext, hoffset, hlength⟩ := h
  rw [hoffset, hlength, ← Text.byteLength_append]
  refine ⟨?_, ?_, Text.isValid_of_append htext⟩
  · rw [Text.utf8ByteSize_eq, htext, Text.byteLength_append (before ++ excerpt.toList)]
    exact Nat.le_add_right _ _
  · rw [List.append_assoc] at htext
    exact Text.isValid_of_append htext

/-- **A report of one byte splits wide characters and nothing else.** -/
theorem Language.pointAt_isValid {text : String} {k : Nat} (h : Text.Opening text k) :
    let span := pointAt (Text.byteLength text.toList) k
    span.offset + span.length ≤ text.utf8ByteSize ∧ String.Pos.Raw.IsValid text ⟨span.offset⟩ ∧
      (String.Pos.Raw.IsValid text ⟨span.offset + span.length⟩ ↔ ¬Text.WideAt text span.offset) := by
  obtain ⟨before, rest, htext, rfl, hnarrow⟩ := h
  rw [Text.utf8ByteSize_eq]
  cases rest with
  | cons r rest =>
    -- the byte at the failure
    have hpos := r.utf8Size_pos
    have hlength : Text.byteLength text.toList =
        Text.byteLength before + (r.utf8Size + Text.byteLength rest) := by
      rw [htext, Text.byteLength_append, Text.byteLength]
    have hpoint : pointAt (Text.byteLength text.toList) (Text.byteLength before) =
        ⟨Text.byteLength before, 1⟩ := by
      rw [pointAt, if_pos (by omega)]
    rw [hpoint]
    exact ⟨by simp only; omega, Text.isValid_of_append htext, Text.isValid_succ_iff htext⟩
  | nil =>
    rw [List.append_nil] at htext
    rw [htext]
    rcases List.eq_nil_or_concat before with rfl | ⟨front, r, rfl⟩
    · -- nothing at all
      have hvalid : String.Pos.Raw.IsValid text ⟨0⟩ := Text.isValid_iff.mpr ⟨[], [], htext, rfl⟩
      refine ⟨le_rfl, hvalid, iff_of_true hvalid ?_⟩
      rintro ⟨before, r, rest, hwide, -⟩
      simp [htext] at hwide
    · -- the last byte, which is a character of its own
      rw [List.concat_eq_append] at htext hnarrow ⊢
      have hone : r.utf8Size = 1 := hnarrow r (by simp)
      have hlength : Text.byteLength (front ++ [r]) = Text.byteLength front + 1 := by
        rw [Text.byteLength_append, Text.byteLength, Text.byteLength, hone]
      have hpoint : pointAt (Text.byteLength (front ++ [r])) (Text.byteLength (front ++ [r])) =
          ⟨Text.byteLength front, 1⟩ := by
        rw [pointAt, if_neg (lt_irrefl _), if_pos (by omega), hlength, Nat.add_sub_cancel]
      rw [hpoint]
      exact ⟨by simp only; omega, Text.isValid_of_append htext, Text.isValid_succ_iff htext⟩

/-! ### Rejections -/

theorem compileText_of_compile_error {c : Configuration} {r : Rejection} (h : Filter.compile c = .error r) :
    compileText c.schema c.filter = .error r := by
  unfold Filter.compile at h
  split at h
  · cases h
  · cases hp : compileText c.schema c.filter with
    | ok o => simp [hp, Except.map] at h
    | error r' => simpa [hp, Except.map] using h

/-- A text that is not in the language is rejected with its report. -/
theorem compileText_unread {s : Schema} {text : String} (h : Language.tokens? Language.program text = none) :
    compileText s text =
      .error (.ofUnreadable (.unreadable (Language.report Language.program text))) := by
  unfold compileText Query.ofText Language.read
  rw [h]

/-- **Error spans split wide characters only.** The span of a rejection lies in the text and starts where a
character starts. It ends where a character ends too, unless the text is not in the language and the
character at which it starts is longer than a byte. -/
theorem error_spans_split_only_wide_characters (c : Configuration) (r : Rejection) (span : Span)
    (h : Filter.compile c = .error r) (hspan : r.span = some span) :
    span.offset + span.length ≤ c.filter.utf8ByteSize ∧
      String.Pos.Raw.IsValid c.filter ⟨span.offset⟩ ∧
      (String.Pos.Raw.IsValid c.filter ⟨span.offset + span.length⟩ ↔
        ¬(Language.tokens? Language.program c.filter = none ∧ Text.WideAt c.filter span.offset)) := by
  have htext := compileText_of_compile_error h
  cases hread : Language.tokens? Language.program c.filter with
  | none =>
    rw [compileText_unread hread] at htext
    obtain rfl := Except.error.inj htext
    obtain rfl := Option.some.inj hspan
    simpa [Language.report] using Language.pointAt_isValid (Language.furthest_opening c.filter)
  | some ts =>
    have hfirst := findSome?_comparisons c.schema hread
    rw [htext] at hfirst
    obtain ⟨t, ht, hrejection⟩ := List.exists_of_findSome?_eq_some hfirst
    obtain ⟨alone, -, rfl⟩ := Token.rejection?_eq_some_iff.mp hrejection
    obtain rfl := Option.some.inj hspan
    obtain ⟨hle, hstart, hstop⟩ := (Language.span_cuts hread (List.mem_filter.mp ht).1).isValid
    exact ⟨hle, hstart, iff_of_true hstop (by simp)⟩

/-- A text that ends too early, after a wide character in quotes: the span is its last byte. -/
theorem error_spans_split_only_wide_characters_unfinished :
    let text := "%host \"é\" and"
    ∃ r, Filter.compile ⟨text, .builtin, none⟩ = .error r ∧ r.span = some ⟨13, 1⟩ ∧
      13 + 1 ≤ text.utf8ByteSize ∧ String.Pos.Raw.IsValid text ⟨13⟩ ∧
      (String.Pos.Raw.IsValid text ⟨13 + 1⟩ ↔
        ¬(Language.tokens? Language.program text = none ∧ Text.WideAt text 13)) := by
  intro text
  have hr : Filter.compile ⟨text, .builtin, none⟩ =
      .error ⟨some ⟨13, 1⟩, .unreadable ⟨⟨13, 1⟩, ⟨1, 14⟩, true, [.not, .comparison]⟩⟩ := by
    decide +kernel
  exact ⟨_, hr, rfl, error_spans_split_only_wide_characters _ _ ⟨13, 1⟩ hr rfl⟩

/-- The report on a single accented letter ends inside it. -/
theorem accented_letter_is_split :
    Filter.compile ⟨"é", .builtin, none⟩ =
        .error ⟨some ⟨0, 1⟩, .unreadable ⟨⟨0, 1⟩, ⟨1, 1⟩, false, [.program]⟩⟩ ∧
      ¬String.Pos.Raw.IsValid "é" ⟨0 + 1⟩ := by
  constructor <;> decide +kernel

end FlowSelect
