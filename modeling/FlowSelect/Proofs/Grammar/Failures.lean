/-
# Where failures stand

A report points at the furthest place where a rule was tried and failed. A rule is tried at the start of
the text, or after something that another rule or a sign has read, with blanks between them. All of that
ends with a character of one byte, since other characters stand between quotes only. So the byte before
the place of a failure is a character of its own (`Language.furthest_opening`).

Key definitions: `Text.Narrow`, `Text.Opening`, `Pattern.endsNarrow`, `Pattern.opens`.
Key theorems: `Pattern.run_narrow`, `Pattern.trace_opening`, `Language.furthest_opening`.
-/
import FlowSelect.Grammar.Furthest
import FlowSelect.Proofs.Grammar.Depth
import FlowSelect.Proofs.Grammar.Takes
import FlowSelect.Proofs.Text.Characters
import FlowSelect.Proofs.Text.Literals

namespace FlowSelect

/-! ### Narrow ends -/

namespace Text

/-- There is nothing, or a character of one byte at the end. -/
def Narrow (cs : List Char) : Prop := ∀ r ∈ cs.getLast?, r.utf8Size = 1

theorem narrow_nil : Narrow [] := by simp [Narrow]

theorem narrow_of_forall {cs : List Char} (h : ∀ r ∈ cs, r.utf8Size = 1) : Narrow cs :=
  fun r hr => h r (List.mem_of_getLast? hr)

/-- What comes last counts, if there is something. -/
theorem narrow_append {cs ds : List Char} (hcs : Narrow cs ∨ ds ≠ []) (hds : Narrow ds) :
    Narrow (cs ++ ds) := by
  rcases List.eq_nil_or_concat ds with rfl | ⟨es, r, rfl⟩
  · rcases hcs with hcs | hne
    · rwa [List.append_nil]
    · exact absurd rfl hne
  · simpa [Narrow, ← List.append_assoc] using hds

theorem narrow_blanks {bs : List Char} (h : ∀ b ∈ bs, Cursor.isBlank b = true) : Narrow bs := by
  refine narrow_of_forall fun b hb => ?_
  rcases Cursor.isBlank_cases (h b hb) with rfl | rfl | rfl | rfl <;> rfl

/-- A place of a text before which there is nothing or a character of one byte. -/
def Opening (text : String) (offset : Nat) : Prop :=
  ∃ before rest, text.toList = before ++ rest ∧ byteLength before = offset ∧ Narrow before

end Text

theorem CharClass.utf8Size_of_contains {k : CharClass} {r : Char} (hk : k ≠ .any)
    (h : k.contains r = true) : r.utf8Size = 1 := by
  have halnum : r.isAlphanum = true := by
    cases k with
    | any => exact absurd rfl hk
    | digit => simp [Char.isAlphanum, show r.isDigit = true from h]
    | hexDigit => exact Digits.isAlphanum_of_isHex h
    | letter => simp [Char.isAlphanum, show r.isAlpha = true from h]
    | alphanumeric => exact h
  apply Text.utf8Size_eq_one
  have hcases : (65 ≤ r.toNat ∧ r.toNat ≤ 90 ∨ 97 ≤ r.toNat ∧ r.toNat ≤ 122) ∨
      48 ≤ r.toNat ∧ r.toNat ≤ 57 := by
    rw [Char.isAlphanum, Bool.or_eq_true] at halnum
    rcases halnum with h | h
    · exact .inl (Text.isAlpha_iff.mp h)
    · exact .inr (by simpa [Char.isDigit, UInt32.le_iff_toNat_le] using h)
  omega

/-- A letter of one byte has one byte in either case. -/
theorem Text.utf8Size_of_toLower {r : Char} (h : r.toLower.utf8Size = 1) : r.utf8Size = 1 := by
  rcases toLower_cases r with hsame | ⟨-, hle, -⟩
  · rwa [hsame] at h
  · exact utf8Size_eq_one (by omega)

namespace Pattern

/-- Whether everything that a pattern reads has a narrow end. -/
def endsNarrow : Pattern → Bool
  | .literal cs => cs.all fun c => c.utf8Size == 1
  | .letters cs => cs.all fun c => c.utf8Size == 1
  | .one k => k != .any
  | .seq p q => q.endsNarrow && (p.endsNarrow || !q.nullable)
  | .alt p q => p.endsNarrow && q.endsNarrow
  | .many p => p.endsNarrow
  | .opt p => p.endsNarrow
  | .rule _ _ body => body.endsNarrow
  | .start | .finish | .absent _ => true
  | .nested => false

variable {nested : Matcher}

/-- **What a pattern with narrow ends reads has a narrow end.** -/
theorem run_narrow (hn : nested.Advances) : ∀ (p : Pattern) {s : Spacing} {c : Cursor} {m : Match},
    p.endsNarrow = true → p.run nested s c = some m → ∃ cs, c.Reads cs m.after ∧ Text.Narrow cs := by
  intro p
  induction p with
  | literal ls =>
    intro s c m hp h
    obtain ⟨d, hd, rfl⟩ := bare_eq_some.mp h
    exact ⟨ls, takeLiteral_reads ls hd, Text.narrow_of_forall (by simpa [endsNarrow] using hp)⟩
  | letters ls =>
    intro s c m hp h
    obtain ⟨d, hd, rfl⟩ := bare_eq_some.mp h
    obtain ⟨cs, hc, rfl⟩ := takeLetters_reads ls hd
    have hlower : ∀ r ∈ cs, r.toLower.utf8Size = 1 := by simpa [endsNarrow] using hp
    exact ⟨cs, hc, Text.narrow_of_forall fun r hr => Text.utf8Size_of_toLower (hlower r hr)⟩
  | one k =>
    intro s c m hp h
    obtain ⟨d, hd, rfl⟩ := bare_eq_some.mp h
    obtain ⟨r, hr, hc⟩ := takeOne_reads hd
    have hk : k ≠ .any := by simpa [endsNarrow] using hp
    exact ⟨[r], hc, Text.narrow_of_forall (by simpa using CharClass.utf8Size_of_contains hk hr)⟩
  | start =>
    intro s c m _ h
    obtain ⟨-, rfl⟩ := run_start_eq_some.mp h
    exact ⟨[], Cursor.reads_nil c, Text.narrow_nil⟩
  | finish =>
    intro s c m _ h
    obtain ⟨-, rfl⟩ := run_finish_eq_some.mp h
    exact ⟨[], Cursor.reads_nil c, Text.narrow_nil⟩
  | seq p q ihp ihq =>
    intro s c m hp h
    obtain ⟨hq, hp⟩ := Bool.and_eq_true_iff.mp hp
    obtain ⟨m₁, m₂, h₁, h₂, rfl⟩ := run_seq_eq_some.mp h
    obtain ⟨bs, hbs, hb⟩ := Cursor.skip_reads s m₁.after
    obtain ⟨ds, hd, hds⟩ := ihq hq h₂
    rcases Bool.or_eq_true_iff.mp hp with hp | hp
    · obtain ⟨cs, hc, hcs⟩ := ihp hp h₁
      exact ⟨cs ++ bs ++ ds, (hc.append hb).append hd,
        Text.narrow_append (.inl (Text.narrow_append (.inl hcs) (Text.narrow_blanks hbs))) hds⟩
    · obtain ⟨cs, hc, -⟩ := run_reads hn p h₁
      obtain ⟨es, he, hne⟩ := run_reads hn q h₂
      obtain rfl : ds = es := List.append_cancel_right (hd.1.symm.trans he.1)
      exact ⟨cs ++ bs ++ ds, (hc.append hb).append hd,
        Text.narrow_append (.inr (hne (by simpa using hp))) hds⟩
  | alt p q ihp ihq =>
    intro s c m hp h
    obtain ⟨hp, hq⟩ := Bool.and_eq_true_iff.mp hp
    rcases run_alt_eq_some.mp h with h | ⟨-, h⟩
    · exact ihp hp h
    · exact ihq hq h
  | many p ihp =>
    intro s c m hp h
    refine run_many_keeps (P := fun m => ∃ cs, c.Reads cs m.after ∧ Text.Narrow cs)
      ⟨[], Cursor.reads_nil c, Text.narrow_nil⟩ (fun n hn => ihp hp hn) ?_ h
    rintro m n ⟨cs, hc, hcs⟩ hn
    obtain ⟨bs, hbs, hb⟩ := Cursor.skip_reads s m.after
    obtain ⟨ds, hd, hds⟩ := ihp hp hn
    exact ⟨cs ++ bs ++ ds, (hc.append hb).append hd,
      Text.narrow_append (.inl (Text.narrow_append (.inl hcs) (Text.narrow_blanks hbs))) hds⟩
  | opt p ihp =>
    intro s c m hp h
    rcases run_opt_eq_some.mp h with h | ⟨-, rfl⟩
    · exact ihp hp h
    · exact ⟨[], Cursor.reads_nil c, Text.narrow_nil⟩
  | absent p ihp =>
    intro s c m _ h
    obtain ⟨-, rfl⟩ := run_absent_eq_some.mp h
    exact ⟨[], Cursor.reads_nil c, Text.narrow_nil⟩
  | rule r spacing body ih =>
    intro s c m hp h
    obtain ⟨m₁, h₁, rfl⟩ := run_rule_eq_some.mp h
    simpa using ih hp h₁
  | nested =>
    intro s c m hp
    cases hp

end Pattern

/-! ### Failures -/

/-- A failure stands where others stood or where the rule was tried. -/
theorem Furthest.fail_offset (earlier f : Furthest) (r : Rule) (offset : Nat) :
    (earlier.fail r offset f).offset = f.offset ∨ (earlier.fail r offset f).offset = offset := by
  unfold fail
  split
  · exact .inl rfl
  · split
    · exact .inr rfl
    · split
      · exact .inr rfl
      · exact .inl rfl

namespace Cursor

/-- The cursor stands in a text, with nothing or a character of one byte before it. -/
def Opens (text : String) (c : Cursor) : Prop := ∃ before, (ofText text).Reads before c ∧ Text.Narrow before

variable {text : String} {c d : Cursor}

theorem opens_ofText (text : String) : (ofText text).Opens text := ⟨[], reads_nil _, Text.narrow_nil⟩

theorem Opens.opening (h : c.Opens text) : Text.Opening text c.offset := by
  obtain ⟨before, ⟨hrest, hoffset⟩, hnarrow⟩ := h
  exact ⟨before, c.rest, hrest, by simpa [ofText] using hoffset.symm, hnarrow⟩

theorem Opens.reads (h : c.Opens text) (hd : ∃ cs, c.Reads cs d ∧ Text.Narrow cs) : d.Opens text := by
  obtain ⟨before, hread, hnarrow⟩ := h
  obtain ⟨cs, hc, hcs⟩ := hd
  exact ⟨before ++ cs, hread.append hc, Text.narrow_append (.inl hnarrow) hcs⟩

theorem Opens.skip (h : c.Opens text) (s : Spacing) : (c.skip s).Opens text := by
  obtain ⟨bs, hbs, hread⟩ := skip_reads s c
  exact h.reads ⟨bs, hread, Text.narrow_blanks hbs⟩

end Cursor

namespace Pattern

/-- Whether no rule is looked at when the pattern fails. -/
def quiet (s : Spacing) : Pattern → Bool
  | .seq p q => p.quiet s && q.quiet s
  | .alt p q => p.quiet s && q.quiet s
  | .many p => p.quiet s
  | .opt p => p.quiet s
  | .rule _ _ _ => s == .tight
  | .nested => false
  | _ => true

/-- Whether all rules that are looked at are tried where the pattern itself is or after narrow ends. -/
def opens (s : Spacing) : Pattern → Bool
  | .seq p q => p.opens s && q.opens s && (p.endsNarrow || q.quiet s)
  | .alt p q => p.opens s && q.opens s
  | .many p => p.opens s && p.endsNarrow || p.quiet s
  | .opt p => p.opens s
  | .rule _ spacing body => s == .tight || body.opens (spacing.getD s)
  | _ => true

variable {nested : Matcher} {nestedTrace : Tracer} {text : String}

theorem traceRepeated_quiet {s : Spacing} {step : Cursor → Option Match}
    {trace : Cursor → Furthest → Furthest} (htrace : ∀ c f, trace c f = f) :
    ∀ (fuel : Nat) (c : Cursor) (f : Furthest), traceRepeated s step trace fuel c f = f := by
  intro fuel
  induction fuel with
  | zero => exact fun c f => rfl
  | succ fuel ih =>
    intro c f
    simp only [traceRepeated]
    cases step (c.skip s) with
    | none => exact htrace _ f
    | some m => exact (ih _ _).trans (htrace _ f)

/-- A quiet pattern adds no failures. -/
theorem trace_quiet : ∀ (p : Pattern) {s : Spacing} {c : Cursor} {f : Furthest}, p.quiet s = true →
    p.trace nested nestedTrace s c f = f := by
  intro p
  induction p with
  | seq p q ihp ihq =>
    intro s c f hp
    obtain ⟨hp, hq⟩ := Bool.and_eq_true_iff.mp hp
    rw [trace]
    split
    · exact ihp hp
    · rw [ihq hq, ihp hp]
  | alt p q ihp ihq =>
    intro s c f hp
    obtain ⟨hp, hq⟩ := Bool.and_eq_true_iff.mp hp
    rw [trace]
    split
    · exact ihp hp
    · rw [ihq hq, ihp hp]
  | many p ih =>
    intro s c f hp
    rw [trace]
    split
    · exact ih hp
    · rw [traceRepeated_quiet fun c f => ih hp, ih hp]
  | opt p ih => exact fun hp => ih hp
  | rule r spacing body _ =>
    intro s c f hp
    obtain rfl : s = .tight := by simpa [quiet] using hp
    rfl
  | nested =>
    intro s c f hp
    cases hp
  | _ => exact fun _ => rfl

theorem traceRepeated_opening {s : Spacing} {step : Cursor → Option Match}
    {trace : Cursor → Furthest → Furthest}
    (hstep : ∀ c m, step c = some m → ∃ cs, c.Reads cs m.after ∧ Text.Narrow cs)
    (htrace : ∀ c f, c.Opens text → Text.Opening text f.offset → Text.Opening text (trace c f).offset) :
    ∀ (fuel : Nat) (c : Cursor) (f : Furthest), c.Opens text → Text.Opening text f.offset →
      Text.Opening text (traceRepeated s step trace fuel c f).offset := by
  intro fuel
  induction fuel with
  | zero => exact fun c f _ hf => hf
  | succ fuel ih =>
    intro c f hc hf
    have hskip := hc.skip s
    have hfirst := htrace _ _ hskip hf
    simp only [traceRepeated]
    cases hm : step (c.skip s) with
    | none => exact hfirst
    | some m => exact ih _ _ (hskip.reads (hstep _ _ hm)) hfirst

/-- **The failures of a pattern stand at openings of the text**, if it is tried at one. -/
theorem trace_opening (hn : nested.Advances)
    (hnested : ∀ s c f, c.Opens text → Text.Opening text f.offset →
      Text.Opening text (nestedTrace s c f).offset) :
    ∀ (p : Pattern) {s : Spacing} {c : Cursor} {f : Furthest}, p.opens s = true → c.Opens text →
      Text.Opening text f.offset → Text.Opening text (p.trace nested nestedTrace s c f).offset := by
  intro p
  induction p with
  | seq p q ihp ihq =>
    intro s c f hp hc hf
    obtain ⟨hpq, hsecond⟩ := Bool.and_eq_true_iff.mp hp
    obtain ⟨hp, hq⟩ := Bool.and_eq_true_iff.mp hpq
    have hfirst := ihp hp hc hf
    rw [trace]
    split
    · exact hfirst
    · next m hm =>
      rcases Bool.or_eq_true_iff.mp hsecond with hnarrow | hquiet
      · exact ihq hq ((hc.reads (run_narrow hn p hnarrow hm)).skip s) hfirst
      · rwa [trace_quiet q hquiet]
  | alt p q ihp ihq =>
    intro s c f hp hc hf
    obtain ⟨hp, hq⟩ := Bool.and_eq_true_iff.mp hp
    have hfirst := ihp hp hc hf
    rw [trace]
    split
    · exact hfirst
    · exact ihq hq hc hfirst
  | many p ih =>
    intro s c f hp hc hf
    rcases Bool.or_eq_true_iff.mp hp with hp | hquiet
    · obtain ⟨hp, hnarrow⟩ := Bool.and_eq_true_iff.mp hp
      have hfirst := ih hp hc hf
      rw [trace]
      split
      · exact hfirst
      · next m hm =>
        exact traceRepeated_opening (fun d n hd => run_narrow hn p hnarrow hd)
          (fun d f hd hf => ih hp hd hf) _ _ _ (hc.reads (run_narrow hn p hnarrow hm)) hfirst
    · rwa [trace_quiet (.many p) hquiet]
  | opt p ih => exact fun hp hc hf => ih hp hc hf
  | rule r spacing body ih =>
    intro s c f hp hc hf
    rw [trace]
    split
    · exact hf
    · next hs =>
      have hbody : body.opens (spacing.getD s) = true := by simpa [opens, hs] using hp
      have hinside := ih hbody hc hf
      split
      · exact hinside
      · rcases Furthest.fail_offset f (body.trace nested nestedTrace (spacing.getD s) c f) r c.offset with
          hsame | hhere
        · rwa [hsame]
        · rw [hhere]
          exact hc.opening
  | nested => exact fun _ hc hf => hnested _ _ _ hc hf
  | _ => exact fun _ _ hf => hf

end Pattern

namespace Language

theorem traceExpr_opening (text : String) : ∀ (depth : Nat) (s : Spacing) (c : Cursor) (f : Furthest),
    c.Opens text → Text.Opening text f.offset → Text.Opening text (traceExpr depth s c f).offset
  | 0, _, _, _, _, hf => hf
  | depth + 1, s, c, f, hc, hf => by
    have hopens : expr.opens s = true := by cases s <;> decide
    exact Pattern.trace_opening (matchExpr_advances depth) (traceExpr_opening text depth) expr hopens hc hf

/-- **The furthest failure of a text stands at an opening of it.** -/
theorem furthest_opening (text : String) : Text.Opening text (furthest program text).offset := by
  have hstart := Cursor.opens_ofText text
  exact Pattern.trace_opening (matchExpr_advances (depthOf text)) (traceExpr_opening text (depthOf text))
    program (by decide) hstart hstart.opening

end Language

end FlowSelect
