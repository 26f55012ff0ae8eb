/-
# Matching inside a longer text

A text can be embedded in a longer one: something stands before it, so that offsets move, and
something after it. A pattern that never looks at the character which then follows cannot tell the
difference, and its matches move with the text (`run_moved`). Of other patterns only the matches
move (`Moves`), for reasons that depend on the pattern.

Key definitions: `Cursor.moved`, `Match.moved`, `Pattern.stopsAt`, `Pattern.Moves`.
Key theorems: `Pattern.Loop.moved`, `Pattern.run_moved`.
-/
import FlowSelect.Proofs.Grammar.Run

namespace FlowSelect

namespace Token

mutual

/-- A token `d` bytes further on. -/
def moved (d : Nat) : Token → Token
  | .node rule start text children => .node rule (start + d) text (movedAll d children)

/-- Tokens `d` bytes further on. -/
def movedAll (d : Nat) : List Token → List Token
  | [] => []
  | t :: ts => moved d t :: movedAll d ts

end

theorem movedAll_append (d : Nat) : ∀ ts us : List Token,
    movedAll d (ts ++ us) = movedAll d ts ++ movedAll d us
  | [], us => by simp [movedAll]
  | t :: ts, us => by simp [movedAll, movedAll_append d ts us]

end Token

/-- A cursor `d` bytes further on, in a text that goes on with `more`. -/
def Cursor.moved (d : Nat) (more : List Char) (c : Cursor) : Cursor :=
  ⟨c.offset + d, c.rest ++ more⟩

/-- A match `d` bytes further on, in a text that goes on with `more`. -/
def Match.moved (d : Nat) (more : List Char) (m : Match) : Match :=
  ⟨Token.movedAll d m.tokens, m.after.moved d more⟩

namespace Cursor

variable (d : Nat) (more : List Char)

@[simp] theorem moved_offset (c : Cursor) : (c.moved d more).offset = c.offset + d := rfl

@[simp] theorem moved_rest (c : Cursor) : (c.moved d more).rest = c.rest ++ more := rfl

theorem next_moved (r : Char) (offset : Nat) (rest : List Char) :
    next r (offset + d) (rest ++ more) = (next r offset rest).moved d more := by
  simp [next, moved, Nat.add_right_comm]

theorem textTo_moved (c e : Cursor) : (c.moved d more).textTo (e.moved d more) = c.textTo e := by
  simp [textTo, Nat.add_sub_add_right, List.take_append_of_le_length]

/-- Blanks are skipped alike if what follows the text is no blank. -/
theorem skipBlanksFrom_moved {ch : Char} (hch : isBlank ch = false) (more : List Char) :
    ∀ (cs : List Char) (offset : Nat),
      skipBlanksFrom (offset + d) (cs ++ ch :: more) =
        (skipBlanksFrom offset cs).moved d (ch :: more)
  | [], offset => by simp [skipBlanksFrom, hch, moved]
  | c :: cs, offset => by
    by_cases h : isBlank c = true
    · have ih := skipBlanksFrom_moved hch more cs (offset + 1)
      simpa [skipBlanksFrom, h, Nat.add_right_comm] using ih
    · simp [skipBlanksFrom, h, moved]

theorem skip_moved {ch : Char} (hch : isBlank ch = false) (more : List Char) (s : Spacing)
    (c : Cursor) : (c.moved d (ch :: more)).skip s = (c.skip s).moved d (ch :: more) := by
  cases s with
  | loose => exact skipBlanksFrom_moved d hch more c.rest c.offset
  | joined => rfl
  | tight => rfl

end Cursor

namespace Pattern

variable {nested nested' : Matcher} {s : Spacing} {d : Nat} {more : List Char} {ch : Char}

@[simp] theorem moved_bare (c : Cursor) :
    Match.moved d more ⟨[], c⟩ = ⟨[], c.moved d more⟩ := rfl

theorem named_moved (r : Rule) (c : Cursor) (m : Match) :
    named r s (c.moved d more) (m.moved d more) = (named r s c m).moved d more := by
  unfold named
  by_cases hs : s = .tight
  · simp [hs, Match.moved]
    rfl
  · simp [hs, Match.moved, Token.movedAll, Token.moved, Cursor.textTo_moved]

/-! ### Single characters -/

theorem takeLiteral_moved_of_some : ∀ (ls : List Char) {c e : Cursor}, takeLiteral ls c = some e →
    takeLiteral ls (c.moved d more) = some (e.moved d more)
  | [], c, e, h => by
    obtain rfl : c = e := by simpa [takeLiteral] using h
    rfl
  | l :: ls, ⟨_, []⟩, e, h => by simp [takeLiteral] at h
  | l :: ls, ⟨offset, r :: rest⟩, e, h => by
    by_cases hl : l = r
    · have ih := takeLiteral_moved_of_some ls (c := Cursor.next r offset rest) (e := e)
        (by simpa [takeLiteral, hl] using h)
      change takeLiteral (l :: ls) ⟨offset + d, r :: (rest ++ more)⟩ = _
      rw [takeLiteral, if_pos hl, Cursor.next_moved]
      exact ih
    · simp [takeLiteral, hl] at h

theorem takeLiteral_moved : ∀ {ls : List Char}, ch ∉ ls → ∀ c : Cursor,
    takeLiteral ls (c.moved d (ch :: more)) = (takeLiteral ls c).map (Cursor.moved d (ch :: more))
  | [], _, c => rfl
  | l :: ls, hl, ⟨offset, []⟩ => by
    have hne : l ≠ ch := fun h => hl (by simp [h])
    simp [Cursor.moved, takeLiteral, hne]
  | l :: ls, hl, ⟨offset, r :: rest⟩ => by
    have ih := takeLiteral_moved (fun h => hl (List.mem_cons_of_mem l h)) (Cursor.next r offset rest)
    change takeLiteral (l :: ls) ⟨offset + d, r :: (rest ++ ch :: more)⟩ = _
    by_cases hr : l = r
    · rw [takeLiteral, if_pos hr, takeLiteral, if_pos hr, Cursor.next_moved]
      exact ih
    · rw [takeLiteral, if_neg hr, takeLiteral, if_neg hr]
      rfl

theorem takeLetters_moved : ∀ {ls : List Char}, ch.toLower ∉ ls → ∀ c : Cursor,
    takeLetters ls (c.moved d (ch :: more)) = (takeLetters ls c).map (Cursor.moved d (ch :: more))
  | [], _, c => rfl
  | l :: ls, hl, ⟨offset, []⟩ => by
    have hne : l ≠ ch.toLower := fun h => hl (by simp [h])
    simp [Cursor.moved, takeLetters, hne]
  | l :: ls, hl, ⟨offset, r :: rest⟩ => by
    have ih := takeLetters_moved (fun h => hl (List.mem_cons_of_mem l h)) (Cursor.next r offset rest)
    change takeLetters (l :: ls) ⟨offset + d, r :: (rest ++ ch :: more)⟩ = _
    by_cases hr : l = r.toLower
    · rw [takeLetters, if_pos hr, takeLetters, if_pos hr, Cursor.next_moved]
      exact ih
    · rw [takeLetters, if_neg hr, takeLetters, if_neg hr]
      rfl

theorem takeOne_moved {k : CharClass} (hk : k.contains ch = false) : ∀ c : Cursor,
    takeOne k (c.moved d (ch :: more)) = (takeOne k c).map (Cursor.moved d (ch :: more))
  | ⟨offset, []⟩ => by simp [Cursor.moved, takeOne, hk]
  | ⟨offset, r :: rest⟩ => by
    by_cases hr : k.contains r = true
    · simp [Cursor.moved, takeOne, hr, Cursor.next, Nat.add_right_comm]
    · simp [Cursor.moved, takeOne, hr]

theorem bare_moved {o : Option Cursor} :
    bare (o.map (Cursor.moved d more)) = (bare o).map (Match.moved d more) := by
  cases o <;> rfl

/-! ### Repetition -/

/-- A loop moves with the text if its rounds do and the step still fails where it ends. -/
theorem Loop.moved {step step' : Cursor → Option Match} {m last : Match}
    (hch : Cursor.isBlank ch = false) (h : Loop s step m last)
    (hround : ∀ c n, c.skip s = c → step c = some n →
      step' (c.moved d (ch :: more)) = some (n.moved d (ch :: more)))
    (hlast : step' ((last.after.skip s).moved d (ch :: more)) = none) :
    Loop s step' (m.moved d (ch :: more)) (last.moved d (ch :: more)) := by
  induction h with
  | stop h => exact .stop (by rw [Match.moved, Cursor.skip_moved d hch]; exact hlast)
  | @more m n last h rest ih =>
    refine .more (n := n.moved d (ch :: more)) ?_ ?_
    · rw [Match.moved, Cursor.skip_moved d hch]
      exact hround _ _ (Cursor.skip_skip s m.after) h
    · simpa [Match.moved, Token.movedAll_append] using ih hlast

theorem Loop.last_fails {step : Cursor → Option Match} {m last : Match} (h : Loop s step m last) :
    step (last.after.skip s) = none := by
  induction h with
  | stop h => exact h
  | more _ _ ih => exact ih

/-! ### Patterns that do not look at a character -/

/-- Whether a pattern treats the character `ch` as it treats the end of the text: no part of it
accepts `ch`, or asks where the text starts or ends, and its repetitions read something in every
round. -/
def stopsAt (ch : Char) : Pattern → Bool
  | .literal ls => !ls.contains ch
  | .letters ls => !ls.contains ch.toLower
  | .one k => !k.contains ch
  | .start => false
  | .finish => false
  | .seq p q => p.stopsAt ch && q.stopsAt ch
  | .alt p q => p.stopsAt ch && q.stopsAt ch
  | .many p => p.stopsAt ch && !p.nullable
  | .opt p => p.stopsAt ch
  | .absent p => p.stopsAt ch
  | .rule _ _ body => body.stopsAt ch
  | .nested => false

/-- **A pattern that stops at a character matches alike before it and before the end.** -/
theorem run_moved (hch : Cursor.isBlank ch = false) (hn : nested.Advances)
    (hn' : nested'.Advances) : ∀ (p : Pattern) {s : Spacing}, p.stopsAt ch = true → ∀ c : Cursor,
    p.run nested' s (c.moved d (ch :: more)) =
      (p.run nested s c).map (Match.moved d (ch :: more)) := by
  intro p
  induction p with
  | literal ls =>
    intro s hp c
    rw [run, run, takeLiteral_moved (by simpa [stopsAt] using hp), bare_moved]
  | letters ls =>
    intro s hp c
    rw [run, run, takeLetters_moved (by simpa [stopsAt] using hp), bare_moved]
  | one k =>
    intro s hp c
    rw [run, run, takeOne_moved (by simpa [stopsAt] using hp), bare_moved]
  | start => exact fun hp => absurd hp (by simp [stopsAt])
  | finish => exact fun hp => absurd hp (by simp [stopsAt])
  | nested => exact fun hp => absurd hp (by simp [stopsAt])
  | seq p q ihp ihq =>
    intro s hpq c
    obtain ⟨hp, hq⟩ := Bool.and_eq_true_iff.mp hpq
    rw [run, run, ihp hp c]
    cases p.run nested s c with
    | none => rfl
    | some m =>
      simp only [Option.map_some, Match.moved]
      rw [Cursor.skip_moved d hch, ihq hq (m.after.skip s)]
      cases q.run nested s (m.after.skip s) with
      | none => rfl
      | some n => simp [Match.moved, Token.movedAll_append]
  | alt p q ihp ihq =>
    intro s hpq c
    obtain ⟨hp, hq⟩ := Bool.and_eq_true_iff.mp hpq
    rw [run, run, ihp hp c, ihq hq c]
    cases p.run nested s c <;> rfl
  | many p ihp =>
    intro s hp c
    obtain ⟨hp, hnull⟩ := Bool.and_eq_true_iff.mp hp
    have hnull : p.nullable = false := by simpa using hnull
    obtain ⟨m, hm⟩ : ∃ m, (many p).run nested s c = some m := by
      rw [run]
      cases p.run nested s c <;> exact ⟨_, rfl⟩
    rw [hm, Option.map_some, run_many_iff hn' hnull]
    rcases (run_many_iff hn hnull).mp hm with ⟨h, rfl⟩ | ⟨m₁, h, hloop⟩
    · exact .inl ⟨by rw [ihp hp c, h]; rfl, rfl⟩
    · refine .inr ⟨m₁.moved d (ch :: more), by rw [ihp hp c, h]; rfl, ?_⟩
      refine hloop.moved hch (fun c n _ h => by rw [ihp hp c, h]; rfl) ?_
      rw [ihp hp, hloop.last_fails]
      rfl
  | opt p ihp =>
    intro s hp c
    rw [run, run, ihp hp c]
    cases p.run nested s c <;> rfl
  | absent p ihp =>
    intro s hp c
    rw [run, run, ihp hp c]
    cases p.run nested s c <;> rfl
  | rule r spacing body ih =>
    intro s hp c
    cases h : body.run nested (spacing.getD s) c with
    | none => rw [run, run, ih hp c, h]; rfl
    | some m =>
      have h₁ : (rule r spacing body).run nested s c = some (named r s c m) :=
        run_rule_eq_some.mpr ⟨m, h, rfl⟩
      rw [h₁, Option.map_some, run_rule_eq_some]
      exact ⟨m.moved d (ch :: more), by rw [ih hp c, h]; rfl, (named_moved r c m).symm⟩

/-- What such a pattern can read does not hold the character. -/
theorem not_mem_of_denotes : ∀ (p : Pattern) {cs : List Char}, p.stopsAt ch = true → p.Denotes cs →
    ch ∉ cs := by
  intro p
  induction p with
  | literal ls =>
    rintro _ hp rfl
    simpa [stopsAt] using hp
  | letters ls =>
    rintro cs hp rfl hmem
    simp only [stopsAt, Bool.not_eq_true', List.contains_eq_mem, decide_eq_false_iff_not] at hp
    exact hp (List.mem_map_of_mem hmem)
  | one k =>
    rintro _ hp ⟨r, hr, rfl⟩ hmem
    rw [List.mem_singleton.mp hmem] at hp
    simp [stopsAt, hr] at hp
  | start => exact fun hp => absurd hp (by simp [stopsAt])
  | finish => exact fun hp => absurd hp (by simp [stopsAt])
  | nested => exact fun hp => absurd hp (by simp [stopsAt])
  | seq p q ihp ihq =>
    rintro _ hpq ⟨as, bs, rfl, ha, hb⟩
    obtain ⟨hp, hq⟩ := Bool.and_eq_true_iff.mp hpq
    simp [ihp hp ha, ihq hq hb]
  | alt p q ihp ihq =>
    intro cs hpq h
    obtain ⟨hp, hq⟩ := Bool.and_eq_true_iff.mp hpq
    exact h.elim (ihp hp) (ihq hq)
  | many p ihp =>
    rintro _ hp ⟨parts, rfl, hparts⟩ hmem
    obtain ⟨part, hpart, hmem⟩ := List.mem_flatten.mp hmem
    exact ihp (Bool.and_eq_true_iff.mp hp).1 (hparts part hpart) hmem
  | opt p ihp =>
    rintro cs hp (rfl | h)
    · simp
    · exact ihp hp h
  | absent p ihp =>
    rintro _ _ rfl
    simp
  | rule r spacing body ih => exact fun hp h => ih hp h

/-! ### Matches that move

Of a pattern that does look at what follows, it may still be true that its matches move with the
text, though it may match where it failed before. -/

/-- If the pattern matches at `c`, its match moves with the text. -/
def Moves (nested nested' : Matcher) (d : Nat) (more : List Char) (p : Pattern) (s : Spacing)
    (c : Cursor) : Prop :=
  ∀ m, p.run nested s c = some m → p.run nested' s (c.moved d more) = some (m.moved d more)

variable {p q : Pattern} {c : Cursor}

theorem moves_literal (ls : List Char) : Moves nested nested' d more (.literal ls) s c := by
  intro m h
  obtain ⟨e, he, rfl⟩ := bare_eq_some.mp h
  exact bare_eq_some.mpr ⟨e.moved d more, takeLiteral_moved_of_some ls he, rfl⟩

theorem moves_of_stopsAt (hch : Cursor.isBlank ch = false) (hn : nested.Advances)
    (hn' : nested'.Advances) (hp : p.stopsAt ch = true) :
    Moves nested nested' d (ch :: more) p s c := by
  intro m h
  rw [run_moved hch hn hn' p hp, h]
  rfl

theorem fails_of_stopsAt (hch : Cursor.isBlank ch = false) (hn : nested.Advances)
    (hn' : nested'.Advances) (hp : p.stopsAt ch = true) (h : p.run nested s c = none) :
    p.run nested' s (c.moved d (ch :: more)) = none := by
  rw [run_moved hch hn hn' p hp, h]
  rfl

theorem Moves.rule {r : Rule} {spacing : Option Spacing} {body : Pattern}
    (h : Moves nested nested' d more body (spacing.getD s) c) :
    Moves nested nested' d more (.rule r spacing body) s c := by
  intro m hm
  obtain ⟨m₁, h₁, rfl⟩ := run_rule_eq_some.mp hm
  exact run_rule_eq_some.mpr ⟨m₁.moved d more, h m₁ h₁, (named_moved r c m₁).symm⟩

theorem Moves.seq (hch : Cursor.isBlank ch = false)
    (hp : Moves nested nested' d (ch :: more) p s c)
    (hq : ∀ m, p.run nested s c = some m →
      Moves nested nested' d (ch :: more) q s (m.after.skip s)) :
    Moves nested nested' d (ch :: more) (.seq p q) s c := by
  intro m hm
  obtain ⟨m₁, m₂, h₁, h₂, rfl⟩ := run_seq_eq_some.mp hm
  refine run_seq_eq_some.mpr ⟨m₁.moved d (ch :: more), m₂.moved d (ch :: more), hp m₁ h₁, ?_, ?_⟩
  · rw [Match.moved, Cursor.skip_moved d hch]
    exact hq m₁ h₁ m₂ h₂
  · simp [Match.moved, Token.movedAll_append]

/-- A choice moves if its two sides do, and if the first side still fails where it failed and the
second one matched. -/
theorem Moves.alt (hp : Moves nested nested' d more p s c) (hq : Moves nested nested' d more q s c)
    (hfail : p.run nested s c = none → ∀ m, q.run nested s c = some m →
      p.run nested' s (c.moved d more) = none) :
    Moves nested nested' d more (.alt p q) s c := by
  intro m hm
  rcases run_alt_eq_some.mp hm with h | ⟨hnone, h⟩
  · exact run_alt_eq_some.mpr (.inl (hp m h))
  · exact run_alt_eq_some.mpr (.inr ⟨hfail hnone m h, hq m h⟩)

end Pattern

end FlowSelect
