/-
# What a match reads

A match reads a stretch of the text, and the cursor after it stands at the end of that stretch
(`run_reads`). A pattern that is not nullable reads at least one character, so a repetition of it
stops only where it no longer matches: `Loop` says so without a bound on the number of rounds, and
`run_many_iff` replaces the bounded loop by it. Inside a rule that is matched as a whole, what is
read belongs to the regular language of the pattern (`run_denotes`).

Key definitions: `Cursor.Reads`, `Pattern.nullable`, `Pattern.Loop`, `Pattern.Denotes`.
Key theorems: `Pattern.run_many_keeps`, `Pattern.run_reads`, `Pattern.run_many_iff`,
`Pattern.run_denotes`.
-/
import Mathlib
import FlowSelect.Grammar.Pattern

namespace FlowSelect

namespace Text

theorem byteLength_append : ∀ cs ds : List Char, byteLength (cs ++ ds) = byteLength cs + byteLength ds
  | [], ds => by simp [byteLength]
  | c :: cs, ds => by simp [byteLength, byteLength_append cs ds, Nat.add_assoc]

end Text

namespace Cursor

/-- The cursor `d` stands after the characters `cs`, which the text goes on with at `c`. -/
def Reads (c : Cursor) (cs : List Char) (d : Cursor) : Prop :=
  c.rest = cs ++ d.rest ∧ d.offset = c.offset + Text.byteLength cs

theorem reads_nil (c : Cursor) : c.Reads [] c := ⟨rfl, rfl⟩

theorem reads_next (offset : Nat) (r : Char) (rest : List Char) :
    Reads ⟨offset, r :: rest⟩ [r] (next r offset rest) := by
  simp [Reads, next, Text.byteLength]

theorem Reads.append {c d e : Cursor} {cs ds : List Char} (h : c.Reads cs d) (k : d.Reads ds e) :
    c.Reads (cs ++ ds) e := by
  refine ⟨by rw [h.1, k.1, List.append_assoc], ?_⟩
  rw [k.2, h.2, Text.byteLength_append, Nat.add_assoc]

theorem Reads.length_eq {c d : Cursor} {cs : List Char} (h : c.Reads cs d) :
    c.rest.length = cs.length + d.rest.length := by
  rw [h.1, List.length_append]

/-- The text between two cursors is what the first reads up to the second. -/
theorem Reads.textTo_eq {c d : Cursor} {cs : List Char} (h : c.Reads cs d) :
    c.textTo d = String.ofList cs := by
  unfold textTo
  rw [h.length_eq, Nat.add_sub_cancel, h.1, List.take_left]

/-! ### Blanks -/

attribute [local simp] skip skipBlanksFrom

theorem skip_eq_self {s : Spacing} (hs : s ≠ .loose) (c : Cursor) : c.skip s = c := by
  cases s with
  | loose => exact absurd rfl hs
  | joined => rfl
  | tight => rfl

theorem skipBlanksFrom_reads (cs : List Char) : ∀ offset,
    ∃ bs, (∀ b ∈ bs, isBlank b = true) ∧ Reads ⟨offset, cs⟩ bs (skipBlanksFrom offset cs) := by
  induction cs with
  | nil => exact fun offset => ⟨[], by simp, reads_nil _⟩
  | cons c cs ih =>
    intro offset
    by_cases h : isBlank c = true
    · obtain ⟨bs, hbs, hr⟩ := ih (offset + 1)
      refine ⟨c :: bs, by simpa [h] using hbs, ?_⟩
      have hsize : c.utf8Size = 1 := by
        simp only [isBlank, Bool.or_eq_true, beq_iff_eq] at h
        rcases h with ((rfl | rfl) | rfl) | rfl <;> rfl
      have hone : Reads ⟨offset, c :: cs⟩ [c] ⟨offset + 1, cs⟩ := by
        simpa [next, hsize] using reads_next offset c cs
      simpa [h] using hone.append hr
    · exact ⟨[], by simp, by simpa [h] using reads_nil _⟩

/-- What is skipped is read, and holds blanks only. -/
theorem skip_reads (s : Spacing) (c : Cursor) :
    ∃ bs, (∀ b ∈ bs, isBlank b = true) ∧ c.Reads bs (c.skip s) := by
  cases s with
  | loose => exact skipBlanksFrom_reads c.rest c.offset
  | joined => exact ⟨[], by simp, reads_nil c⟩
  | tight => exact ⟨[], by simp, reads_nil c⟩

theorem skip_length_le (s : Spacing) (c : Cursor) : (c.skip s).rest.length ≤ c.rest.length := by
  obtain ⟨bs, -, h⟩ := skip_reads s c
  have := h.length_eq
  omega

theorem skip_of_not_blank (s : Spacing) {c : Cursor} {r : Char} {rest : List Char}
    (h : c.rest = r :: rest) (hr : isBlank r = false) : c.skip s = c := by
  obtain ⟨offset, cs⟩ := c
  obtain rfl : cs = r :: rest := h
  cases s <;> simp [hr]

theorem skip_of_nil (s : Spacing) {c : Cursor} (h : c.rest = []) : c.skip s = c := by
  obtain ⟨offset, cs⟩ := c
  obtain rfl : cs = [] := h
  cases s <;> rfl

/-- After blanks are skipped, the text ends or goes on with another character. -/
theorem skipBlanksFrom_head (cs : List Char) : ∀ offset,
    (skipBlanksFrom offset cs).rest = [] ∨
      ∃ r rest, (skipBlanksFrom offset cs).rest = r :: rest ∧ isBlank r = false := by
  induction cs with
  | nil => exact fun offset => Or.inl rfl
  | cons c cs ih =>
    intro offset
    by_cases h : isBlank c = true
    · simpa [h] using ih (offset + 1)
    · exact Or.inr ⟨c, cs, by simp [h], by simpa using h⟩

theorem skip_skip (s : Spacing) (c : Cursor) : (c.skip s).skip s = c.skip s := by
  by_cases hs : s = .loose
  · subst hs
    rcases skipBlanksFrom_head c.rest c.offset with h | ⟨r, rest, h, hr⟩
    · exact skip_of_nil .loose h
    · exact skip_of_not_blank .loose h hr
  · rw [skip_eq_self hs, skip_eq_self hs]

/-- A place where there is nothing to skip is not at a blank. -/
theorem not_blank_of_skip_eq {c : Cursor} (hc : c.skip .loose = c) {r : Char} {rest : List Char}
    (h : c.rest = r :: rest) : isBlank r = false := by
  obtain ⟨offset, cs⟩ := c
  obtain rfl : cs = r :: rest := h
  by_contra hr
  rw [Bool.not_eq_false] at hr
  have hskip : skip .loose ⟨offset + 1, rest⟩ = ⟨offset, r :: rest⟩ := by
    simpa [hr] using hc
  have hle := skip_length_le .loose ⟨offset + 1, rest⟩
  rw [hskip] at hle
  simp at hle

end Cursor

/-- A matcher that reads at least one character whenever it matches. -/
def Matcher.Advances (nested : Matcher) : Prop :=
  ∀ s c m, nested s c = some m → ∃ cs, cs ≠ [] ∧ c.Reads cs m.after

namespace Pattern

variable {nested : Matcher} {s : Spacing} {c : Cursor} {m : Match} {p q : Pattern}

/-! ### What each form of pattern does -/

attribute [local simp] bare run

/-- The match of a rule's body as a match of the rule. -/
def named (r : Rule) (s : Spacing) (c : Cursor) (m : Match) : Match :=
  if s = .tight then ⟨[], m.after⟩ else ⟨[.node r c.offset (c.textTo m.after) m.tokens], m.after⟩

@[simp] theorem named_after (r : Rule) : (named r s c m).after = m.after := by
  unfold named
  split <;> rfl

theorem bare_eq_some {o : Option Cursor} : bare o = some m ↔ ∃ d, o = some d ∧ m = ⟨[], d⟩ := by
  cases o with
  | none => simp
  | some d => simp [eq_comm]

theorem run_seq_eq_some :
    (seq p q).run nested s c = some m ↔
      ∃ m₁ m₂, p.run nested s c = some m₁ ∧ q.run nested s (m₁.after.skip s) = some m₂ ∧
        m = ⟨m₁.tokens ++ m₂.tokens, m₂.after⟩ := by
  cases hp : p.run nested s c with
  | none => simp [hp]
  | some m₁ =>
    cases hq : q.run nested s (m₁.after.skip s) with
    | none => simp [hp, hq]
    | some m₂ => simp [hp, hq, eq_comm]

theorem run_alt_eq_some :
    (alt p q).run nested s c = some m ↔
      p.run nested s c = some m ∨ p.run nested s c = none ∧ q.run nested s c = some m := by
  cases hp : p.run nested s c <;> simp [hp]

theorem run_opt_eq_some :
    (opt p).run nested s c = some m ↔
      p.run nested s c = some m ∨ p.run nested s c = none ∧ m = ⟨[], c⟩ := by
  cases hp : p.run nested s c <;> simp [hp, eq_comm]

theorem run_absent_eq_some :
    (absent p).run nested s c = some m ↔ p.run nested s c = none ∧ m = ⟨[], c⟩ := by
  cases hp : p.run nested s c <;> simp [hp, eq_comm]

theorem run_start_eq_some : start.run nested s c = some m ↔ c.offset = 0 ∧ m = ⟨[], c⟩ := by
  by_cases hc : c.offset = 0
  · simp [hc, eq_comm]
  · simp [hc]

theorem run_finish_eq_some : finish.run nested s c = some m ↔ c.rest = [] ∧ m = ⟨[], c⟩ := by
  by_cases hc : c.rest = []
  · simp [hc, eq_comm]
  · simp [hc]

theorem run_rule_eq_some {r : Rule} {spacing : Option Spacing} {body : Pattern} :
    (rule r spacing body).run nested s c = some m ↔
      ∃ m₁, body.run nested (spacing.getD s) c = some m₁ ∧ m = named r s c m₁ := by
  rw [run]
  cases body.run nested (spacing.getD s) c with
  | none => simp
  | some m₁ =>
    unfold named
    by_cases hs : s = .tight <;> simp [hs, eq_comm]

/-! ### Reading -/

theorem takeLiteral_reads : ∀ (ls : List Char) {c d : Cursor},
    takeLiteral ls c = some d → c.Reads ls d
  | [], c, d, h => by
    obtain rfl : c = d := by simpa [takeLiteral] using h
    exact Cursor.reads_nil c
  | l :: ls, ⟨_, []⟩, d, h => by simp [takeLiteral] at h
  | l :: ls, ⟨offset, r :: rest⟩, d, h => by
    by_cases hl : l = r
    · subst hl
      have ih := takeLiteral_reads ls (c := Cursor.next l offset rest) (d := d)
        (by simpa [takeLiteral] using h)
      exact (Cursor.reads_next offset l rest).append ih
    · simp [takeLiteral, hl] at h

/-- The letters read are the given ones, up to letter case. -/
theorem takeLetters_reads : ∀ (ls : List Char) {c d : Cursor},
    takeLetters ls c = some d → ∃ cs, c.Reads cs d ∧ cs.map Char.toLower = ls
  | [], c, d, h => by
    obtain rfl : c = d := by simpa [takeLetters] using h
    exact ⟨[], Cursor.reads_nil c, rfl⟩
  | l :: ls, ⟨_, []⟩, d, h => by simp [takeLetters] at h
  | l :: ls, ⟨offset, r :: rest⟩, d, h => by
    by_cases hl : l = r.toLower
    · obtain ⟨cs, hr, hcs⟩ := takeLetters_reads ls (c := Cursor.next r offset rest) (d := d)
        (by simpa [takeLetters, hl] using h)
      exact ⟨r :: cs, (Cursor.reads_next offset r rest).append hr, by simp [hcs, hl]⟩
    · simp [takeLetters, hl] at h

theorem takeOne_reads {k : CharClass} {c d : Cursor} (h : takeOne k c = some d) :
    ∃ r, k.contains r = true ∧ c.Reads [r] d := by
  obtain ⟨offset, cs⟩ := c
  cases cs with
  | nil => simp [takeOne] at h
  | cons r rest =>
    by_cases hk : k.contains r = true
    · obtain rfl : Cursor.next r offset rest = d := by simpa [takeOne, hk] using h
      exact ⟨r, hk, Cursor.reads_next offset r rest⟩
    · simp [takeOne, hk] at h

/-- Whether a pattern may match without reading a character. -/
def nullable : Pattern → Bool
  | .literal cs => cs.isEmpty
  | .letters cs => cs.isEmpty
  | .one _ => false
  | .start => true
  | .finish => true
  | .seq p q => p.nullable && q.nullable
  | .alt p q => p.nullable || q.nullable
  | .many _ => true
  | .opt _ => true
  | .absent _ => true
  | .rule _ _ body => body.nullable
  | .nested => false

theorem repeated_keeps {step : Cursor → Option Match} {P : Match → Prop}
    (hstep : ∀ m n, P m → step (m.after.skip s) = some n → P ⟨m.tokens ++ n.tokens, n.after⟩) :
    ∀ (fuel : Nat) (m : Match), P m → P (repeated s step fuel m) := by
  intro fuel
  induction fuel with
  | zero => exact fun m hm => hm
  | succ fuel ih =>
    intro m hm
    rw [repeated]
    cases h : step (m.after.skip s) with
    | none => exact hm
    | some n => exact ih _ (hstep m n hm h)

/-- **What holds before a repetition and is kept by each round of it holds after it.** -/
theorem run_many_keeps {P : Match → Prop} (hnone : P ⟨[], c⟩) (hfirst : ∀ n, p.run nested s c = some n → P n)
    (hmore : ∀ m n, P m → p.run nested s (m.after.skip s) = some n → P ⟨m.tokens ++ n.tokens, n.after⟩)
    (h : (many p).run nested s c = some m) : P m := by
  cases hp : p.run nested s c with
  | none =>
    obtain rfl : m = ⟨[], c⟩ := by simpa [hp, eq_comm] using h
    exact hnone
  | some m₁ =>
    obtain rfl : repeated s (p.run nested s) m₁.after.rest.length m₁ = m := by simpa [hp] using h
    exact repeated_keeps hmore _ _ (hfirst m₁ hp)

/-- **A match reads what lies between its two cursors**, and something at least unless the pattern
is nullable. -/
theorem run_reads (hn : nested.Advances) : ∀ (p : Pattern) {s : Spacing} {c : Cursor} {m : Match},
    p.run nested s c = some m → ∃ cs, c.Reads cs m.after ∧ (p.nullable = false → cs ≠ []) := by
  intro p
  induction p with
  | literal ls =>
    intro s c m h
    obtain ⟨d, hd, rfl⟩ := bare_eq_some.mp h
    exact ⟨ls, takeLiteral_reads ls hd, by simp [nullable]⟩
  | letters ls =>
    intro s c m h
    obtain ⟨d, hd, rfl⟩ := bare_eq_some.mp h
    obtain ⟨cs, hr, hcs⟩ := takeLetters_reads ls hd
    exact ⟨cs, hr, by rintro hl rfl; simp [← hcs, nullable] at hl⟩
  | one k =>
    intro s c m h
    obtain ⟨d, hd, rfl⟩ := bare_eq_some.mp h
    obtain ⟨r, -, hr⟩ := takeOne_reads hd
    exact ⟨[r], hr, by simp⟩
  | start =>
    intro s c m h
    obtain ⟨-, rfl⟩ := run_start_eq_some.mp h
    exact ⟨[], Cursor.reads_nil c, by simp [nullable]⟩
  | finish =>
    intro s c m h
    obtain ⟨-, rfl⟩ := run_finish_eq_some.mp h
    exact ⟨[], Cursor.reads_nil c, by simp [nullable]⟩
  | seq p q ihp ihq =>
    intro s c m h
    obtain ⟨m₁, m₂, h₁, h₂, rfl⟩ := run_seq_eq_some.mp h
    obtain ⟨cs, hc, hcn⟩ := ihp h₁
    obtain ⟨bs, -, hb⟩ := Cursor.skip_reads s m₁.after
    obtain ⟨ds, hd, hdn⟩ := ihq h₂
    refine ⟨cs ++ bs ++ ds, (hc.append hb).append hd, fun hnull => ?_⟩
    rcases Bool.and_eq_false_iff.mp hnull with hp | hq
    · simp [hcn hp]
    · simp [hdn hq]
  | alt p q ihp ihq =>
    intro s c m h
    rcases run_alt_eq_some.mp h with h | ⟨-, h⟩
    · obtain ⟨cs, hc, hcn⟩ := ihp h
      exact ⟨cs, hc, fun hnull => hcn (Bool.or_eq_false_iff.mp hnull).1⟩
    · obtain ⟨cs, hc, hcn⟩ := ihq h
      exact ⟨cs, hc, fun hnull => hcn (Bool.or_eq_false_iff.mp hnull).2⟩
  | many p ihp =>
    intro s c m h
    have hread : ∃ cs, c.Reads cs m.after := by
      refine run_many_keeps (P := fun m => ∃ cs, c.Reads cs m.after) ⟨[], Cursor.reads_nil c⟩ ?_ ?_ h
      · exact fun n hn => (ihp hn).imp fun _ h => h.1
      · rintro m n ⟨cs, hc⟩ hn
        obtain ⟨bs, -, hb⟩ := Cursor.skip_reads s m.after
        obtain ⟨ds, hd, -⟩ := ihp hn
        exact ⟨cs ++ bs ++ ds, (hc.append hb).append hd⟩
    obtain ⟨cs, hc⟩ := hread
    exact ⟨cs, hc, by simp [nullable]⟩
  | opt p ihp =>
    intro s c m h
    rcases run_opt_eq_some.mp h with h | ⟨-, rfl⟩
    · obtain ⟨cs, hc, -⟩ := ihp h
      exact ⟨cs, hc, by simp [nullable]⟩
    · exact ⟨[], Cursor.reads_nil c, by simp [nullable]⟩
  | absent p ihp =>
    intro s c m h
    obtain ⟨-, rfl⟩ := run_absent_eq_some.mp h
    exact ⟨[], Cursor.reads_nil c, by simp [nullable]⟩
  | rule r spacing body ih =>
    intro s c m h
    obtain ⟨m₁, h₁, rfl⟩ := run_rule_eq_some.mp h
    obtain ⟨cs, hc, hcn⟩ := ih h₁
    exact ⟨cs, by simpa using hc, hcn⟩
  | nested =>
    intro s c m h
    obtain ⟨cs, hne, hr⟩ := hn s c m h
    exact ⟨cs, hr, fun _ => hne⟩

theorem run_length_le (hn : nested.Advances) (h : p.run nested s c = some m) :
    m.after.rest.length ≤ c.rest.length := by
  obtain ⟨cs, hc, -⟩ := run_reads hn p h
  have := hc.length_eq
  omega

theorem run_length_lt (hn : nested.Advances) (hp : p.nullable = false)
    (h : p.run nested s c = some m) : m.after.rest.length < c.rest.length := by
  obtain ⟨cs, hc, hne⟩ := run_reads hn p h
  have hlen := hc.length_eq
  have hpos := List.length_pos_iff.mpr (hne hp)
  omega

/-! ### Repetition -/

/-- Repeating a step from the match `m` on ends with a second match: the step fails there, after
blanks, and no sooner. -/
inductive Loop (s : Spacing) (step : Cursor → Option Match) : Match → Match → Prop where
  | stop {m : Match} (h : step (m.after.skip s) = none) : Loop s step m m
  | more {m n last : Match} (h : step (m.after.skip s) = some n)
      (rest : Loop s step ⟨m.tokens ++ n.tokens, n.after⟩ last) : Loop s step m last

/-- With fuel for every character that is left, the bounded repetition stops only where the step
fails. -/
theorem loop_repeated {step : Cursor → Option Match}
    (hstep : ∀ c n, step c = some n → n.after.rest.length < c.rest.length) :
    ∀ (fuel : Nat) (m : Match), m.after.rest.length ≤ fuel → Loop s step m (repeated s step fuel m) := by
  intro fuel
  induction fuel with
  | zero =>
    intro m hm
    refine .stop ?_
    cases h : step (m.after.skip s) with
    | none => rfl
    | some n =>
      have hlt := hstep _ _ h
      have hle := Cursor.skip_length_le s m.after
      omega
  | succ fuel ih =>
    intro m hm
    rw [repeated]
    cases h : step (m.after.skip s) with
    | none => exact .stop h
    | some n =>
      have hlt := hstep _ _ h
      have hle := Cursor.skip_length_le s m.after
      exact .more h (ih _ (by simp only; omega))

theorem Loop.unique {step : Cursor → Option Match} {last last' : Match}
    (h : Loop s step m last) (h' : Loop s step m last') : last = last' := by
  induction h with
  | stop hs =>
    cases h' with
    | stop _ => rfl
    | more hs' _ => rw [hs] at hs'; cases hs'
  | more hs _ ih =>
    cases h' with
    | stop hs' => rw [hs] at hs'; cases hs'
    | more hs' rest' =>
      rw [hs] at hs'
      cases hs'
      exact ih rest'

/-- A repetition is a first match and the loop after it, or nothing where there is no first
match. -/
theorem run_many_iff (hn : nested.Advances) (hp : p.nullable = false) :
    (many p).run nested s c = some m ↔
      p.run nested s c = none ∧ m = ⟨[], c⟩ ∨
        ∃ m₁, p.run nested s c = some m₁ ∧ Loop s (p.run nested s) m₁ m := by
  cases h : p.run nested s c with
  | none => simp [h, eq_comm]
  | some m₁ =>
    have hloop := loop_repeated (s := s) (fun c n hn' => run_length_lt (s := s) (c := c) hn hp hn')
      m₁.after.rest.length m₁ le_rfl
    constructor
    · intro hm
      obtain rfl : repeated s (p.run nested s) m₁.after.rest.length m₁ = m := by simpa [h] using hm
      exact .inr ⟨m₁, rfl, hloop⟩
    · rintro (⟨h', -⟩ | ⟨m', h', hm⟩)
      · simp at h'
      · obtain rfl : m₁ = m' := by simpa using h'
        simp [h, hm.unique hloop]

/-- Where no blanks are left to skip, a repetition is a loop from nothing on. -/
theorem run_many_iff_loop (hn : nested.Advances) (hp : p.nullable = false) (hc : c.skip s = c) :
    (many p).run nested s c = some m ↔ Loop s (p.run nested s) ⟨[], c⟩ m := by
  rw [run_many_iff hn hp]
  constructor
  · rintro (⟨h, rfl⟩ | ⟨m₁, h, hloop⟩)
    · exact .stop (by simpa [hc] using h)
    · exact .more (by simpa [hc] using h) (by simpa using hloop)
  · intro hloop
    cases hloop with
    | stop h => exact .inl ⟨by simpa [hc] using h, rfl⟩
    | more h rest => exact .inr ⟨_, by simpa [hc] using h, by simpa using rest⟩

/-! ### Regular languages -/

/-- The characters a pattern can read where no blanks are skipped. What must be absent reads
nothing, and what follows is not looked at. -/
def Denotes : Pattern → List Char → Prop
  | .literal ls, cs => cs = ls
  | .letters ls, cs => cs.map Char.toLower = ls
  | .one k, cs => ∃ r, k.contains r = true ∧ cs = [r]
  | .start, cs => cs = []
  | .finish, cs => cs = []
  | .seq p q, cs => ∃ as bs, cs = as ++ bs ∧ p.Denotes as ∧ q.Denotes bs
  | .alt p q, cs => p.Denotes cs ∨ q.Denotes cs
  | .many p, cs => ∃ parts : List (List Char), cs = parts.flatten ∧ ∀ part ∈ parts, p.Denotes part
  | .opt p, cs => cs = [] ∨ p.Denotes cs
  | .absent _, cs => cs = []
  | .rule _ _ body, cs => body.Denotes cs
  | .nested, _ => True

/-- No rule inside the pattern brings blanks back. -/
def isTight : Pattern → Bool
  | .seq p q => p.isTight && q.isTight
  | .alt p q => p.isTight && q.isTight
  | .many p => p.isTight
  | .opt p => p.isTight
  | .absent p => p.isTight
  | .rule _ spacing body => (spacing != some .loose) && body.isTight
  | .nested => false
  | _ => true

/-- **Inside a rule matched as a whole, what is read belongs to the language of the pattern.** -/
theorem run_denotes : ∀ (p : Pattern) {s : Spacing} {c : Cursor} {m : Match}, s ≠ .loose →
    p.isTight = true → p.run nested s c = some m → ∃ cs, c.Reads cs m.after ∧ p.Denotes cs := by
  intro p
  induction p with
  | literal ls =>
    intro s c m _ _ h
    obtain ⟨d, hd, rfl⟩ := bare_eq_some.mp h
    exact ⟨ls, takeLiteral_reads ls hd, rfl⟩
  | letters ls =>
    intro s c m _ _ h
    obtain ⟨d, hd, rfl⟩ := bare_eq_some.mp h
    exact takeLetters_reads ls hd
  | one k =>
    intro s c m _ _ h
    obtain ⟨d, hd, rfl⟩ := bare_eq_some.mp h
    obtain ⟨r, hk, hr⟩ := takeOne_reads hd
    exact ⟨[r], hr, r, hk, rfl⟩
  | start =>
    intro s c m _ _ h
    obtain ⟨-, rfl⟩ := run_start_eq_some.mp h
    exact ⟨[], Cursor.reads_nil c, rfl⟩
  | finish =>
    intro s c m _ _ h
    obtain ⟨-, rfl⟩ := run_finish_eq_some.mp h
    exact ⟨[], Cursor.reads_nil c, rfl⟩
  | seq p q ihp ihq =>
    intro s c m hs ht h
    obtain ⟨htp, htq⟩ := Bool.and_eq_true_iff.mp ht
    obtain ⟨m₁, m₂, h₁, h₂, rfl⟩ := run_seq_eq_some.mp h
    rw [Cursor.skip_eq_self hs] at h₂
    obtain ⟨as, ha, hpa⟩ := ihp hs htp h₁
    obtain ⟨bs, hb, hqb⟩ := ihq hs htq h₂
    exact ⟨as ++ bs, ha.append hb, as, bs, rfl, hpa, hqb⟩
  | alt p q ihp ihq =>
    intro s c m hs ht h
    obtain ⟨htp, htq⟩ := Bool.and_eq_true_iff.mp ht
    rcases run_alt_eq_some.mp h with h | ⟨-, h⟩
    · obtain ⟨cs, hc, hp⟩ := ihp hs htp h
      exact ⟨cs, hc, .inl hp⟩
    · obtain ⟨cs, hc, hq⟩ := ihq hs htq h
      exact ⟨cs, hc, .inr hq⟩
  | many p ihp =>
    intro s c m hs ht h
    have hparts : ∃ parts : List (List Char), c.Reads parts.flatten m.after ∧
        ∀ part ∈ parts, p.Denotes part := by
      refine run_many_keeps (P := fun m => ∃ parts : List (List Char), c.Reads parts.flatten m.after ∧
        ∀ part ∈ parts, p.Denotes part) ⟨[], Cursor.reads_nil c, by simp⟩ ?_ ?_ h
      · intro n hn
        obtain ⟨cs, hc, hd⟩ := ihp hs ht hn
        exact ⟨[cs], by simpa using hc, by simpa using hd⟩
      · rintro m n ⟨parts, hc, hparts⟩ hn
        rw [Cursor.skip_eq_self hs] at hn
        obtain ⟨cs, hd, hcs⟩ := ihp hs ht hn
        refine ⟨parts ++ [cs], by simpa using hc.append hd, fun part hpart => ?_⟩
        rcases List.mem_append.mp hpart with hpart | hpart
        · exact hparts part hpart
        · rwa [List.mem_singleton.mp hpart]
    obtain ⟨parts, hc, hparts⟩ := hparts
    exact ⟨parts.flatten, hc, parts, rfl, hparts⟩
  | opt p ihp =>
    intro s c m hs ht h
    rcases run_opt_eq_some.mp h with h | ⟨-, rfl⟩
    · obtain ⟨cs, hc, hp⟩ := ihp hs ht h
      exact ⟨cs, hc, .inr hp⟩
    · exact ⟨[], Cursor.reads_nil c, .inl rfl⟩
  | absent p ihp =>
    intro s c m _ _ h
    obtain ⟨-, rfl⟩ := run_absent_eq_some.mp h
    exact ⟨[], Cursor.reads_nil c, rfl⟩
  | rule r spacing body ih =>
    intro s c m hs ht h
    obtain ⟨hsp, htb⟩ := Bool.and_eq_true_iff.mp ht
    obtain ⟨m₁, h₁, rfl⟩ := run_rule_eq_some.mp h
    have hs' : spacing.getD s ≠ .loose := by
      cases spacing with
      | none => exact hs
      | some s' => simpa using hsp
    obtain ⟨cs, hc, hb⟩ := ih hs' htb h₁
    exact ⟨cs, by simpa using hc, hb⟩
  | nested =>
    intro s c m _ ht _
    simp [isTight] at ht

end Pattern

end FlowSelect
