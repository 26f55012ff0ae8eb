/-
# The first character of a match

Which characters a match of a pattern can start with. Most alternatives of the grammar are told
apart by their first character, so this decides which of them fail.

Key definition: `Pattern.first`.
Key theorems: `Pattern.run_first`, `Pattern.run_eq_none`.
-/
import FlowSelect.Proofs.Grammar.Run

namespace FlowSelect
namespace Pattern

variable {nested : Matcher} {s : Spacing} {c : Cursor} {m : Match} {p : Pattern}

/-- Whether a match of the pattern that reads something may start with the character `r`. -/
def first (r : Char) : Pattern → Bool
  | .literal [] => false
  | .literal (l :: _) => l == r
  | .letters [] => false
  | .letters (l :: _) => l == r.toLower
  | .one k => k.contains r
  | .start => false
  | .finish => false
  | .seq p q => p.first r || p.nullable && q.first r
  | .alt p q => p.first r || q.first r
  | .many p => p.first r
  | .opt p => p.first r
  | .absent _ => false
  | .rule _ _ body => body.first r
  | .nested => true

/-- The text goes on with a character that a match of `p` may start with. -/
def StartsAt (p : Pattern) (c : Cursor) : Prop :=
  ∃ r rest, c.rest = r :: rest ∧ p.first r = true

theorem StartsAt.imp {q : Pattern} (h : p.StartsAt c)
    (hpq : ∀ r, p.first r = true → q.first r = true) : q.StartsAt c := by
  obtain ⟨r, rest, hc, hr⟩ := h
  exact ⟨r, rest, hc, hpq r hr⟩

/-- **A match stays where it is, or starts with one of the pattern's first characters.** -/
theorem run_first (hn : nested.Advances) (hc : c.skip .loose = c) :
    ∀ (p : Pattern) {s : Spacing} {m : Match}, p.run nested s c = some m →
      m.after = c ∨ p.StartsAt c := by
  have hskip : ∀ s, c.skip s = c := fun s => by
    cases s with
    | loose => exact hc
    | joined => rfl
    | tight => rfl
  intro p
  induction p with
  | literal ls =>
    intro s m h
    obtain ⟨d, hd, rfl⟩ := bare_eq_some.mp h
    obtain ⟨hr, -⟩ := takeLiteral_reads ls hd
    cases ls with
    | nil => exact .inl (by simpa [takeLiteral, eq_comm] using hd)
    | cons l ls => exact .inr ⟨l, _, hr, by simp [first]⟩
  | letters ls =>
    intro s m h
    obtain ⟨d, hd, rfl⟩ := bare_eq_some.mp h
    obtain ⟨cs, ⟨hr, -⟩, hcs⟩ := takeLetters_reads ls hd
    cases cs with
    | nil =>
      obtain rfl : ls = [] := by simpa using hcs.symm
      exact .inl (by simpa [takeLetters, eq_comm] using hd)
    | cons r cs => exact .inr ⟨r, _, hr, by simp [← hcs, first]⟩
  | one k =>
    intro s m h
    obtain ⟨d, hd, rfl⟩ := bare_eq_some.mp h
    obtain ⟨r, hk, hr, -⟩ := takeOne_reads hd
    exact .inr ⟨r, _, hr, hk⟩
  | start =>
    intro s m h
    obtain ⟨-, rfl⟩ := run_start_eq_some.mp h
    exact .inl rfl
  | finish =>
    intro s m h
    obtain ⟨-, rfl⟩ := run_finish_eq_some.mp h
    exact .inl rfl
  | seq p q ihp ihq =>
    intro s m h
    obtain ⟨m₁, m₂, h₁, h₂, rfl⟩ := run_seq_eq_some.mp h
    rcases ihp h₁ with hstay | hp
    · -- the first pattern has read nothing, so the second one starts at the same place
      have hnull : p.nullable = true := by
        by_contra hne
        have := run_length_lt hn (by simpa using hne) h₁
        rw [hstay] at this
        omega
      rw [hstay, hskip s] at h₂
      exact (ihq h₂).imp_right fun hq => hq.imp fun r hr => by simp [first, hnull, hr]
    · exact .inr (hp.imp fun r hr => by simp [first, hr])
  | alt p q ihp ihq =>
    intro s m h
    rcases run_alt_eq_some.mp h with h | ⟨-, h⟩
    · exact (ihp h).imp_right fun hp => hp.imp fun r hr => by simp [first, hr]
    · exact (ihq h).imp_right fun hq => hq.imp fun r hr => by simp [first, hr]
  | many p ihp =>
    intro s m h
    refine run_many_keeps (P := fun m => m.after = c ∨ p.StartsAt c) (.inl rfl) (fun n hn => ihp hn) ?_ h
    rintro m n (rfl | hstart) hn
    · rw [hskip] at hn
      have hround : n.after = m.after ∨ p.StartsAt m.after := ihp hn
      exact hround
    · exact .inr hstart
  | opt p ihp =>
    intro s m h
    rcases run_opt_eq_some.mp h with h | ⟨-, rfl⟩
    · exact ihp h
    · exact .inl rfl
  | absent p ihp =>
    intro s m h
    obtain ⟨-, rfl⟩ := run_absent_eq_some.mp h
    exact .inl rfl
  | rule r spacing body ih =>
    intro s m h
    obtain ⟨m₁, h₁, rfl⟩ := run_rule_eq_some.mp h
    rw [named_after]
    exact ih h₁
  | nested =>
    intro s m h
    obtain ⟨cs, hne, hr, -⟩ := hn s c m h
    obtain ⟨r, cs, rfl⟩ := List.exists_cons_of_ne_nil hne
    exact .inr ⟨r, _, hr, rfl⟩

theorem run_startsAt (hn : nested.Advances) (hc : c.skip .loose = c) (hp : p.nullable = false)
    (h : p.run nested s c = some m) : p.StartsAt c := by
  rcases run_first hn hc p h with hstay | hstart
  · have := run_length_lt hn hp h
    rw [hstay] at this
    omega
  · exact hstart

/-- A pattern does not match where the text goes on with another character. -/
theorem run_eq_none (hn : nested.Advances) (hp : p.nullable = false) {r : Char} {rest : List Char}
    (hc : c.rest = r :: rest) (hr : Cursor.isBlank r = false) (hf : p.first r = false) :
    p.run nested s c = none := by
  cases h : p.run nested s c with
  | none => rfl
  | some m =>
    obtain ⟨r', rest', hc', hr'⟩ := run_startsAt hn (Cursor.skip_of_not_blank .loose hc hr) hp h
    obtain ⟨rfl, -⟩ : r' = r ∧ rest' = rest := by simpa [hc, eq_comm] using hc'
    simp [hf] at hr'

end Pattern
end FlowSelect
