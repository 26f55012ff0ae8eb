/-
# The tightest weakening of a formula

A formula is relaxed by leaving out the atoms that are not exact. Leaving an atom out reads it as true
(`Formula.relax_eval`): an `AND` loses the side that vanishes, an `OR` vanishes with either side, and
what is left constrains exact atoms only (`Formula.mem_atoms_of_relax`). Formulas have no negation, so
no valuation of the other atoms makes a formula true if that reading does not (`Formula.eval_mono`).
The relaxed formula therefore asks for what the exact atoms alone decide, no less and no more
(`relax_is_tightest_weakening`).

Key theorems: `Formula.eval_mono`, `Formula.relax_eval`, `Formula.relax_eq_none_iff`,
`relax_is_tightest_weakening`.
-/
import Mathlib
import FlowSelect.Formula

namespace FlowSelect

namespace Formula

variable {α : Type} {v w : α → Bool}

attribute [local simp] eval atoms meet? relax

theorem eval_congr {p : Formula α} : (∀ a ∈ p.atoms, v a = w a) → p.eval v = p.eval w := by
  induction p with
  | atom a => exact fun h => h a List.mem_cons_self
  | and l r ihl ihr | or l r ihl ihr =>
    intro h
    have hl := ihl fun a ha => h a (List.mem_append_left _ ha)
    have hr := ihr fun a ha => h a (List.mem_append_right _ ha)
    rw [eval, eval, hl, hr]

/-- A formula has no negation, so what makes more of its atoms true makes it no less true. -/
theorem eval_mono {p : Formula α} :
    (∀ a ∈ p.atoms, v a = true → w a = true) → p.eval v = true → p.eval w = true := by
  induction p with
  | atom a => exact fun hvw => hvw a List.mem_cons_self
  | and l r ihl ihr =>
    intro hvw h
    have hl := ihl fun a ha => hvw a (List.mem_append_left _ ha)
    have hr := ihr fun a ha => hvw a (List.mem_append_right _ ha)
    simp only [eval, Bool.and_eq_true] at h ⊢
    exact h.imp hl hr
  | or l r ihl ihr =>
    intro hvw h
    have hl := ihl fun a ha => hvw a (List.mem_append_left _ ha)
    have hr := ihr fun a ha => hvw a (List.mem_append_right _ ha)
    simp only [eval, Bool.or_eq_true] at h ⊢
    exact h.imp hl hr

/-- A formula is false where all atoms are. -/
theorem eval_none_true (p : Formula α) : p.eval (fun _ => false) = false := by
  induction p with
  | atom a => rfl
  | and l r ihl _ => rw [eval, ihl, Bool.false_and]
  | or l r ihl ihr => rw [eval, ihl, ihr, Bool.or_false]

/-- **An atom that is left out is read as true.** -/
theorem relax_eval (exact : α → Bool) (v : α → Bool) : ∀ p : Formula α,
    (p.relax exact).all (eval v) = p.eval fun a => !exact a || v a
  | .atom a => by
    cases h : exact a <;> simp [h]
  | .and l r => by
    rw [eval, ← relax_eval exact v l, ← relax_eval exact v r, relax]
    cases l.relax exact <;> cases r.relax exact <;> simp
  | .or l r => by
    rw [eval, ← relax_eval exact v l, ← relax_eval exact v r, relax]
    cases l.relax exact <;> cases r.relax exact <;> simp

/-- A formula of exact atoms stays as it is. -/
theorem relax_eq_self {exact : α → Bool} {p : Formula α} :
    (∀ a ∈ p.atoms, exact a = true) → p.relax exact = some p := by
  induction p with
  | atom a =>
    intro h
    rw [relax, if_pos (h a List.mem_cons_self)]
  | and l r ihl ihr | or l r ihl ihr =>
    intro h
    have hl := ihl fun a ha => h a (List.mem_append_left _ ha)
    have hr := ihr fun a ha => h a (List.mem_append_right _ ha)
    simp [hl, hr]

/-- A formula vanishes exactly if the atoms that are left out make it true. -/
theorem relax_eq_none_iff (exact : α → Bool) (p : Formula α) :
    p.relax exact = none ↔ p.eval (fun a => !exact a) = true := by
  have hrelax := relax_eval exact (fun _ => false) p
  simp only [Bool.or_false] at hrelax
  rw [← hrelax]
  cases p.relax exact with
  | none => simp
  | some q => simp [eval_none_true]

/-- What is left are atoms of the formula that were to be kept. -/
theorem mem_atoms_of_relax {exact : α → Bool} : ∀ {p q : Formula α}, p.relax exact = some q →
    ∀ a ∈ q.atoms, a ∈ p.atoms ∧ exact a = true
  | .atom b, q, h, a, ha => by
    rw [relax] at h
    split at h
    · next hb =>
      obtain rfl : atom b = q := Option.some.inj h
      obtain rfl : a = b := by simpa using ha
      exact ⟨ha, hb⟩
    · cases h
  | .and l r, q, h, a, ha => by
    have hleft : ∀ l', l.relax exact = some l' → a ∈ l'.atoms → a ∈ l.atoms ++ r.atoms ∧ exact a = true :=
      fun l' hl ha => (mem_atoms_of_relax hl a ha).imp_left (List.mem_append_left _)
    have hright : ∀ r', r.relax exact = some r' → a ∈ r'.atoms → a ∈ l.atoms ++ r.atoms ∧ exact a = true :=
      fun r' hr ha => (mem_atoms_of_relax hr a ha).imp_left (List.mem_append_right _)
    rw [relax] at h
    -- a side that vanishes leaves the other one as it is
    cases hl : l.relax exact with
    | none =>
      rw [hl, meet?] at h
      exact hright q h ha
    | some l' =>
      cases hr : r.relax exact with
      | none =>
        rw [hl, hr, meet?] at h
        obtain rfl := Option.some.inj h
        exact hleft l' hl ha
      | some r' =>
        rw [hl, hr, meet?] at h
        obtain rfl := Option.some.inj h
        exact (List.mem_append.mp ha).elim (hleft l' hl) (hright r' hr)
  | .or l r, q, h, a, ha => by
    rw [relax] at h
    split at h
    · next l' r' hl hr =>
      obtain rfl := Option.some.inj h
      rcases List.mem_append.mp ha with ha | ha
      · exact (mem_atoms_of_relax hl a ha).imp_left (List.mem_append_left _)
      · exact (mem_atoms_of_relax hr a ha).imp_left (List.mem_append_right _)
    · cases h

end Formula

/-- **Relaxing gives the tightest weakening.** The relaxed formula, where nothing left is read as true,
is true under a valuation exactly if the formula is true under some valuation with the same exact
atoms. It has exact atoms only, and nothing is left exactly if the formula is true as soon as all
other atoms are. -/
theorem relax_is_tightest_weakening {α : Type} (p : Formula α) (exact : α → Bool) :
    (∀ v : α → Bool, (p.relax exact).all (Formula.eval v) = true ↔
      ∃ w : α → Bool, (∀ a ∈ p.atoms, exact a = true → w a = v a) ∧ p.eval w = true) ∧
    (∀ q, p.relax exact = some q → ∀ a ∈ q.atoms, exact a = true) ∧
    (p.relax exact = none ↔ p.eval (fun a => !exact a) = true) := by
  refine ⟨fun v => ?_, fun q hq a ha => (Formula.mem_atoms_of_relax hq a ha).2, p.relax_eq_none_iff exact⟩
  rw [Formula.relax_eval]
  constructor
  · -- the most generous valuation makes all other atoms true
    intro h
    exact ⟨fun a => !exact a || v a, fun a _ ha => by simp [ha], h⟩
  · rintro ⟨w, hagree, hw⟩
    refine Formula.eval_mono (fun a ha hwa => ?_) hw
    by_cases hexact : exact a = true
    · rw [← hagree a ha hexact, hwa, Bool.or_true]
    · simp [hexact]

/-- Of `(a AND (b OR x)) OR (y AND c)` without `x` and `y`, `a OR c` is left: `b` goes with `x`. -/
theorem relax_is_tightest_weakening_mixed :
    let p : Formula Char :=
      .or (.and (.atom 'a') (.or (.atom 'b') (.atom 'x'))) (.and (.atom 'y') (.atom 'c'))
    let exact : Char → Bool := fun a => a != 'x' && a != 'y'
    let q : Formula Char := .or (.atom 'a') (.atom 'c')
    p.relax exact = some q ∧ (∀ a ∈ q.atoms, exact a = true) ∧
      ¬∃ w : Char → Bool, (∀ a ∈ p.atoms, exact a = true → w a = (a == 'b')) ∧ p.eval w = true := by
  intro p exact q
  have hq : p.relax exact = some q := by decide
  obtain ⟨htight, hexact, -⟩ := relax_is_tightest_weakening p exact
  refine ⟨hq, hexact q hq, fun hw => ?_⟩
  have htrue := (htight fun a => a == 'b').mpr hw
  rw [hq] at htrue
  revert htrue
  decide

end FlowSelect
