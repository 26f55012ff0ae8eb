/-
# Filter texts compose

Texts that compile can be put in brackets and joined by the signs of the language, and the result
compiles to the predicates joined in the same way (`compileText_composes`). The texts in the
brackets are arbitrary; what matters is that a bracket is neither a sign for "not" nor part of one,
and that a text in brackets is matched as it was matched alone (`Language.primary_in_brackets`).

Key theorems: `Query.written_brackets`, `Query.written_not`, `Query.written_joined`,
`compileText_composes`.
-/
import FlowSelect.Proofs.Grammar.Brackets
import FlowSelect.Proofs.Query.Reading

namespace FlowSelect

/-- Two formulas joined by a connective. -/
def Connective.join {α : Type} : Connective → Formula α → Formula α → Formula α
  | .and, f, g => .and f g
  | .or, f, g => .or f g

namespace Query

open Pattern FlowSelect.Language

variable {s : Spacing} {c : Cursor}

theorem items?_append : ∀ {ts us : List Token} {xs ys : List Item},
    items? ts = some xs → items? us = some ys → items? (ts ++ us) = some (xs ++ ys)
  | [], us, xs, ys, h, h' => by
    obtain rfl : xs = [] := by simpa [items?, eq_comm] using h
    simpa using h'
  | t :: ts, us, xs, ys, h, h' => by
    rw [items?] at h
    rw [List.cons_append, items?]
    cases hx : item? t with
    | none => simp [hx] at h
    | some x =>
      cases hxs : items? ts with
      | none => simp [hx, hxs] at h
      | some xs' =>
        obtain rfl : x :: xs' = xs := by simpa [hx, hxs] using h
        rw [items?_append hxs h']
        rfl

/-- An operand, a chain of links and the end of the text write the query of the members. -/
theorem written_of_chain {cs : List Char} {n p l : Match} {xs ys zs : List Item} {q : Query}
    (hn : (Pattern.many negation).run matchNested .loose (Cursor.skip .loose ⟨0, cs⟩) = some n)
    (hp : primary.run matchNested .loose (n.after.skip .loose) = some p)
    (hl : Loop .loose (link.run matchNested .loose) ⟨[], p.after.skip .loose⟩ l)
    (hend : (l.after.skip .loose).rest = []) (hx : items? n.tokens = some xs)
    (hy : items? p.tokens = some ys) (hz : items? l.tokens = some zs)
    (hq : ofItems? (xs ++ (ys ++ zs)) = some q) : Written cs q := by
  have hexpr := (run_expr_iff matchNested_advances).mpr ⟨n, p, l, hn, hp, hl, rfl⟩
  rw [← matchNested_eq_run] at hexpr
  refine ⟨_, _, hexpr, hend, rfl, ?_⟩
  simp only [item?]
  rw [items?_append hx (items?_append hy hz)]
  simp [hq]

/-- A text in brackets is an operand: its query, further on. -/
theorem operand_in_brackets {cs : List Char} {q : Query} (h : Written cs q) (offset : Nat)
    (more : List Char) :
    ∃ p, primary.run matchNested .loose ⟨offset, '(' :: (cs ++ ')' :: more)⟩ = some p ∧
      p.after.rest = more ∧ items? p.tokens = some [.operand (q.moved (offset + 1))] := by
  obtain ⟨m, e, hm, hend, htok, hq⟩ := h
  refine ⟨_, primary_in_brackets hm hend offset more, rfl, ?_⟩
  rw [items?_movedAll, htok]
  simp [items?, hq, Item.moved]

/-- There is no sign for "not" where none can start. -/
theorem no_negation {r : Char} {rest : List Char} (hc : c.rest = r :: rest)
    (hr : Cursor.isBlank r = false) (hfirst : negation.first r = false) :
    (Pattern.many negation).run matchNested .loose c = some ⟨[], c⟩ := by
  have hneg : negation.run matchNested .loose c = none :=
    run_eq_none matchNested_advances rfl hc hr hfirst
  simp [run, hneg, bare]

/-- A chain ends with the text. -/
theorem chain_ends {m : Match} (h : m.after.rest = []) :
    Loop .loose (link.run matchNested .loose) m m := by
  refine .stop ?_
  cases hl : link.run matchNested .loose (m.after.skip .loose) with
  | none => rfl
  | some k =>
    have hlt := run_length_lt matchNested_advances (p := link) rfl hl
    rw [Cursor.skip_of_nil .loose h, h] at hlt
    simp at hlt

/-- **A text in brackets writes its query**, further on. -/
theorem written_brackets {cs : List Char} {q : Query} (h : Written cs q) :
    Written ('(' :: (cs ++ [')'])) (q.moved 1) := by
  obtain ⟨p, hp, hrest, hitems⟩ := operand_in_brackets h 0 []
  have hskip : Cursor.skip .loose ⟨0, '(' :: (cs ++ [')'])⟩ = ⟨0, '(' :: (cs ++ [')'])⟩ :=
    Cursor.skip_of_not_blank .loose rfl rfl
  have hafter : (p.after.skip .loose).rest = [] := by rw [Cursor.skip_of_nil .loose hrest, hrest]
  refine written_of_chain (n := ⟨[], ⟨0, '(' :: (cs ++ [')'])⟩⟩) (p := p)
    (l := ⟨[], p.after.skip .loose⟩) ?_ ?_ (chain_ends hafter) ?_ rfl hitems rfl rfl
  · rw [hskip]
    exact no_negation rfl rfl rfl
  · rw [hskip]
    exact hp
  · rw [Cursor.skip_skip]
    exact hafter

/-! ### Signs -/

/-- Before a bracket, the characters `sign` and blanks around them are a match of the pattern `p`
for the member `x` of an expression. -/
def IsSign (p : Pattern) (x : Item) (sign : List Char) : Prop :=
  ∀ offset rest, ∃ m offset',
    p.run matchNested .loose (Cursor.skip .loose ⟨offset, sign ++ '(' :: rest⟩) = some m ∧
      items? m.tokens = some [x] ∧ m.after.skip .loose = ⟨offset', '(' :: rest⟩

theorem isSign_not : IsSign negation .not "not ".toList := fun _ _ => ⟨_, _, rfl, rfl, rfl⟩

theorem isSign_mark : IsSign negation .not "!".toList := fun _ _ => ⟨_, _, rfl, rfl, rfl⟩

theorem isSign_and : IsSign connective (.link .and) " and ".toList := fun _ _ => ⟨_, _, rfl, rfl, rfl⟩

theorem isSign_ampersands : IsSign connective (.link .and) "&&".toList :=
  fun _ _ => ⟨_, _, rfl, rfl, rfl⟩

theorem isSign_or : IsSign connective (.link .or) " or ".toList := fun _ _ => ⟨_, _, rfl, rfl, rfl⟩

theorem isSign_bars : IsSign connective (.link .or) "||".toList := fun _ _ => ⟨_, _, rfl, rfl, rfl⟩

/-- A sign for "not" before a bracket is matched once. -/
theorem one_negation {sign : List Char} (hsign : IsSign negation .not sign) (rest : List Char) :
    ∃ m offset, (Pattern.many negation).run matchNested .loose
        (Cursor.skip .loose ⟨0, sign ++ '(' :: rest⟩) = some m ∧
      items? m.tokens = some [.not] ∧ m.after.skip .loose = ⟨offset, '(' :: rest⟩ := by
  obtain ⟨m, offset, hm, hitem, hafter⟩ := hsign 0 rest
  refine ⟨m, offset, (run_many_iff matchNested_advances rfl).mpr (.inr ⟨m, hm, .stop ?_⟩), hitem,
    hafter⟩
  rw [hafter]
  exact run_eq_none matchNested_advances rfl rfl rfl rfl

/-- **A text in brackets after a sign for "not" writes the negated query.** -/
theorem written_not {cs sign : List Char} {q : Query} (h : Written cs q)
    (hsign : IsSign negation .not sign) :
    ∃ d, Written (sign ++ '(' :: (cs ++ [')'])) (.not (q.moved d)) := by
  obtain ⟨m, offset, hm, hitem, hafter⟩ := one_negation hsign (cs ++ [')'])
  obtain ⟨p, hp, hrest, hitems⟩ := operand_in_brackets h offset []
  have hend : (p.after.skip .loose).rest = [] := by rw [Cursor.skip_of_nil .loose hrest, hrest]
  refine ⟨offset + 1, written_of_chain (n := m) (p := p) (l := ⟨[], p.after.skip .loose⟩) hm ?_
    (chain_ends hend) ?_ hitem hitems rfl rfl⟩
  · rw [hafter]
    exact hp
  · rw [Cursor.skip_skip]
    exact hend

/-- **Two texts in brackets with a sign between them write the joined query.** -/
theorem written_joined {ts us sign : List Char} {q r : Query} {k : Connective} (ht : Written ts q)
    (hu : Written us r) (hsign : IsSign connective (.link k) sign) :
    ∃ d d', Written ('(' :: (ts ++ ')' :: (sign ++ '(' :: (us ++ [')']))))
      (ofChain (q.moved d) [(k, r.moved d')]) := by
  obtain ⟨p, hp, hrest, hitems⟩ := operand_in_brackets ht 0 (sign ++ '(' :: (us ++ [')']))
  obtain ⟨m, offset, hm, hitem, hafter⟩ := hsign p.after.offset (us ++ [')'])
  obtain ⟨p', hp', hrest', hitems'⟩ := operand_in_brackets hu offset []
  have hpafter : p.after = ⟨p.after.offset, sign ++ '(' :: (us ++ [')'])⟩ := by rw [← hrest]
  -- the one link of the chain
  have hlink : link.run matchNested .loose (p.after.skip .loose) =
      some ⟨m.tokens ++ ([] ++ p'.tokens), p'.after⟩ := by
    refine run_link_iff.mpr ⟨m, ⟨[], ⟨offset, '(' :: (us ++ [')'])⟩⟩, p', ?_, ?_, ?_, rfl⟩
    · rw [hpafter]
      exact hm
    · rw [hafter]
      exact no_negation rfl rfl rfl
    · rw [Cursor.skip_of_not_blank .loose rfl rfl]
      exact hp'
  have hloop : Loop .loose (link.run matchNested .loose) ⟨[], p.after.skip .loose⟩
      ⟨[] ++ (m.tokens ++ ([] ++ p'.tokens)), p'.after⟩ :=
    .more (n := ⟨m.tokens ++ ([] ++ p'.tokens), p'.after⟩) (by rw [Cursor.skip_skip]; exact hlink)
      (chain_ends hrest')
  have hlinks : items? ([] ++ (m.tokens ++ ([] ++ p'.tokens))) =
      some [.link k, .operand (r.moved (offset + 1))] := items?_append hitem hitems'
  have hend : (p'.after.skip .loose).rest = [] := by rw [Cursor.skip_of_nil .loose hrest', hrest']
  have hskip : ∀ rest, Cursor.skip .loose ⟨0, '(' :: rest⟩ = ⟨0, '(' :: rest⟩ :=
    fun rest => Cursor.skip_of_not_blank .loose rfl rfl
  have hnots := no_negation (c := ⟨0, '(' :: (ts ++ ')' :: (sign ++ '(' :: (us ++ [')'])))⟩) rfl rfl rfl
  rw [← hskip] at hnots hp
  exact ⟨1, offset + 1, written_of_chain hnots hp hloop hend rfl hitems hlinks rfl⟩

end Query

/-! ### Compiling -/

variable {s : Schema} {t u text : String} {p q : Predicate} {sign : List Char}

attribute [local simp] Query.compile

theorem Query.compile_not_iff {x : Query} :
    (Query.not x).compile s = .ok p ↔ ∃ p', x.compile s = .ok p' ∧ p = p'.complement := by
  cases hx : x.compile s <;> simp [hx, Except.map, eq_comm]

theorem Query.compile_and_iff {x y : Query} :
    (Query.and x y).compile s = .ok p ↔
      ∃ p' q', x.compile s = .ok p' ∧ y.compile s = .ok q' ∧ p = .and p' q' := by
  cases hx : x.compile s <;> cases hy : y.compile s <;> simp [hx, hy, eq_comm]

theorem Query.compile_or_iff {x y : Query} :
    (Query.or x y).compile s = .ok p ↔
      ∃ p' q', x.compile s = .ok p' ∧ y.compile s = .ok q' ∧ p = .or p' q' := by
  cases hx : x.compile s <;> cases hy : y.compile s <;> simp [hx, hy, eq_comm]

theorem compileText_brackets (htext : text.toList = '(' :: (t.toList ++ [')']))
    (h : compileText s t = .ok (some p)) : compileText s text = .ok (some p) := by
  rw [compileText_eq_some_iff] at h ⊢
  obtain ⟨x, hx, hp⟩ := h
  rw [htext]
  exact ⟨x.moved 1, Query.written_brackets hx, Query.compile_moved_of_ok 1 hp⟩

theorem compileText_not (hsign : Query.IsSign Language.negation .not sign)
    (htext : text.toList = sign ++ '(' :: (t.toList ++ [')']))
    (h : compileText s t = .ok (some p)) : compileText s text = .ok (some p.complement) := by
  rw [compileText_eq_some_iff] at h ⊢
  obtain ⟨x, hx, hp⟩ := h
  obtain ⟨d, hd⟩ := Query.written_not hx hsign
  rw [htext]
  refine ⟨_, hd, ?_⟩
  rw [Query.compile_not_iff]
  exact ⟨p, Query.compile_moved_of_ok d hp, rfl⟩

theorem compileText_joined {k : Connective} (hsign : Query.IsSign Language.connective (.link k) sign)
    (htext : text.toList = '(' :: (t.toList ++ ')' :: (sign ++ '(' :: (u.toList ++ [')']))))
    (ht : compileText s t = .ok (some p)) (hu : compileText s u = .ok (some q)) :
    compileText s text = .ok (some (k.join p q)) := by
  rw [compileText_eq_some_iff] at ht hu ⊢
  obtain ⟨x, hx, hp⟩ := ht
  obtain ⟨y, hy, hq⟩ := hu
  obtain ⟨d, d', hw⟩ := Query.written_joined hx hy hsign
  rw [htext]
  refine ⟨_, hw, ?_⟩
  have hp' := Query.compile_moved_of_ok d hp
  have hq' := Query.compile_moved_of_ok d' hq
  cases k with
  | and =>
    show (Query.and _ _).compile s = _
    rw [Query.compile_and_iff]
    exact ⟨p, q, hp', hq', rfl⟩
  | or =>
    show (Query.or _ _).compile s = _
    rw [Query.compile_or_iff]
    exact ⟨p, q, hp', hq', rfl⟩

/-- **Compiling is a homomorphism on texts.** Brackets keep the predicate of a text, a sign for
"not" takes its complement, and the signs for "and" and "or" join the predicates of two texts. The
engine text is a function of the predicate, so it is the same too. -/
theorem compileText_composes (s : Schema) (t u : String) (p q : Predicate)
    (ht : compileText s t = .ok (some p)) (hu : compileText s u = .ok (some q)) :
    compileText s ("(" ++ t ++ ")") = .ok (some p) ∧
      compileText s ("not (" ++ t ++ ")") = .ok (some p.complement) ∧
      compileText s ("!(" ++ t ++ ")") = .ok (some p.complement) ∧
      compileText s ("(" ++ t ++ ") and (" ++ u ++ ")") = .ok (some (.and p q)) ∧
      compileText s ("(" ++ t ++ ")&&(" ++ u ++ ")") = .ok (some (.and p q)) ∧
      compileText s ("(" ++ t ++ ") or (" ++ u ++ ")") = .ok (some (.or p q)) ∧
      compileText s ("(" ++ t ++ ")||(" ++ u ++ ")") = .ok (some (.or p q)) := by
  refine ⟨compileText_brackets ?_ ht, compileText_not Query.isSign_not ?_ ht,
    compileText_not Query.isSign_mark ?_ ht, compileText_joined Query.isSign_and ?_ ht hu,
    compileText_joined Query.isSign_ampersands ?_ ht hu,
    compileText_joined Query.isSign_or ?_ ht hu,
    compileText_joined Query.isSign_bars ?_ ht hu⟩ <;> simp

/-- A masked column at the start of a bracket, and a quoted text that looks like a sign. -/
theorem compileText_composes_lookalikes :
    compileText .empty "e0id6 & 2 == 2" =
        .ok (some (.atom ⟨.masked (.column "e0id6") .and 2, .eq, .int 2⟩)) ∧
      compileText .empty "e0id80 \") or (\"" =
        .ok (some (.atom ⟨.column "e0id80", .eq, .text ") or ("⟩)) ∧
      compileText .empty ("(" ++ "e0id6 & 2 == 2" ++ ") or (" ++ "e0id80 \") or (\"" ++ ")") =
        .ok (some (.or (.atom ⟨.masked (.column "e0id6") .and 2, .eq, .int 2⟩)
          (.atom ⟨.column "e0id80", .eq, .text ") or ("⟩))) := by
  have ht : compileText .empty "e0id6 & 2 == 2" =
      .ok (some (.atom ⟨.masked (.column "e0id6") .and 2, .eq, .int 2⟩)) := by decide +kernel
  have hu : compileText .empty "e0id80 \") or (\"" =
      .ok (some (.atom ⟨.column "e0id80", .eq, .text ") or ("⟩)) := by decide +kernel
  exact ⟨ht, hu, (compileText_composes _ _ _ _ _ ht hu).2.2.2.2.2.1⟩

end FlowSelect
