/-
# Reading a layout back

A layout in which no chain of one connective stands unbracketed in a chain of the other is read the
same whichever connective binds tighter (`Engine.read?_text`). What is read are the layout's
comparisons joined from the left (`Layout.readingAfter`), and it accepts the rows that the layout's
formula accepts (`Layout.reading_accepts`).

The reader looks for a comparison before it looks for a bracketed text. The two start alike where an
operand stands in brackets, and differ at the first sign: a bit operator is not a relation
(`operand?_layout`).

Key definitions: `Engine.Layout.Even`, `Engine.Layout.readingAfter`.
Key theorems: `Engine.comparison?_lexemes`, `Engine.expr_lexemes`, `Engine.read?_text`,
`Engine.Layout.reading_accepts`.
-/
import FlowSelect.Proofs.Engine.Lexemes

namespace FlowSelect

namespace Connective

theorem other_other (k : Connective) : k.other.other = k := by cases k <;> rfl

theorem ne_other (k : Connective) : k ≠ k.other := by cases k <;> decide

/-- The truth of what a connective joins. -/
def eval : Connective → Bool → Bool → Bool
  | .and, a, b => a && b
  | .or, a, b => a || b

theorem eval_assoc (k : Connective) (a b c : Bool) : k.eval (k.eval a b) c = k.eval a (k.eval b c) := by
  cases k <;> simp [eval, Bool.and_assoc, Bool.or_assoc]

theorem accepts_join (k : Connective) (row : Row) (p q : Predicate) :
    Predicate.accepts row (k.join p q) = k.eval (p.accepts row) (q.accepts row) := by
  cases k <;> rfl

end Connective

/-! ### Constants -/

/-- A constant as it is read back: signed where it can be. -/
def Constant.settled : Constant → Constant
  | .uint n => if n.toNat < 2 ^ 63 then .int (Int64.ofInt n.toNat) else .uint n
  | k => k

theorem toInt_ofInt_toNat {n : UInt64} (h : n.toNat < 2 ^ 63) : (Int64.ofInt n.toNat).toInt = n.toNat :=
  Int64.toInt_ofInt_of_le (by omega) (by omega)

/-- A comparison as it is read back. -/
def Comparison.settled (c : Comparison) : Comparison := { c with constant := c.constant.settled }

theorem Comparison.settled_accepts (row : Row) (c : Comparison) :
    c.settled.accepts row = c.accepts row := by
  obtain ⟨o, r, k⟩ := c
  have hrelated : ∀ value, related r value k.settled = related r value k := by
    intro value
    unfold Constant.settled
    split
    · next n =>
      split
      · next hn =>
        cases value <;> cases r <;> simp [related, toInt_ofInt_toNat hn]
      · rfl
    · rfl
  unfold accepts settled
  cases o.value? row with
  | none => rfl
  | some value => exact hrelated value

namespace Engine

theorem signed?_toInt (n : Int64) : signed? n.toInt = some n := by
  rw [signed?, if_pos ⟨n.le_toInt, n.toInt_lt⟩, Int64.ofInt_toInt]

theorem constant?_word (n : Int) : constant? (.word (toString n)) = ofInteger? n := by
  rw [constant?, integer?_toString, Option.bind_some]

theorem constant?_lexeme (k : Constant) : constant? k.lexeme = some k.settled := by
  cases k with
  | int n =>
    rw [Constant.lexeme, constant?_word, ofInteger?, signed?_toInt]
    rfl
  | uint n =>
    have hlt := n.toNat_lt
    rw [Constant.lexeme, constant?_word, ofInteger?, Constant.settled]
    by_cases hn : n.toNat < 2 ^ 63
    · have hsigned : signed? (n.toNat : Int) = some (Int64.ofInt n.toNat) := if_pos (by omega)
      rw [hsigned, if_pos hn]
    · have hsigned : signed? (n.toNat : Int) = none := if_neg (by omega)
      have hunsigned : unsigned? (n.toNat : Int) = some n := by
        rw [unsigned?, if_pos (by omega), Int.toNat_natCast, UInt64.ofNat_toNat]
      rw [hsigned, hunsigned, if_neg hn]
      rfl
  | text s => rfl

theorem relation_ofSymbol? (r : Relation) : Relation.ofSymbol? r.symbol = some r := by
  cases r <;> rfl

theorem bitOperator_ofSymbol? (op : BitOperator) : BitOperator.ofSymbol? op.symbol = some op := by
  cases op <;> rfl

/-- No relation is a bit operator. -/
theorem bitOperator_ofSymbol?_relation (r : Relation) : BitOperator.ofSymbol? r.symbol = none := by
  cases r <;> rfl

/-! ### Operands and comparisons -/

/-- An operand before a sign is read back. -/
theorem operand?_lexemes : ∀ {o : Operand}, o.Named → ∀ (s : String) (rest : List Lexeme),
    operand? (o.lexemes ++ .sign s :: rest) = some (o, .sign s :: rest)
  | .column name, h, s, rest => by
    simp [Operand.lexemes, operand?, show Text.isName name = true from h]
  | .aggregate function part, h, s, rest => by simp [Operand.lexemes, operand?, h.1, h.2]
  | .masked operand op argument, h, s, rest => by
    have ih := operand?_lexemes (o := operand) h op.symbol
      (.word (toString argument.toInt) :: .closing :: .sign s :: rest)
    simp only [Operand.lexemes, List.cons_append, List.append_assoc, List.nil_append, operand?, ih,
      bitOperator_ofSymbol?, integer?_toString, Option.bind_some, signed?_toInt]

/-- **A comparison is read back**, with its constant settled. -/
theorem comparison?_lexemes {c : Comparison} (h : c.operand.Named) (rest : List Lexeme) :
    comparison? (c.lexemes ++ rest) = some (c.settled, rest) := by
  have hoperand := operand?_lexemes h c.relation.symbol (c.constant.lexeme :: rest)
  simp [Comparison.lexemes, comparison?, hoperand, relation_ofSymbol?, constant?_lexeme,
    Comparison.settled]

/-- What an operand at the start of a layout can be: there is none, or a relation follows it. -/
def BeforeRelation (x : Option (Operand × List Lexeme)) : Prop :=
  x = none ∨ ∃ o rest, ∃ r : Relation, x = some (o, .sign r.symbol :: rest)

/-- In brackets such an operand has no bit operator, so the brackets hold no operand. -/
theorem operand?_opening {ls : List Lexeme} (h : BeforeRelation (operand? ls)) :
    operand? (.opening :: ls) = none := by
  rw [operand?]
  rcases h with h | ⟨o, rest, r, h⟩
  · rw [h]
  · rw [h]
    split
    · next heq =>
      simp only [Option.some.injEq, Prod.mk.injEq, List.cons.injEq, Lexeme.sign.injEq] at heq
      obtain ⟨-, rfl, -⟩ := heq
      rw [bitOperator_ofSymbol?_relation]
    · rfl

theorem operand?_layout : ∀ {l : Layout}, l.Named → ∀ rest, BeforeRelation (operand? (l.lexemes ++ rest))
  | .atom c, h, rest => by
    have hoperand := operand?_lexemes h c.relation.symbol (c.constant.lexeme :: rest)
    exact .inr ⟨_, _, c.relation, by simpa [Layout.lexemes, Comparison.lexemes] using hoperand⟩
  | .group inner, h, rest => by
    have ih := operand?_layout (l := inner) h (.closing :: rest)
    exact .inl (by simpa [Layout.lexemes] using operand?_opening ih)
  | .join k left right, h, rest => by
    have ih := operand?_layout h.1 (.word k.word :: (right.lexemes ++ rest))
    simpa [Layout.lexemes] using ih

/-- There is no comparison at the start of a bracketed layout. -/
theorem comparison?_group {l : Layout} (h : l.Named) (rest : List Lexeme) :
    comparison? (.opening :: (l.lexemes ++ rest)) = none := by
  rw [comparison?, operand?_opening (operand?_layout h rest)]

/-! ### Even layouts -/

namespace Layout

/-- The connective of an unbracketed chain. -/
def root? : Layout → Option Connective
  | .join k _ _ => some k
  | _ => none

/-- No chain of one connective stands unbracketed in a chain of the other. -/
def Even : Layout → Prop
  | .atom _ => True
  | .group inner => inner.Even
  | .join k left right =>
    left.root? ≠ some k.other ∧ right.root? ≠ some k.other ∧ left.Even ∧ right.Even

/-- How deep a reader has to go for a layout. -/
def height : Layout → Nat
  | .atom _ => 1
  | .group inner => inner.height + 1
  | .join _ left right => max left.height right.height

/-- The number of links in an unbracketed chain. -/
def width : Layout → Nat
  | .atom _ => 1
  | .group _ => 1
  | .join _ left right => left.width + right.width

/-- The predicate that is read from a layout, joined to what was read before it in its chain. -/
def readingAfter : Option (Connective × Predicate) → Layout → Predicate
  | none, .atom c => .atom c.settled
  | some (k, p), .atom c => k.join p (.atom c.settled)
  | none, .group inner => inner.readingAfter none
  | some (k, p), .group inner => k.join p (inner.readingAfter none)
  | none, .join k left right => right.readingAfter (some (k, left.readingAfter none))
  | some (k, p), .join _ left right => right.readingAfter (some (k, left.readingAfter (some (k, p))))

/-- The predicate that is read from a layout. -/
def reading (l : Layout) : Predicate := l.readingAfter none

theorem lexemes_length_pos : ∀ l : Layout, 0 < l.lexemes.length
  | .atom c => by simp [lexemes, Comparison.lexemes]
  | .group inner => by simp [lexemes]
  | .join k left right => by simp [lexemes]

theorem width_le : ∀ l : Layout, l.width ≤ l.lexemes.length
  | .atom c => lexemes_length_pos (.atom c)
  | .group inner => lexemes_length_pos (.group inner)
  | .join k left right => by
    have hl := width_le left
    have hr := width_le right
    simp only [width, lexemes, List.length_append, List.length_cons]
    omega

theorem height_le : ∀ l : Layout, l.height ≤ l.lexemes.length
  | .atom c => lexemes_length_pos (.atom c)
  | .group inner => by
    have h := height_le inner
    simp only [height, lexemes, List.length_append, List.length_cons, List.length_nil]
    omega
  | .join k left right => by
    have hl := height_le left
    have hr := height_le right
    simp only [height, lexemes, List.length_append, List.length_cons]
    omega

theorem eq_of_root?_join {k k' : Connective} {left right : Layout}
    (h : (join k' left right).root? ≠ some k.other) : k' = k := by
  cases k' <;> cases k <;> simp_all [root?, Connective.other]

/-- What a reader that goes `depth` deep is asked to read. -/
structure Fits (l : Layout) (depth : Nat) : Prop where
  named : l.Named
  even : l.Even
  height_le : l.height ≤ depth

theorem Fits.sides {k : Connective} {left right : Layout} {depth : Nat}
    (h : (join k left right).Fits depth) : left.Fits depth ∧ right.Fits depth := by
  obtain ⟨⟨hleft, hright⟩, ⟨-, -, heven, heven'⟩, hheight⟩ := h
  exact ⟨⟨hleft, heven, (le_max_left _ _).trans hheight⟩,
    ⟨hright, heven', (le_max_right _ _).trans hheight⟩⟩

end Layout

/-! ### Chains -/

/-- The lexemes go on with the word for a connective. -/
def Starts (k : Connective) (ls : List Lexeme) : Prop := ls.head? = some (.word k.word)

theorem not_starts_other (k : Connective) (ls : List Lexeme) : ¬Starts k.other (.word k.word :: ls) := by
  cases k <;> simp [Starts, Connective.word, Connective.other]

theorem chain_eq {k : Connective} {item : Reader} {p : Predicate} {ls rest : List Lexeme}
    (h : item ls = some (p, rest)) : chain k item ls = chainFrom k item rest.length p rest := by
  simp [chain, h]

/-- A chain ends where no word for its connective follows. -/
theorem chainFrom_stop {k : Connective} {item : Reader} {p : Predicate} {ls : List Lexeme}
    (h : ¬Starts k ls) : ∀ fuel, chainFrom k item fuel p ls = some (p, ls)
  | 0 => rfl
  | fuel + 1 => by
    unfold chainFrom
    split
    · next w rest =>
      have hw : w ≠ k.word := fun hw => h (by simp [Starts, hw])
      rw [if_neg hw]
    · rfl

/-- A reader of the items of a chain: it reads a comparison or a bracketed layout back, before
anything but the other connective. -/
def ReadsItems (k : Connective) (item : Reader) (depth : Nat) : Prop :=
  ∀ l : Layout, l.root? = none → l.Fits depth → ∀ rest, ¬Starts k.other rest →
    item (l.lexemes ++ rest) = some (l.reading, rest)

/-- **The links of a chain are read one after another**, each joined to what was read before. -/
theorem chainFrom_lexemes {k : Connective} {item : Reader} {depth : Nat}
    (hitem : ReadsItems k item depth) :
    ∀ {l : Layout}, l.Fits depth → l.root? ≠ some k.other → ∀ (p : Predicate) (rest : List Lexeme),
      ¬Starts k.other rest → ∀ fuel,
        chainFrom k item (fuel + l.width) p (.word k.word :: (l.lexemes ++ rest)) =
          chainFrom k item fuel (l.readingAfter (some (k, p))) rest
  | .atom c, hl, _, p, rest, hrest, fuel => by
    rw [Layout.width, chainFrom, if_pos rfl, hitem _ rfl hl rest hrest]
    rfl
  | .group inner, hl, _, p, rest, hrest, fuel => by
    rw [Layout.width, chainFrom, if_pos rfl, hitem _ rfl hl rest hrest]
    rfl
  | .join k' left right, hl, hk, p, rest, hrest, fuel => by
    obtain rfl : k' = k := Layout.eq_of_root?_join hk
    obtain ⟨hl₁, hl₂⟩ := hl.sides
    obtain ⟨hleft, hright, -, -⟩ := hl.even
    rw [Layout.lexemes, List.append_assoc, List.cons_append, Layout.width,
      show fuel + (left.width + right.width) = fuel + right.width + left.width by omega,
      chainFrom_lexemes hitem hl₁ hleft p _ (not_starts_other _ _),
      chainFrom_lexemes hitem hl₂ hright _ rest hrest]
    rfl

/-- A chain is its first item and the links after it, with a link left for every lexeme that
follows. -/
theorem chain_lexemes {k : Connective} {item : Reader} {depth : Nat}
    (hitem : ReadsItems k item depth) :
    ∀ {l : Layout}, l.Fits depth → l.root? ≠ some k.other → ∀ rest, ¬Starts k.other rest →
      ∃ fuel, rest.length ≤ fuel ∧
        chain k item (l.lexemes ++ rest) = chainFrom k item fuel l.reading rest
  | .atom c, hl, _, rest, hrest =>
    ⟨rest.length, le_rfl, chain_eq (hitem _ rfl hl rest hrest)⟩
  | .group inner, hl, _, rest, hrest =>
    ⟨rest.length, le_rfl, chain_eq (hitem _ rfl hl rest hrest)⟩
  | .join k' left right, hl, hk, rest, hrest => by
    obtain rfl : k' = k := Layout.eq_of_root?_join hk
    obtain ⟨hl₁, hl₂⟩ := hl.sides
    obtain ⟨hleft, hright, -, -⟩ := hl.even
    obtain ⟨fuel, hfuel, hchain⟩ := chain_lexemes hitem hl₁ hleft
      (.word k'.word :: (right.lexemes ++ rest)) (not_starts_other _ _)
    -- the links on the right use up their share of the fuel, and the rest is still enough
    have hwidth := right.width_le
    simp only [List.length_cons, List.length_append] at hfuel
    refine ⟨fuel - right.width, by omega, ?_⟩
    rw [Layout.lexemes, List.append_assoc, List.cons_append, hchain,
      show fuel = fuel - right.width + right.width by omega,
      chainFrom_lexemes hitem hl₂ hright _ rest hrest]
    simp [Layout.reading, Layout.readingAfter]

/-! ### Texts -/

theorem Layout.height_pos : ∀ l : Layout, 0 < l.height
  | .atom _ => Nat.one_pos
  | .group _ => Nat.succ_pos _
  | .join _ left _ => lt_max_of_lt_left left.height_pos

/-- A comparison or a bracketed layout is read back, whatever follows it. -/
theorem primary_lexemes (nested : Reader) {depth : Nat}
    (hnested : ∀ l : Layout, l.Fits depth → ∀ rest,
      nested (l.lexemes ++ .closing :: rest) = some (l.reading, .closing :: rest)) :
    ∀ l : Layout, l.root? = none → l.Fits (depth + 1) → ∀ rest,
      primary nested (l.lexemes ++ rest) = some (l.reading, rest)
  | .atom c, _, hl, rest => by
    have hnamed : c.operand.Named := hl.named
    simp [primary, Layout.lexemes, comparison?_lexemes hnamed, Layout.reading, Layout.readingAfter]
  | .group inner, _, hl, rest => by
    have hnamed : inner.Named := hl.named
    have hinner : inner.Fits depth := ⟨hnamed, hl.even, Nat.le_of_succ_le_succ hl.height_le⟩
    simp [primary, Layout.lexemes, comparison?_group hnamed, hnested inner hinner rest, Layout.reading,
      Layout.readingAfter]

/-- **An even layout is read back whichever connective binds tighter.** -/
theorem expr_lexemes (tight : Connective) : ∀ {depth : Nat} {l : Layout}, l.Fits depth →
    ∀ rest, (∀ k, ¬Starts k rest) → expr tight depth (l.lexemes ++ rest) = some (l.reading, rest)
  | 0, l, hl, rest, _ => absurd hl.height_le (Nat.not_le.mpr l.height_pos)
  | depth + 1, l, hl, rest, hrest => by
    have hprimary := primary_lexemes (expr tight depth) fun l hl rest =>
      expr_lexemes tight hl (.closing :: rest) (by simp [Starts])
    have htight : ReadsItems tight (primary (expr tight depth)) (depth + 1) :=
      fun l hroot hl rest _ => hprimary l hroot hl rest
    have hloose : ReadsItems tight.other (chain tight (primary (expr tight depth))) (depth + 1) := by
      intro l hroot hl rest hrest
      rw [Connective.other_other] at hrest
      rw [chain_eq (hprimary l hroot hl rest), chainFrom_stop hrest]
    by_cases hroot : l.root? = some tight
    · -- the whole layout is one item of the looser chain
      have hother : l.root? ≠ some tight.other := by
        rw [hroot]
        exact fun h => Connective.ne_other tight (Option.some.inj h)
      obtain ⟨fuel, -, hchain⟩ := chain_lexemes htight hl hother rest (hrest _)
      rw [chainFrom_stop (hrest tight)] at hchain
      rw [expr, chain_eq hchain, chainFrom_stop (hrest tight.other)]
    · have hother : l.root? ≠ some tight.other.other := by rwa [Connective.other_other]
      obtain ⟨fuel, -, hchain⟩ := chain_lexemes hloose hl hother rest (hrest _)
      rw [expr, hchain, chainFrom_stop (hrest tight.other)]

/-- **The text of an even layout is read back whichever connective binds tighter.** -/
theorem read?_text {l : Layout} (hnamed : l.Named) (heven : l.Even) (tight : Connective) :
    read? tight l.text = some (some l.reading) := by
  have hexpr : expr tight l.lexemes.length l.lexemes = some (l.reading, []) := by
    simpa using expr_lexemes tight ⟨hnamed, heven, l.height_le⟩ [] (by simp [Starts])
  rw [read?, Layout.scan?_text hnamed]
  split
  · next h => simp at h
  · next h =>
    have hpos := l.lexemes_length_pos
    simp [Option.some.inj h] at hpos
  · next ls _ h =>
    rw [← Option.some.inj h, hexpr]

/-- A text that is not even has two readings. -/
example : read? .and "a == 1 OR b == 2 AND c == 3" ≠ read? .or "a == 1 OR b == 2 AND c == 3" := by
  decide +kernel

/-! ### What is read -/

namespace Layout

/-- A layout without its brackets. -/
def formula : Layout → Predicate
  | .atom c => .atom c
  | .group inner => inner.formula
  | .join k left right => k.join left.formula right.formula

/-- What is read from a layout after a predicate of its chain accepts what the two accept joined. -/
theorem readingAfter_accepts (row : Row) : ∀ {l : Layout}, l.Even →
    l.reading.accepts row = l.formula.accepts row ∧
      ∀ (k : Connective) (p : Predicate), l.root? ≠ some k.other →
        (l.readingAfter (some (k, p))).accepts row = k.eval (p.accepts row) (l.formula.accepts row)
  | .atom c, _ => by
    have hatom : Predicate.accepts row (.atom c.settled) = Predicate.accepts row (.atom c) :=
      Comparison.settled_accepts row c
    refine ⟨hatom, fun k p _ => ?_⟩
    rw [readingAfter, Connective.accepts_join, hatom, formula]
  | .group inner, heven => by
    have ih := (readingAfter_accepts row (l := inner) heven).1
    refine ⟨ih, fun k p _ => ?_⟩
    rw [readingAfter, Connective.accepts_join, formula, ← ih]
    rfl
  | .join k left right, ⟨hleft, hright, heven, heven'⟩ => by
    obtain ⟨ihl, ihl'⟩ := readingAfter_accepts row heven
    obtain ⟨-, ihr⟩ := readingAfter_accepts row heven'
    refine ⟨?_, fun k' p hk => ?_⟩
    · rw [reading, readingAfter, ihr k _ hright, formula, Connective.accepts_join, ← ihl]
      rfl
    · obtain rfl : k = k' := eq_of_root?_join hk
      -- what is read is joined from the left, the formula as the layout has it
      rw [readingAfter, ihr k _ hright, ihl' k p hleft, formula, Connective.accepts_join,
        Connective.eval_assoc]

/-- **What is read from an even layout accepts the rows that the layout's formula accepts.** -/
theorem reading_accepts (row : Row) {l : Layout} (h : l.Even) :
    l.reading.accepts row = l.formula.accepts row :=
  (readingAfter_accepts row h).1

end Layout

end Engine

end FlowSelect
