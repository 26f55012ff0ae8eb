/-
# The layout of tokens

The tokens of a text account for all of it. Between two places that a match connects stand tokens one
after another, and outside of them only blanks and brackets; a token is a leaf, or what stands inside
it is laid out in the same way, between quotes if it is a quoted text (`Cursor.Laid`). Matches are put
together from such stretches (`Language.expr_lays`). All else is read off the layout by induction:
tokens lie inside their parents and beside their siblings (`Cursor.Laid.nests`), leaves are operators,
columns and values (`Cursor.Laid.leaves`), and every byte belongs to one leaf or stands between tokens
(`Cursor.Laid.covers`).

Key definitions: `Rule.isLexeme`, `Token.leaves`, `Token.Nests`, `Cursor.Laid`, `Pattern.Lays`.
Key theorems: `Language.expr_lays`, `Cursor.Laid.nests`, `Cursor.Laid.covers`,
`tokenisation_loses_nothing`.
-/
import FlowSelect.Proofs.Query.Values

namespace FlowSelect

/-- Whether a rule is one of the smallest: an operator, a column, a value, or what stands between
quotes. -/
def Rule.isLexeme : Rule → Bool
  | .and | .or | .not | .relation | .bitOperator => true
  | .column | .rawColumn => true
  | .timestamp | .ip6 | .ip6Subnet | .ip4 | .ip4Subnet | .number | .word => true
  | .quotedText => true
  | _ => false

/-! ### Leaves -/

namespace Token

/-- The tokens that hold no tokens. -/
def leaves (ts : List Token) : List Token := (all ts).filter fun t => t.children.isEmpty

/-- Whether the byte at an offset belongs to a token. -/
def holds (i : Nat) (t : Token) : Bool := t.start ≤ i && i < t.stop

/-- The tokens inside a token lie in its stretch, one after another. -/
def Nests (t : Token) : Prop :=
  (∀ u ∈ t.children, t.start ≤ u.start ∧ u.stop ≤ t.stop) ∧
    t.children.Pairwise fun u v => u.stop ≤ v.start

variable {ts : List Token} {t : Token}

@[simp] theorem all_cons (t : Token) (ts : List Token) : all (t :: ts) = t :: (all t.children ++ all ts) := by
  obtain ⟨r, start, text, children⟩ := t
  rw [← List.singleton_append, all_append, all_node]
  rfl

theorem mem_all_of_mem (h : t ∈ ts) : t ∈ all ts := by
  induction ts with
  | nil => cases h
  | cons u ts ih =>
    rcases List.mem_cons.mp h with rfl | h
    · simp
    · simp [ih h]

@[simp] theorem leaves_nil : leaves [] = [] := rfl

theorem leaves_leaf (r : Rule) (start : Nat) (text : String) :
    leaves (.node r start text [] :: ts) = .node r start text [] :: leaves ts := by
  simp [leaves, children]

theorem leaves_node (r : Rule) (start : Nat) (text : String) {children : List Token} (h : children ≠ []) :
    leaves (.node r start text children :: ts) = leaves children ++ leaves ts := by
  simp [leaves, Token.children, h]

theorem mem_all_of_mem_leaves (h : t ∈ leaves ts) : t ∈ all ts := (List.mem_filter.mp h).1

theorem holds_iff {i : Nat} : t.holds i = true ↔ t.start ≤ i ∧ i < t.stop := by
  simp [holds]

end Token

/-! ### Layouts -/

namespace Language

/-- The characters that stand between tokens: blanks and brackets. -/
def gaps : List Char := [' ', '\t', '\r', '\n', '(', ')']

theorem mem_gaps_of_isBlank {r : Char} (h : Cursor.isBlank r = true) : r ∈ gaps := by
  rcases Cursor.isBlank_cases h with rfl | rfl | rfl | rfl <;> decide

theorem utf8Size_of_mem_gaps {r : Char} (h : r ∈ gaps) : r.utf8Size = 1 := by
  have hr : r = ' ' ∨ r = '\t' ∨ r = '\r' ∨ r = '\n' ∨ r = '(' ∨ r = ')' := by simpa [gaps] using h
  rcases hr with rfl | rfl | rfl | rfl | rfl | rfl <;> rfl

end Language

namespace Cursor

variable {c d e : Cursor} {ts us : List Token}

/-- What a rule without tokens inside it may read. Only a quoted text holds white space, and nothing
is read at the end of the text. -/
def IsLeaf (r : Rule) (cs : List Char) : Prop :=
  r.isLexeme = true ∧ (r ≠ .quotedText → ∀ x ∈ cs, Text.isBlank x = false) ∨ r = .endOfInput ∧ cs = []

/-- Between two places of a text stand the tokens `ts`, one after another, and outside of them only
blanks and brackets. -/
inductive Laid : Cursor → List Token → Cursor → Prop where
  | done (c : Cursor) : Laid c [] c
  | gap {c d e : Cursor} {x : Char} {ts : List Token} (hx : x ∈ Language.gaps) (hc : c.Reads [x] d)
      (hts : Laid d ts e) : Laid c ts e
  | leaf {c d e : Cursor} {r : Rule} {cs : List Char} {ts : List Token} (hleaf : IsLeaf r cs)
      (hc : c.Reads cs d) (hts : Laid d ts e) :
      Laid c (.node r c.offset (String.ofList cs) [] :: ts) e
  | node {c c' d' d e : Cursor} {r : Rule} {cs quotes : List Char} {children ts : List Token}
      (hquotes : quotes = [] ∨ r = .quoted ∧ quotes = ['"']) (hne : children ≠ [])
      (hc : c.Reads cs d) (hopen : c.Reads quotes c') (hin : Laid c' children d')
      (hclose : d'.Reads quotes d) (hts : Laid d ts e) :
      Laid c (.node r c.offset (String.ofList cs) children :: ts) e

theorem Laid.append (h : c.Laid ts d) (k : d.Laid us e) : c.Laid (ts ++ us) e := by
  induction h with
  | done => exact k
  | gap hx hc _ ih => exact .gap hx hc (ih k)
  | leaf hleaf hc _ ih => exact .leaf hleaf hc (ih k)
  | node hquotes hne hc hopen hin hclose _ _ ih => exact .node hquotes hne hc hopen hin hclose (ih k)

theorem Reads.eq_of_nil (h : c.Reads [] d) : c = d := by
  obtain ⟨offset, rest⟩ := c
  obtain ⟨offset', rest'⟩ := d
  obtain ⟨rfl, rfl⟩ : rest = rest' ∧ offset' = offset := h
  rfl

theorem laid_of_gaps : ∀ {cs : List Char} {c : Cursor}, (∀ x ∈ cs, x ∈ Language.gaps) → c.Reads cs d →
    c.Laid [] d
  | [], c, _, h => h.eq_of_nil ▸ .done c
  | x :: cs, ⟨offset, rest⟩, hcs, h => by
    obtain ⟨hrest, hoffset⟩ := h
    obtain rfl : rest = x :: (cs ++ d.rest) := hrest
    obtain ⟨hx, hcs⟩ := List.forall_mem_cons.mp hcs
    refine .gap hx (reads_next offset x _) (laid_of_gaps hcs ⟨rfl, ?_⟩)
    rw [hoffset, next, Text.byteLength, Nat.add_assoc]

theorem laid_skip (c : Cursor) : c.Laid [] (c.skip .loose) := by
  obtain ⟨bs, hbs, hread⟩ := skip_reads .loose c
  exact laid_of_gaps (fun b hb => Language.mem_gaps_of_isBlank (hbs b hb)) hread

/-! ### What a layout says -/

theorem Reads.offset_le {cs : List Char} (hc : c.Reads cs d) : c.offset ≤ d.offset := by
  rw [hc.2]
  exact Nat.le_add_right _ _

theorem Reads.stop_node {cs : List Char} (hc : c.Reads cs d) (r : Rule) (children : List Token) :
    (Token.node r c.offset (String.ofList cs) children).stop = d.offset := by
  rw [hc.2, Token.stop, Token.text, String.toList_ofList, Token.start]

theorem Reads.holds_node {cs : List Char} (hc : c.Reads cs d) (r : Rule) (children : List Token) (i : Nat) :
    (Token.node r c.offset (String.ofList cs) children).holds i = true ↔ c.offset ≤ i ∧ i < d.offset := by
  rw [Token.holds_iff, hc.stop_node, Token.start]

theorem Laid.reads (h : c.Laid ts d) : ∃ cs, c.Reads cs d := by
  have happend : ∀ {c d e : Cursor} {cs : List Char}, c.Reads cs d → (∃ ds, d.Reads ds e) →
      ∃ ds, c.Reads ds e := fun hc ⟨_, hd⟩ => ⟨_, hc.append hd⟩
  induction h with
  | done c => exact ⟨[], reads_nil c⟩
  | gap _ hc _ ih => exact happend hc ih
  | leaf _ hc _ ih => exact happend hc ih
  | node _ _ hc _ _ _ _ _ ih => exact happend hc ih

theorem Laid.offset_le (h : c.Laid ts d) : c.offset ≤ d.offset := by
  obtain ⟨cs, hc⟩ := h.reads
  exact hc.offset_le

/-- All tokens lie between the two places. -/
theorem Laid.inside (h : c.Laid ts d) : ∀ t ∈ Token.all ts, c.offset ≤ t.start ∧ t.stop ≤ d.offset := by
  induction h with
  | done => simp
  | gap _ hc _ ih => exact fun t ht => ⟨hc.offset_le.trans (ih t ht).1, (ih t ht).2⟩
  | leaf _ hc hts ih =>
    intro t ht
    rcases List.mem_cons.mp (Token.all_cons _ _ ▸ ht) with rfl | ht
    · exact ⟨le_rfl, (hc.stop_node _ _).trans_le hts.offset_le⟩
    · exact ⟨hc.offset_le.trans (ih t ht).1, (ih t ht).2⟩
  | node _ _ hc hopen _ hclose hts ihin ih =>
    intro t ht
    rcases List.mem_cons.mp (Token.all_cons _ _ ▸ ht) with rfl | ht
    · exact ⟨le_rfl, (hc.stop_node _ _).trans_le hts.offset_le⟩
    rcases List.mem_append.mp ht with ht | ht
    · exact ⟨hopen.offset_le.trans (ihin t ht).1, (ihin t ht).2.trans (hclose.offset_le.trans hts.offset_le)⟩
    · exact ⟨hc.offset_le.trans (ih t ht).1, (ih t ht).2⟩

/-- The tokens stand one after another. -/
theorem Laid.siblings (h : c.Laid ts d) : ts.Pairwise fun t u => t.stop ≤ u.start := by
  -- what follows a token starts where the token has ended
  have hcons : ∀ {c d e : Cursor} {r : Rule} {cs : List Char} {children ts : List Token},
      c.Reads cs d → d.Laid ts e → ts.Pairwise (fun t u => t.stop ≤ u.start) →
      (Token.node r c.offset (String.ofList cs) children :: ts).Pairwise fun t u => t.stop ≤ u.start := by
    intro c d e r cs children ts hc hts ih
    refine List.pairwise_cons.mpr ⟨fun u hu => ?_, ih⟩
    rw [hc.stop_node]
    exact (hts.inside u (Token.mem_all_of_mem hu)).1
  induction h with
  | done => exact .nil
  | gap _ _ _ ih => exact ih
  | leaf _ hc hts ih => exact hcons hc hts ih
  | node _ _ hc _ _ _ hts _ ih => exact hcons hc hts ih

/-- **Tokens lie inside their parents, one after another.** -/
theorem Laid.nests (h : c.Laid ts d) : ∀ t ∈ Token.all ts, t.Nests := by
  induction h with
  | done => simp
  | gap _ _ _ ih => exact ih
  | leaf _ _ _ ih =>
    intro t ht
    rcases List.mem_cons.mp (Token.all_cons _ _ ▸ ht) with rfl | ht
    · exact ⟨by simp [Token.children], .nil⟩
    · exact ih t ht
  | node _ _ hc hopen hin hclose _ ihin ih =>
    intro t ht
    rcases List.mem_cons.mp (Token.all_cons _ _ ▸ ht) with rfl | ht
    · refine ⟨fun u hu => ?_, hin.siblings⟩
      obtain ⟨hstart, hstop⟩ := hin.inside u (Token.mem_all_of_mem hu)
      rw [hc.stop_node]
      exact ⟨hopen.offset_le.trans hstart, hstop.trans hclose.offset_le⟩
    rcases List.mem_append.mp ht with ht | ht
    · exact ihin t ht
    · exact ih t ht

/-- **Leaves are operators, columns and values**, or the end of the text. -/
theorem Laid.leaves (h : c.Laid ts d) : ∀ t ∈ Token.leaves ts, IsLeaf t.rule t.text.toList := by
  induction h with
  | done => simp
  | gap _ _ _ ih => exact ih
  | leaf hleaf _ _ ih =>
    rw [Token.leaves_leaf, List.forall_mem_cons]
    exact ⟨by simpa [Token.rule, Token.text] using hleaf, ih⟩
  | node _ hne _ _ _ _ _ ihin ih =>
    rw [Token.leaves_node _ _ _ hne, List.forall_mem_append]
    exact ⟨ihin, ih⟩

/-- The text from here on has the character `x` at an offset. -/
def At (c : Cursor) (i : Nat) (x : Char) : Prop :=
  ∃ cs d rest, c.Reads cs d ∧ d.offset = i ∧ d.rest = x :: rest

theorem Reads.at {cs : List Char} {i : Nat} {x : Char} (hc : c.Reads cs d) (h : d.At i x) : c.At i x := by
  obtain ⟨ds, e, rest, hd, hi, hrest⟩ := h
  exact ⟨cs ++ ds, e, rest, hc.append hd, hi, hrest⟩

theorem Reads.at_offset {cs : List Char} {x : Char} (hc : c.Reads (x :: cs) d) : c.At c.offset x :=
  ⟨[], c, _, reads_nil c, rfl, hc.1⟩

/-- At an offset stands a blank, a bracket, or a quote at an end of a quoted text. -/
def Between (c : Cursor) (ts : List Token) (i : Nat) : Prop :=
  (∃ x ∈ Language.gaps, c.At i x) ∨
    c.At i '"' ∧ ∃ q ∈ Token.all ts, q.rule = .quoted ∧ (i = q.start ∨ i + 1 = q.stop)

theorem Between.mono {cs : List Char} {i : Nat} (h : d.Between ts i) (hc : c.Reads cs d)
    (hts : ∀ t ∈ Token.all ts, t ∈ Token.all us) : c.Between us i := by
  rcases h with ⟨x, hx, hat⟩ | ⟨hat, q, hq, hrule, hends⟩
  · exact .inl ⟨x, hx, hc.at hat⟩
  · exact .inr ⟨hc.at hat, q, hts q hq, hrule, hends⟩

theorem Laid.countP_outside (h : c.Laid ts d) {i : Nat} (hi : i < c.offset ∨ d.offset ≤ i) :
    (Token.leaves ts).countP (Token.holds i) = 0 := by
  rw [List.countP_eq_zero]
  intro t ht hholds
  have hinside := h.inside t (Token.mem_all_of_mem_leaves ht)
  have hholds := Token.holds_iff.mp hholds
  omega

/-- **Every byte belongs to exactly one leaf, or to none and stands between tokens.** -/
theorem Laid.covers (h : c.Laid ts d) : ∀ i, c.offset ≤ i → i < d.offset →
    (Token.leaves ts).countP (Token.holds i) = 1 ∨
      (Token.leaves ts).countP (Token.holds i) = 0 ∧ c.Between ts i := by
  induction h with
  | done => omega
  | @gap c d e x ts hx hc hts ih =>
    intro i hlow hhigh
    have hnext : d.offset = c.offset + x.utf8Size := hc.2
    rw [Language.utf8Size_of_mem_gaps hx] at hnext
    by_cases hi : i = c.offset
    · rw [hi]
      exact .inr ⟨hts.countP_outside (by omega), .inl ⟨x, hx, hc.at_offset⟩⟩
    · exact (ih i (by omega) hhigh).imp_right (And.imp_right fun h => h.mono hc fun t ht => ht)
  | @leaf c d e r cs ts hleaf hc hts ih =>
    intro i hlow hhigh
    rw [Token.leaves_leaf]
    by_cases hi : i < d.offset
    · left
      rw [List.countP_cons_of_pos ((hc.holds_node r [] i).mpr ⟨hlow, hi⟩), hts.countP_outside (.inl hi)]
    · rw [List.countP_cons_of_neg fun h => hi ((hc.holds_node r [] i).mp h).2]
      exact (ih i (by omega) hhigh).imp_right
        (And.imp_right fun h => h.mono hc fun t ht => by simp [ht])
  | @node c c' d' d e r cs quotes children ts hquotes hne hc hopen hin hclose hts ihin ih =>
    intro i hlow hhigh
    have hle := hclose.offset_le
    have hinner : c'.Between children i →
        c.Between (.node r c.offset (String.ofList cs) children :: ts) i := fun h =>
      h.mono hopen fun t ht => by simp [ht, Token.children]
    rw [Token.leaves_node _ _ _ hne, List.countP_append]
    by_cases hi : d.offset ≤ i
    · rw [hin.countP_outside (.inr (by omega)), Nat.zero_add]
      exact (ih i hi hhigh).imp_right (And.imp_right fun h => h.mono hc fun t ht => by simp [ht])
    rw [hts.countP_outside (.inl (by omega)), Nat.add_zero]
    rcases hquotes with rfl | ⟨rfl, rfl⟩
    · obtain rfl := hopen.eq_of_nil
      obtain rfl := hclose.eq_of_nil
      exact (ihin i hlow (by omega)).imp_right (And.imp_right hinner)
    · -- the first byte and the last one are the quotes
      have hfirst : c'.offset = c.offset + 1 := hopen.2
      have hlast : d.offset = d'.offset + 1 := hclose.2
      by_cases hi : i = c.offset
      · refine .inr ⟨hin.countP_outside (by omega), .inr ⟨hi ▸ hopen.at_offset, _, List.mem_cons_self, rfl, ?_⟩⟩
        exact .inl hi
      by_cases hi : i = d'.offset
      · obtain ⟨ds, hds⟩ := hin.reads
        refine .inr ⟨hin.countP_outside (by omega),
          .inr ⟨hi ▸ (hopen.append hds).at hclose.at_offset, _, List.mem_cons_self, rfl, ?_⟩⟩
        rw [hc.stop_node]
        omega
      · exact (ihin i (by omega) (by omega)).imp_right (And.imp_right hinner)

end Cursor

/-! ### Matches are laid out -/

namespace Pattern

open FlowSelect.Language

variable {nested : Matcher} {p q : Pattern}

/-- The tokens of a match of the pattern account for what is read. -/
def Lays (nested : Matcher) (p : Pattern) : Prop :=
  ∀ c m, p.run nested .loose c = some m → c.Laid m.tokens m.after

theorem lays_literal {ls : List Char} (h : ∀ x ∈ ls, x ∈ gaps) : Lays nested (.literal ls) := by
  intro c m hm
  obtain ⟨d, hd, rfl⟩ := bare_eq_some.mp hm
  exact Cursor.laid_of_gaps h (takeLiteral_reads ls hd)

theorem Lays.seq (hp : Lays nested p) (hq : Lays nested q) : Lays nested (.seq p q) := by
  intro c m hm
  obtain ⟨m₁, m₂, h₁, h₂, rfl⟩ := run_seq_eq_some.mp hm
  have hskip : m₁.after.Laid ([] ++ m₂.tokens) m₂.after := (Cursor.laid_skip _).append (hq _ _ h₂)
  exact (hp _ _ h₁).append hskip

theorem Lays.alt (hp : Lays nested p) (hq : Lays nested q) : Lays nested (.alt p q) := by
  intro c m hm
  rcases run_alt_eq_some.mp hm with h | ⟨-, h⟩
  · exact hp c m h
  · exact hq c m h

theorem Lays.opt (hp : Lays nested p) : Lays nested (.opt p) := by
  intro c m hm
  rcases run_opt_eq_some.mp hm with h | ⟨-, rfl⟩
  · exact hp c m h
  · exact .done c

theorem Lays.many (hp : Lays nested p) : Lays nested (.many p) := by
  intro c m hm
  refine run_many_keeps (P := fun m => c.Laid m.tokens m.after) (.done c) (fun n hn => hp c n hn) ?_ hm
  intro m n h hn
  have hskip : m.after.Laid ([] ++ n.tokens) n.after := (Cursor.laid_skip _).append (hp _ _ hn)
  exact h.append hskip

/-- Whether every match of the pattern leaves a token. -/
def leavesToken : Pattern → Bool
  | .seq p q => p.leavesToken || q.leavesToken
  | .alt p q => p.leavesToken && q.leavesToken
  | .rule _ _ _ => true
  | .nested => true
  | _ => false

theorem tokens_ne_nil (hn : ∀ c m, nested .loose c = some m → m.tokens ≠ []) :
    ∀ (p : Pattern) {c : Cursor} {m : Match}, p.leavesToken = true → p.run nested .loose c = some m →
      m.tokens ≠ [] := by
  intro p
  induction p with
  | seq p q ihp ihq =>
    intro c m hpq h
    obtain ⟨m₁, m₂, h₁, h₂, rfl⟩ := run_seq_eq_some.mp h
    rcases Bool.or_eq_true_iff.mp hpq with hp | hq
    · simp [ihp hp h₁]
    · simp [ihq hq h₂]
  | alt p q ihp ihq =>
    intro c m hpq h
    obtain ⟨hp, hq⟩ := Bool.and_eq_true_iff.mp hpq
    rcases run_alt_eq_some.mp h with h | ⟨-, h⟩
    · exact ihp hp h
    · exact ihq hq h
  | rule r spacing body =>
    intro c m _ h
    obtain ⟨m₁, -, rfl⟩ := run_rule_eq_some.mp h
    simp [named]
  | nested => exact fun _ h => hn _ _ h
  | _ => exact fun hp => absurd hp (by simp [leavesToken])

/-- A rule matched as a whole leaves a leaf, if its body stops at white space. -/
theorem lays_whole {r : Rule} {body : Pattern} (hr : r.isLexeme = true) (hb : body.isTight = true)
    (hstop : (enders.all fun n => body.stopsAt (Char.ofNat n)) = true) : Lays nested (whole r body) := by
  intro c m hm
  obtain ⟨cs, hc, hd, htok⟩ := run_whole (by decide) hb hm
  have hblank : ∀ x ∈ cs, Text.isBlank x = false := by
    intro x hx
    rw [← Bool.not_eq_true]
    intro hblank
    have hmem : x.toNat ∈ enders := mem_enders (by simp [endsValue, hblank])
    have hnot := not_mem_of_denotes body (List.all_eq_true.mp hstop _ hmem) hd
    rw [Char.ofNat_toNat] at hnot
    exact hnot hx
  rw [htok]
  exact .leaf (.inl ⟨hr, fun _ => hblank⟩) hc (.done _)

/-- A rule that leaves tokens inside it is laid out as its body is. -/
theorem Lays.spaced (hn : nested.Advances) (hmark : ∀ c m, nested .loose c = some m → m.tokens ≠ [])
    (r : Rule) {body : Pattern} (hb : Lays nested body) (hbody : body.leavesToken = true) :
    Lays nested (spaced r body) := by
  intro c m hm
  obtain ⟨m₁, h₁, rfl⟩ := run_rule_eq_some.mp hm
  obtain ⟨cs, hc, -⟩ := run_reads hn body h₁
  have hne := tokens_ne_nil hmark body hbody h₁
  simp only [named, reduceCtorEq, if_false, hc.textTo_eq]
  exact .node (.inl rfl) hne hc (Cursor.reads_nil c) (hb c m₁ h₁) (Cursor.reads_nil _) (.done _)

end Pattern

namespace Language

open Pattern

variable {nested : Matcher}

/-- A quoted text is a leaf between two quotes. -/
theorem quoted_lays (hn : nested.Advances) : Lays nested quoted := by
  intro c m hm
  obtain ⟨m₁, h₁, rfl⟩ := run_rule_eq_some.mp hm
  obtain ⟨cs, hc, -⟩ := run_reads hn _ h₁
  obtain ⟨a, m₂, ha, h₂, rfl⟩ := run_seq_eq_some.mp h₁
  obtain ⟨n, b, hinner, hb, rfl⟩ := run_seq_eq_some.mp h₂
  obtain ⟨d, hd, rfl⟩ := bare_eq_some.mp ha
  obtain ⟨e, he, rfl⟩ := bare_eq_some.mp hb
  obtain ⟨ds, hds, -, htok⟩ := run_whole (by decide) rfl hinner
  have hleaf : d.Laid n.tokens n.after := by
    rw [htok]
    exact .leaf (.inl ⟨rfl, fun h => absurd rfl h⟩) hds (.done _)
  have hne : n.tokens ≠ [] := by simp [htok]
  have hopen : c.Reads ['"'] d := takeLiteral_reads _ hd
  have hclose : n.after.Reads ['"'] e := takeLiteral_reads _ he
  simpa [named, hc.textTo_eq] using
    Cursor.Laid.node (.inr ⟨rfl, rfl⟩) hne hc hopen hleaf hclose (.done e)

theorem value_lays (hn : nested.Advances) : Lays nested value := by
  have hlexeme : ∀ {r : Rule} {body q : Pattern}, r.isLexeme = true → body.isTight = true →
      (enders.all fun n => body.stopsAt (Char.ofNat n)) = true → Lays nested q →
      Lays nested (.alt (whole r body) q) := fun hr hb hstop hq => (lays_whole hr hb hstop).alt hq
  refine hlexeme rfl rfl rfl (hlexeme rfl rfl rfl (hlexeme rfl rfl rfl ?_))
  refine hlexeme rfl rfl rfl (hlexeme rfl rfl rfl (hlexeme rfl rfl rfl ?_))
  exact (quoted_lays hn).alt (lays_whole rfl rfl rfl)

theorem anyColumn_lays : Lays nested anyColumn :=
  (lays_whole rfl rfl rfl).alt (lays_whole rfl rfl rfl)

theorem negation_lays : Lays nested negation := lays_whole rfl rfl rfl

theorem connective_lays : Lays nested connective :=
  (lays_whole rfl rfl rfl).alt (lays_whole rfl rfl rfl)

/-- Brackets are gaps. -/
theorem bracketed_lays {p : Pattern} (hp : Lays nested p) :
    Lays nested (inOrder (exactly "(") [p, exactly ")"]) :=
  (lays_literal (by simp [gaps])).seq (hp.seq (lays_literal (by simp [gaps])))

section Expressions

variable (hn : nested.Advances) (hmark : ∀ c m, nested .loose c = some m → m.tokens ≠ [])
include hn hmark

theorem masked_lays : Lays nested masked :=
  (anyColumn_lays.seq ((lays_whole rfl rfl rfl).seq (lays_whole rfl rfl rfl))).spaced
    hn hmark .masked rfl

theorem comparison_lays : Lays nested Language.comparison := by
  have hmasked := masked_lays hn hmark
  have hsubject : Lays nested subject := (bracketed_lays hmasked).alt (hmasked.alt anyColumn_lays)
  have hrelation : Lays nested relation := lays_whole rfl rfl rfl
  exact (hsubject.seq (hrelation.opt.seq (value_lays hn))).spaced hn hmark .comparison rfl

/-- **A match of an expression is laid out** if expressions in brackets are. -/
theorem expr_lays (hnested : Lays nested .nested) : Lays nested expr := by
  have hprimary : Lays nested primary := (comparison_lays hn hmark).alt (bracketed_lays hnested)
  have hlink : Lays nested link := connective_lays.seq (negation_lays.many.seq hprimary)
  exact (negation_lays.many.seq (hprimary.seq hlink.many)).spaced hn hmark .expr rfl

end Expressions

theorem matchExpr_lays : ∀ depth c m, matchExpr depth .loose c = some m →
    c.Laid m.tokens m.after ∧ m.tokens ≠ []
  | 0, c, m, h => by simp [matchExpr] at h
  | depth + 1, c, m, h => by
    have hn := matchExpr_advances depth
    have hmark : ∀ c m, matchExpr depth .loose c = some m → m.tokens ≠ [] := fun c m h =>
      (matchExpr_lays depth c m h).2
    have hnested : Lays (matchExpr depth) .nested := fun c m h => (matchExpr_lays depth c m h).1
    exact ⟨expr_lays hn hmark hnested c m h, tokens_ne_nil hmark expr rfl h⟩

/-- **The tokens of a text are laid out from its start to its end.** -/
theorem program_laid {text : String} {ts : List Token} (h : tokens? program text = some ts) :
    ∃ children d, ts = [.node .program 0 text children] ∧ (Cursor.ofText text).Laid ts d ∧ d.rest = [] := by
  obtain ⟨m, hm, rfl⟩ := Option.map_eq_some_iff.mp h
  obtain ⟨e, he, hrest, rfl⟩ := run_program_iff.mp hm
  have hn := matchExpr_advances (depthOf text)
  have hmark : ∀ c m, matchExpr (depthOf text) .loose c = some m → m.tokens ≠ [] := fun c m h =>
    (matchExpr_lays _ c m h).2
  have hexpr := expr_lays hn hmark fun c m h => (matchExpr_lays _ c m h).1
  -- blanks, perhaps an expression, blanks and the end
  have hend : (e.after.skip .loose).Laid [.node .endOfInput (e.after.skip .loose).offset "" []]
      (e.after.skip .loose) := .leaf (.inr ⟨rfl, rfl⟩) (Cursor.reads_nil _) (.done _)
  have hinner : (Cursor.ofText text).Laid
      (e.tokens ++ [.node .endOfInput (e.after.skip .loose).offset "" []]) (e.after.skip .loose) :=
    (Cursor.laid_skip _).append ((hexpr.opt _ _ he).append ((Cursor.laid_skip _).append hend))
  obtain ⟨cs, hc, -⟩ := run_reads hn program hm
  rw [named_after] at hc
  obtain rfl : cs = text.toList := by
    have hread : text.toList = cs ++ (e.after.skip .loose).rest := hc.1
    rw [hrest, List.append_nil] at hread
    exact hread.symm
  have htext : Cursor.textTo ⟨0, text.toList⟩ (e.after.skip .loose) = text :=
    hc.textTo_eq.trans String.ofList_toList
  have hlaid := Cursor.Laid.node (r := .program) (.inl rfl) (by simp) hc (Cursor.reads_nil _) hinner
    (Cursor.reads_nil _) (.done _)
  rw [String.ofList_toList] at hlaid
  have htokens : (named .program .loose ⟨0, text.toList⟩
      ⟨e.tokens ++ [.node .endOfInput (e.after.skip .loose).offset "" []], e.after.skip .loose⟩).tokens =
      [.node .program 0 text (e.tokens ++ [.node .endOfInput (e.after.skip .loose).offset "" []])] := by
    simp [named, htext]
  exact ⟨_, _, htokens, htokens ▸ hlaid, hrest⟩

end Language

/-! ### Bytes of a text -/

theorem Text.length_utf8 : ∀ cs : List Char, (cs.flatMap String.utf8EncodeChar).length = byteLength cs
  | [] => rfl
  | c :: cs => by
    rw [List.flatMap_cons, List.length_append, String.length_utf8EncodeChar, length_utf8 cs, byteLength]

/-- A character of one byte is found at its offset. -/
theorem Cursor.At.byte {text : String} {i : Nat} {x : Char} (h : (Cursor.ofText text).At i x)
    (hx : x.utf8Size = 1) : (Text.bytes text)[i]? = some x.toUInt8 := by
  obtain ⟨cs, d, rest, ⟨hread, hoffset⟩, rfl, hrest⟩ := h
  have htext : text.toList = cs ++ x :: rest := by
    rw [← hrest]
    exact hread
  have hlength : d.offset = (cs.flatMap String.utf8EncodeChar).length := by
    rw [hoffset, Text.length_utf8]
    exact Nat.zero_add _
  rw [Text.bytes, htext, List.flatMap_append, hlength, List.getElem?_append_right le_rfl, Nat.sub_self,
    List.flatMap_cons, String.utf8EncodeChar_eq_singleton hx]
  rfl

open FlowSelect.Language

/-- **Tokenisation loses nothing.** The tokens of a filter are a tree over the whole text: every token is
the stretch of the text that its span names, and the tokens inside it lie in that stretch, one after
another. Every byte of the text belongs to exactly one leaf, or to none and then it is a blank, a bracket,
or a quote at an end of a quoted text. Leaves are operators, columns, values and what stands between
quotes, beside the empty one at the end; only what stands between quotes holds white space. -/
theorem tokenisation_loses_nothing (text : String) (ts : List Token)
    (h : tokens? program text = some ts) :
    (∃ children, ts = [.node .program 0 text children]) ∧
      (∀ t ∈ Token.all ts, t.span.Cuts text t.text ∧ t.Nests) ∧
      (∀ i < (Text.bytes text).length,
        (Token.leaves ts).countP (Token.holds i) = 1 ∨
          (Token.leaves ts).countP (Token.holds i) = 0 ∧
            ((∃ x ∈ gaps, (Text.bytes text)[i]? = some x.toUInt8) ∨
              (Text.bytes text)[i]? = some '"'.toUInt8 ∧
                ∃ q ∈ Token.all ts, q.rule = .quoted ∧ (i = q.start ∨ i + 1 = q.stop))) ∧
      ∀ t ∈ Token.leaves ts,
        (t.rule.isLexeme = true ∨ t.rule = .endOfInput ∧ t.text = "") ∧
          (t.rule ≠ .quotedText → ∀ x ∈ t.text.toList, Text.isBlank x = false) := by
  obtain ⟨children, d, hts, hlaid, hend⟩ := program_laid h
  refine ⟨⟨children, hts⟩, fun t ht => ⟨span_cuts h ht, hlaid.nests t ht⟩, ?_, ?_⟩
  · intro i hi
    have hstop : d.offset = (Text.bytes text).length := by
      obtain ⟨cs, hread, hoffset⟩ := hlaid.reads
      rw [hend, List.append_nil] at hread
      rw [Text.bytes, Text.length_utf8, hoffset, ← hread]
      exact Nat.zero_add _
    refine (hlaid.covers i (Nat.zero_le i) (by omega)).imp_right (And.imp_right ?_)
    rintro (⟨x, hx, hat⟩ | ⟨hat, hquote⟩)
    · exact .inl ⟨x, hx, hat.byte (utf8Size_of_mem_gaps hx)⟩
    · exact .inr ⟨hat.byte rfl, hquote⟩
  · intro t ht
    rcases hlaid.leaves t ht with ⟨hlexeme, hblank⟩ | ⟨hrule, hnil⟩
    · exact ⟨.inl hlexeme, hblank⟩
    · refine ⟨.inr ⟨hrule, ?_⟩, fun _ => by simp [hnil]⟩
      rw [← String.ofList_toList (s := t.text), hnil]

/-- Brackets of both kinds, blanks at the ends, and blanks, a bracket and a wide character in quotes. -/
theorem tokenisation_loses_nothing_quotes :
    let text := "not(%host \"é (\" or (%flg & 2)==2)\t"
    ∃ ts, tokens? program text = some ts ∧
      (Token.leaves ts).map Token.text = ["not", "%host", "é (", "or", "%flg", "&", "2", "==", "2", ""] ∧
      (∀ t ∈ Token.all ts, t.span.Cuts text t.text ∧ t.Nests) ∧
      (∀ i < (Text.bytes text).length,
        (Token.leaves ts).countP (Token.holds i) = 1 ∨
          (Token.leaves ts).countP (Token.holds i) = 0 ∧
            ((∃ x ∈ gaps, (Text.bytes text)[i]? = some x.toUInt8) ∨
              (Text.bytes text)[i]? = some '"'.toUInt8 ∧
                ∃ q ∈ Token.all ts, q.rule = .quoted ∧ (i = q.start ∨ i + 1 = q.stop))) ∧
      ∀ t ∈ Token.leaves ts, t.rule ≠ .quotedText → ∀ x ∈ t.text.toList, Text.isBlank x = false := by
  intro text
  have htexts : (tokens? program text).map (fun ts => (Token.leaves ts).map Token.text) =
      some ["not", "%host", "é (", "or", "%flg", "&", "2", "==", "2", ""] := by
    decide +kernel
  obtain ⟨ts, h, htexts⟩ := Option.map_eq_some_iff.mp htexts
  obtain ⟨-, htree, hbytes, hleaves⟩ := tokenisation_loses_nothing text ts h
  exact ⟨ts, h, htexts, htree, hbytes, fun t ht => (hleaves t ht).2⟩

end FlowSelect
