/-
# Where tokens stand

Every token of a match, at whatever depth, stands in the text: the text of the token is what is
found at its offset. So a report that names a token names a stretch of the text. And the tokens are
listed in the order in which they start, parents before what is inside them.

Such facts are relations between two places of a text and the tokens found between them. A match is put
together from what was read without a token, from matches one after another and from the tokens of rules,
so a relation that is kept by these three holds of every match (`Pattern.run_composes`).

Key definitions: `Token.all`, `Pattern.sources`, `Cursor.Composes`, `Cursor.HoldsAll`, `Cursor.Ordered`,
`Span.Cuts`.
Key theorems: `Pattern.run_composes`, `Language.tokens_compose`, `Language.token_stands`,
`Language.span_cuts`, `Language.tokens_ordered`.
-/
import FlowSelect.Proofs.Grammar.Depth

namespace FlowSelect

/-! ### Listings -/

namespace Token

theorem listingAll_append (k : Nat) : ∀ ts us : List Token,
    listingAll k (ts ++ us) = listingAll k ts ++ listingAll k us
  | [], us => rfl
  | t :: ts, us => by
    rw [List.cons_append, listingAll, listingAll, listingAll_append k ts us, List.append_assoc]

mutual

theorem listing_snd (k l : Nat) : ∀ t : Token, (listing k t).map Prod.snd = (listing l t).map Prod.snd
  | .node r start text children => by
    simp only [listing, List.map_cons, listingAll_snd (k + 1) (l + 1) children]

/-- The depth that a listing starts with does not matter for its tokens. -/
theorem listingAll_snd (k l : Nat) : ∀ ts : List Token,
    (listingAll k ts).map Prod.snd = (listingAll l ts).map Prod.snd
  | [] => rfl
  | t :: ts => by
    simp only [listingAll, List.map_append, listing_snd k l t, listingAll_snd k l ts]

end

/-- The tokens and all tokens inside them, parents first. -/
def all (ts : List Token) : List Token := (listingAll 0 ts).map Prod.snd

@[simp] theorem all_nil : all [] = [] := rfl

@[simp] theorem all_append (ts us : List Token) : all (ts ++ us) = all ts ++ all us := by
  rw [all, listingAll_append, List.map_append, all, all]

@[simp] theorem all_node (r : Rule) (start : Nat) (text : String) (children : List Token) :
    all [.node r start text children] = .node r start text children :: all children := by
  simp only [all, listingAll, listing, List.append_nil, List.map_cons, listingAll_snd (0 + 1) 0 children]

theorem mem_all_iff {ts : List Token} {t : Token} : t ∈ all ts ↔ ∃ k, (k, t) ∈ listingAll 0 ts := by
  simp [all]

end Token

/-! ### Invariants of matches -/

/-- A relation between two places and the tokens found between them that reading without a token keeps,
and one match after another. -/
structure Cursor.Composes (R : Cursor → List Token → Cursor → Prop) : Prop where
  reads : ∀ {c cs d}, c.Reads cs d → R c [] d
  append : ∀ {c ts d us e}, R c ts d → R d us e → R c (ts ++ us) e

namespace Pattern

/-- The rules whose tokens a match may leave, `none` for the tokens of an expression in brackets. -/
def sources : Pattern → List (Option Rule)
  | .seq p q => p.sources ++ q.sources
  | .alt p q => p.sources ++ q.sources
  | .many p => p.sources
  | .opt p => p.sources
  | .rule r _ body => some r :: body.sources
  | .nested => [none]
  | _ => []

variable {nested : Matcher} {R : Cursor → List Token → Cursor → Prop}

/-- **A relation that reading, composition and the rules of a pattern keep holds of its matches.** -/
theorem run_composes (hR : Cursor.Composes R) (hn : nested.Advances) :
    ∀ (p : Pattern), (none ∈ p.sources → ∀ s c m, nested s c = some m → R c m.tokens m.after) →
      (∀ r, some r ∈ p.sources → ∀ {c cs ts d}, c.Reads cs d → R c ts d →
        R c [.node r c.offset (c.textTo d) ts] d) →
      ∀ {s : Spacing} {c : Cursor} {m : Match}, p.run nested s c = some m → R c m.tokens m.after := by
  -- a match without tokens has only read something
  have hbare : ∀ {p : Pattern} {s : Spacing} {c : Cursor} {m : Match} {o : Option Cursor},
      p.run nested s c = some m → bare o = some m → R c m.tokens m.after := by
    intro p s c m o h hm
    obtain ⟨cs, hc, -⟩ := run_reads hn p h
    obtain ⟨d, -, rfl⟩ := bare_eq_some.mp hm
    exact hR.reads hc
  intro p
  induction p with
  | literal ls => exact fun _ _ _ _ _ h => hbare h h
  | letters ls => exact fun _ _ _ _ _ h => hbare h h
  | one k => exact fun _ _ _ _ _ h => hbare h h
  | start =>
    intro _ _ s c m h
    obtain ⟨-, rfl⟩ := run_start_eq_some.mp h
    exact hR.reads (Cursor.reads_nil c)
  | finish =>
    intro _ _ s c m h
    obtain ⟨-, rfl⟩ := run_finish_eq_some.mp h
    exact hR.reads (Cursor.reads_nil c)
  | seq p q ihp ihq =>
    intro hnested hrule s c m h
    obtain ⟨m₁, m₂, h₁, h₂, rfl⟩ := run_seq_eq_some.mp h
    obtain ⟨bs, -, hb⟩ := Cursor.skip_reads s m₁.after
    have hp := ihp (fun h => hnested (List.mem_append_left _ h))
      (fun r h => hrule r (List.mem_append_left _ h)) h₁
    have hq := ihq (fun h => hnested (List.mem_append_right _ h))
      (fun r h => hrule r (List.mem_append_right _ h)) h₂
    exact hR.append hp (hR.append (hR.reads hb) hq)
  | alt p q ihp ihq =>
    intro hnested hrule s c m h
    rcases run_alt_eq_some.mp h with h | ⟨-, h⟩
    · exact ihp (fun h => hnested (List.mem_append_left _ h))
        (fun r h => hrule r (List.mem_append_left _ h)) h
    · exact ihq (fun h => hnested (List.mem_append_right _ h))
        (fun r h => hrule r (List.mem_append_right _ h)) h
  | many p ihp =>
    intro hnested hrule s c m h
    refine run_many_keeps (P := fun m => R c m.tokens m.after) (hR.reads (Cursor.reads_nil c))
      (fun n hn => ihp hnested hrule hn) ?_ h
    intro m n hm hn
    obtain ⟨bs, -, hb⟩ := Cursor.skip_reads s m.after
    have hround : R m.after ([] ++ n.tokens) n.after := hR.append (hR.reads hb) (ihp hnested hrule hn)
    exact hR.append hm hround
  | opt p ihp =>
    intro hnested hrule s c m h
    rcases run_opt_eq_some.mp h with h | ⟨-, rfl⟩
    · exact ihp hnested hrule h
    · exact hR.reads (Cursor.reads_nil c)
  | absent p ihp =>
    intro _ _ s c m h
    obtain ⟨-, rfl⟩ := run_absent_eq_some.mp h
    exact hR.reads (Cursor.reads_nil c)
  | rule r spacing body ih =>
    intro hnested hrule s c m h
    obtain ⟨m₁, h₁, rfl⟩ := run_rule_eq_some.mp h
    obtain ⟨cs, hc, -⟩ := run_reads hn body h₁
    have hbody := ih (fun h => hnested (List.mem_cons_of_mem _ h))
      (fun r h => hrule r (List.mem_cons_of_mem _ h)) h₁
    unfold named
    split
    · exact hR.reads hc
    · exact hrule r List.mem_cons_self hc hbody
  | nested => exact fun hnested _ s c m h => hnested (by simp [sources]) s c m h

end Pattern

/-! ### Tokens stand in the text -/

namespace Cursor

/-- The text from here on has the token's text at the token's offset. -/
def Holds (c : Cursor) (t : Token) : Prop :=
  ∃ cs d e, c.Reads cs d ∧ d.offset = t.start ∧ d.Reads t.text.toList e

/-- The text from here on holds the tokens and all tokens inside them. -/
def HoldsAll (c : Cursor) (ts : List Token) : Prop := ∀ t ∈ Token.all ts, c.Holds t

/-- Between two places of a text stand tokens of it. -/
def Places (c : Cursor) (ts : List Token) (d : Cursor) : Prop := (∃ cs, c.Reads cs d) ∧ c.HoldsAll ts

theorem composes_places : Composes Places where
  reads h := ⟨⟨_, h⟩, by simp [HoldsAll]⟩
  append := by
    rintro c ts d us e ⟨⟨cs, hc⟩, hts⟩ ⟨⟨ds, hd⟩, hus⟩
    refine ⟨⟨cs ++ ds, hc.append hd⟩, fun t ht => ?_⟩
    rw [Token.all_append] at ht
    rcases List.mem_append.mp ht with ht | ht
    · exact hts t ht
    · obtain ⟨es, f, g, hf, hstart, hg⟩ := hus t ht
      exact ⟨cs ++ es, f, g, hc.append hf, hstart, hg⟩

/-- A rule that has read `cs` stands here with the tokens inside it. -/
theorem Places.node {c d : Cursor} {cs : List Char} {ts : List Token} (hc : c.Reads cs d)
    (h : c.Places ts d) (r : Rule) : c.Places [.node r c.offset (c.textTo d) ts] d := by
  refine ⟨h.1, fun t ht => ?_⟩
  rw [Token.all_node] at ht
  rcases List.mem_cons.mp ht with rfl | ht
  · refine ⟨[], c, d, reads_nil c, rfl, ?_⟩
    simpa [Token.text, hc.textTo_eq] using hc
  · exact h.2 t ht

/-! ### Tokens are listed in order -/

/-- Between two places tokens start there, one after another. -/
def Ordered (c : Cursor) (ts : List Token) (d : Cursor) : Prop :=
  c.offset ≤ d.offset ∧ (∀ t ∈ Token.all ts, c.offset ≤ t.start ∧ t.start ≤ d.offset) ∧
    (Token.all ts).Pairwise fun t u => t.start ≤ u.start

theorem composes_ordered : Composes Ordered where
  reads h := ⟨by rw [h.2]; exact Nat.le_add_right _ _, by simp, by simp⟩
  append := by
    rintro c ts d us e ⟨hcd, hts, htsorder⟩ ⟨hde, hus, husorder⟩
    refine ⟨hcd.trans hde, fun t ht => ?_, ?_⟩
    · rw [Token.all_append] at ht
      rcases List.mem_append.mp ht with ht | ht
      · exact ⟨(hts t ht).1, (hts t ht).2.trans hde⟩
      · exact ⟨hcd.trans (hus t ht).1, (hus t ht).2⟩
    · rw [Token.all_append, List.pairwise_append]
      exact ⟨htsorder, husorder, fun t ht u hu => (hts t ht).2.trans (hus u hu).1⟩

/-- A token starts no later than the tokens inside it. -/
theorem Ordered.node {c d : Cursor} {ts : List Token} (h : c.Ordered ts d) (r : Rule) (text : String) :
    c.Ordered [.node r c.offset text ts] d := by
  obtain ⟨hcd, hts, horder⟩ := h
  refine ⟨hcd, fun t ht => ?_, ?_⟩
  · rw [Token.all_node] at ht
    rcases List.mem_cons.mp ht with rfl | ht
    · exact ⟨le_rfl, hcd⟩
    · exact hts t ht
  · rw [Token.all_node, List.pairwise_cons]
    exact ⟨fun t ht => (hts t ht).1, horder⟩

end Cursor

/-- A stretch of a text cuts an excerpt out of it. -/
def Span.Cuts (span : Span) (text excerpt : String) : Prop :=
  ∃ before rest, text.toList = before ++ excerpt.toList ++ rest ∧
    span.offset = Text.byteLength before ∧ span.length = Text.byteLength excerpt.toList

namespace Language

theorem matchExpr_composes {R : Cursor → List Token → Cursor → Prop} (hR : Cursor.Composes R)
    (hrule : ∀ {r c cs ts d}, c.Reads cs d → R c ts d → R c [.node r c.offset (c.textTo d) ts] d) :
    ∀ depth s c m, matchExpr depth s c = some m → R c m.tokens m.after
  | 0, s, c, m, h => by simp [matchExpr] at h
  | depth + 1, s, c, m, h =>
    Pattern.run_composes hR (matchExpr_advances depth) expr
      (fun _ => matchExpr_composes hR hrule depth) (fun r _ => hrule) h

/-- **A relation that reading, composition and all rules keep holds of the tokens of a text.** -/
theorem tokens_compose {R : Cursor → List Token → Cursor → Prop} (hR : Cursor.Composes R)
    (hrule : ∀ {r c cs ts d}, c.Reads cs d → R c ts d → R c [.node r c.offset (c.textTo d) ts] d)
    {p : Pattern} {text : String} {ts : List Token} (h : tokens? p text = some ts) :
    ∃ d, R (Cursor.ofText text) ts d := by
  obtain ⟨m, hm, rfl⟩ := Option.map_eq_some_iff.mp h
  exact ⟨m.after, Pattern.run_composes hR (matchExpr_advances (depthOf text)) p
    (fun _ => matchExpr_composes hR hrule (depthOf text)) (fun r _ => hrule) hm⟩

/-- **A token of a text is a stretch of it**, at the token's offset. -/
theorem token_stands {p : Pattern} {text : String} {ts : List Token} (h : tokens? p text = some ts)
    {k : Nat} {t : Token} (ht : (k, t) ∈ Token.listingAll 0 ts) :
    ∃ before rest, text.toList = before ++ t.text.toList ++ rest ∧
      t.start = Text.byteLength before := by
  obtain ⟨last, -, hholds⟩ := tokens_compose Cursor.composes_places (fun hc hp => hp.node hc _) h
  obtain ⟨cs, d, e, ⟨hrest, hoffset⟩, hstart, ⟨hrest', -⟩⟩ := hholds t (Token.mem_all_iff.mpr ⟨k, ht⟩)
  refine ⟨cs, e.rest, ?_, ?_⟩
  · rw [List.append_assoc, ← hrest']
    exact hrest
  · rw [← hstart, hoffset]
    simp [Cursor.ofText]

/-- The stretch of a token cuts the token's text out. -/
theorem span_cuts {p : Pattern} {text : String} {ts : List Token} (h : tokens? p text = some ts)
    {t : Token} (ht : t ∈ Token.all ts) : t.span.Cuts text t.text := by
  obtain ⟨k, ht⟩ := Token.mem_all_iff.mp ht
  obtain ⟨before, rest, htext, hstart⟩ := token_stands h ht
  exact ⟨before, rest, htext, hstart, rfl⟩

/-- **The tokens of a text are listed in the order in which they start.** -/
theorem tokens_ordered {p : Pattern} {text : String} {ts : List Token} (h : tokens? p text = some ts) :
    (Token.all ts).Pairwise fun t u => t.start ≤ u.start := by
  obtain ⟨last, -, -, horder⟩ := tokens_compose Cursor.composes_ordered (fun _ ho => ho.node _ _) h
  exact horder

end Language

end FlowSelect
