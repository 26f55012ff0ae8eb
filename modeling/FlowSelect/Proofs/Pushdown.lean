/-
# Push-down is sound

What a filter hands to an engine is the text of a layout: that of its predicate without the
comparisons that need a look at the row, bracketed and joined to the bounds of the time window
(`Filter.engineText_eq`). Brackets stand around every chain of the other connective, so the layout is
even and its text has one reading. Leaving a comparison out reads it as true (`Formula.relax_eval`),
so the engine returns every row of the window that the filter accepts.

Key definitions: `Predicate.layout`, `Filter.layout?`, `Filter.admits`, `Configuration.InWindow`.
Key theorems: `Predicate.layout_text`, `Filter.engineText_eq`, `pushdown_sound`.
-/
import FlowSelect.Proofs.Compile.Integers
import FlowSelect.Proofs.Engine.Names
import FlowSelect.Proofs.Engine.Reading
import FlowSelect.Proofs.Relaxation

namespace FlowSelect

/-! ### Layouts of predicates -/

/-- Whether the outermost connective is the given one. -/
def Formula.rooted {α : Type} : Connective → Formula α → Bool
  | .and, p => p.isAnd
  | .or, p => p.isOr

theorem Connective.rooted_join {α : Type} (k k' : Connective) (p q : Formula α) :
    (k.join p q).rooted k' = decide (k = k') := by
  cases k <;> cases k' <;> rfl

namespace Engine.Layout

/-- A layout in brackets when `b` holds. -/
def wrap (b : Bool) (l : Layout) : Layout := if b then .group l else l

theorem wrap_text (b : Bool) (l : Layout) : (l.wrap b).text = Formula.bracket b l.text := by
  cases b <;> rfl

theorem wrap_formula (b : Bool) (l : Layout) : (l.wrap b).formula = l.formula := by
  cases b <;> rfl

theorem wrap_named {l : Layout} (h : l.Named) (b : Bool) : (l.wrap b).Named := by
  cases b <;> exact h

theorem wrap_even {l : Layout} (h : l.Even) (b : Bool) : (l.wrap b).Even := by
  cases b <;> exact h

/-- The text of a layout is not empty: every comparison has a blank before its relation. -/
theorem text_ne_empty : ∀ l : Layout, l.text.isEmpty = false
  | .atom c => by simp [text, Comparison.render, String.isEmpty_eq_false_iff]
  | .group inner => by simp [text, String.isEmpty_eq_false_iff]
  | .join k left right => by simp [text, String.isEmpty_eq_false_iff]

end Engine.Layout

namespace Predicate

/-- The layout of a predicate's text: a chain of the other connective stands in brackets. -/
def layout : Predicate → Engine.Layout
  | .atom c => .atom c
  | .and l r => .join .and ((layout l).wrap l.isOr) ((layout r).wrap r.isOr)
  | .or l r => .join .or ((layout l).wrap l.isAnd) ((layout r).wrap r.isAnd)

/-- The text of a member of a chain: a chain of the other connective stands in brackets. -/
def memberText (k : Connective) (p : Predicate) : String := Formula.bracket (p.rooted k.other) p.text

/-- The text of two members of a chain. -/
def linkedText (k : Connective) (left right : String) : String := left ++ " " ++ k.word ++ " " ++ right

theorem text_join (k : Connective) (p q : Predicate) :
    text (k.join p q) = linkedText k (p.memberText k) (q.memberText k) := by
  have hand : " AND " = " " ++ Connective.and.word ++ " " := rfl
  have hor : " OR " = " " ++ Connective.or.word ++ " " := rfl
  cases k with
  | and =>
    simp only [Connective.join, text, Formula.render, hand, linkedText, memberText, Connective.other,
      Formula.rooted, String.append_assoc]
  | or =>
    simp only [Connective.join, text, Formula.render, hor, linkedText, memberText, Connective.other,
      Formula.rooted, String.append_assoc]

theorem layout_join (k : Connective) (p q : Predicate) :
    layout (k.join p q) =
      .join k (p.layout.wrap (p.rooted k.other)) (q.layout.wrap (q.rooted k.other)) := by
  cases k <;> rfl

theorem layout_text (p : Predicate) : p.layout.text = p.text := by
  have hjoin : ∀ (k : Connective) (l r : Predicate), l.layout.text = l.text → r.layout.text = r.text →
      (layout (k.join l r)).text = text (k.join l r) := by
    intro k l r hl hr
    rw [layout_join, text_join, Engine.Layout.text, Engine.Layout.wrap_text, Engine.Layout.wrap_text, hl, hr]
    rfl
  induction p with
  | atom c => rfl
  | and l r ihl ihr => exact hjoin .and l r ihl ihr
  | or l r ihl ihr => exact hjoin .or l r ihl ihr

theorem layout_formula (p : Predicate) : p.layout.formula = p := by
  induction p with
  | atom c => rfl
  | and l r ihl ihr | or l r ihl ihr =>
    rw [layout, Engine.Layout.formula, Engine.Layout.wrap_formula, Engine.Layout.wrap_formula, ihl, ihr]
    rfl

theorem layout_wrap_root (k : Connective) (p : Predicate) :
    (p.layout.wrap (p.rooted k)).root? ≠ some k := by
  cases k <;> cases p <;> simp [layout, Formula.rooted, Formula.isAnd, Formula.isOr, Engine.Layout.wrap,
    Engine.Layout.root?]

theorem layout_even : ∀ p : Predicate, p.layout.Even
  | .atom _ => trivial
  | .and l r => ⟨layout_wrap_root .or l, layout_wrap_root .or r,
      Engine.Layout.wrap_even (layout_even l) _, Engine.Layout.wrap_even (layout_even r) _⟩
  | .or l r => ⟨layout_wrap_root .and l, layout_wrap_root .and r,
      Engine.Layout.wrap_even (layout_even l) _, Engine.Layout.wrap_even (layout_even r) _⟩

theorem layout_named {p : Predicate} : (∀ c ∈ p.atoms, c.operand.Named) → p.layout.Named := by
  induction p with
  | atom c => exact fun h => h c List.mem_cons_self
  | and l r ihl ihr | or l r ihl ihr =>
    intro h
    have hl := ihl fun c hc => h c (List.mem_append_left _ hc)
    have hr := ihr fun c hc => h c (List.mem_append_right _ hc)
    exact ⟨Engine.Layout.wrap_named hl _, Engine.Layout.wrap_named hr _⟩

/-- Of a named predicate the engine gets comparisons with named operands only. -/
theorem pushdown?_layout_named {p q : Predicate} (h : p.Named) (hq : p.pushdown? = some q) :
    q.layout.Named := by
  refine layout_named fun c hc => ?_
  obtain ⟨hmem, hexact⟩ := Formula.mem_atoms_of_relax hq c hc
  rcases h c hmem with hrow | hnamed
  · simp [hrow] at hexact
  · exact hnamed

end Predicate

/-! ### Layouts of filters -/

/-- The time column of a row holds an integer within the time window, if there is one. -/
def Configuration.InWindow (c : Configuration) (row : Row) : Prop :=
  ∀ w ∈ c.window, ∃ n, (row.get? c.schema.timestampColumn).bind Cell.integer? = some n ∧
    w.start.toInt ≤ n ∧ n ≤ w.stop.toInt

namespace TimeWindow

/-- The layout of a time window: its two bounds on a column. -/
def layout (column : String) (w : TimeWindow) : Engine.Layout :=
  .join .and (.atom ⟨.column column, .ge, .int w.start⟩) (.atom ⟨.column column, .le, .int w.stop⟩)

theorem layout_text (column : String) (w : TimeWindow) :
    (w.layout column).text = Filter.windowText column w := by
  have hge : " >= " = " " ++ Relation.ge.symbol ++ " " := rfl
  have hand : " AND " = " " ++ Connective.and.word ++ " " := rfl
  have hle : " <= " = " " ++ Relation.le.symbol ++ " " := rfl
  simp only [layout, Engine.Layout.text, Comparison.render, Operand.render, Constant.render,
    Filter.windowText, hge, hand, hle, String.append_assoc]

theorem layout_even (column : String) (w : TimeWindow) : (w.layout column).Even :=
  ⟨by simp [Engine.Layout.root?], by simp [Engine.Layout.root?], trivial, trivial⟩

theorem layout_named {column : String} (h : Text.isName column = true) (w : TimeWindow) :
    (w.layout column).Named :=
  ⟨h, h⟩

/-- A comparison of a column with an integer asks for an integer in the column. -/
theorem accepts_column_iff (row : Row) (column : String) (r : Relation) (k : Int64) :
    Comparison.accepts row ⟨.column column, r, .int k⟩ = true ↔
      ∃ n, (row.get? column).bind Cell.integer? = some n ∧ r.Between n k.toInt := by
  refine (comparison_integer_iff (o := .column column) (k := .int k) rfl r).trans ?_
  simp only [Operand.value?_eq_int_iff, Row.Stores]

theorem layout_accepts_iff (row : Row) (column : String) (w : TimeWindow) :
    (w.layout column).formula.accepts row = true ↔
      ∃ n, (row.get? column).bind Cell.integer? = some n ∧ w.start.toInt ≤ n ∧ n ≤ w.stop.toInt := by
  have hjoin : (w.layout column).formula.accepts row =
      (Comparison.accepts row ⟨.column column, .ge, .int w.start⟩ &&
        Comparison.accepts row ⟨.column column, .le, .int w.stop⟩) := rfl
  rw [hjoin, Bool.and_eq_true, accepts_column_iff, accepts_column_iff]
  constructor
  · rintro ⟨⟨n, hn, hstart⟩, m, hm, hstop⟩
    obtain rfl : n = m := Option.some.inj (hn.symm.trans hm)
    exact ⟨n, hn, hstart, hstop⟩
  · rintro ⟨n, hn, hstart, hstop⟩
    exact ⟨⟨n, hn, hstart⟩, n, hn, hstop⟩

end TimeWindow

namespace Filter

/-- The layout of the predicate's text, if the engine can evaluate any of it. -/
def predicateLayout? (f : Filter) : Option Engine.Layout :=
  (f.predicate.bind Predicate.pushdown?).map Predicate.layout

/-- The layout of a filter's text, if there is any. -/
def layout? (f : Filter) : Option Engine.Layout :=
  match f.predicateLayout?, f.window with
  | l?, none => l?
  | none, some w => some (w.layout f.timestampColumn)
  | some l, some w => some (.join .and (.group l) (w.layout f.timestampColumn))

theorem predicateText_eq (f : Filter) :
    f.predicateText = (f.predicateLayout?.map Engine.Layout.text).getD "" := by
  unfold predicateText predicateLayout?
  rcases f.predicate with _ | p
  · rfl
  · simp only [Predicate.engineText, Option.bind_some]
    cases p.pushdown? with
    | none => rfl
    | some q => exact q.layout_text.symm

/-- **The text of a filter is that of its layout.** -/
theorem engineText_eq (f : Filter) : f.engineText = (f.layout?.map Engine.Layout.text).getD "" := by
  have hpredicate := f.predicateText_eq
  unfold engineText layout?
  cases hw : f.window with
  | none => exact hpredicate
  | some w =>
    cases hl : f.predicateLayout? with
    | none =>
      have hempty : f.predicateText = "" := by rw [hpredicate, hl]; rfl
      simp [hempty, TimeWindow.layout_text]
    | some l =>
      -- the text of a layout is never empty, so the brackets are written
      have htext : f.predicateText = l.text := by rw [hpredicate, hl]; rfl
      have hand : ") AND " = ")" ++ (" " ++ (Connective.and.word ++ " ")) := rfl
      simp only [htext, l.text_ne_empty, hand, Bool.false_eq_true, if_false, Option.map_some,
        Option.getD_some, Engine.Layout.text, TimeWindow.layout_text, String.append_assoc]

theorem layout?_named {f : Filter} (hp : ∀ p ∈ f.predicate, p.Named)
    (hcolumn : Text.isName f.timestampColumn = true) : ∀ l ∈ f.layout?, l.Named := by
  have hpredicate : ∀ l ∈ f.predicateLayout?, l.Named := by
    intro l hl
    obtain ⟨q, hq, rfl⟩ := Option.map_eq_some_iff.mp hl
    obtain ⟨p, hp', hq⟩ := Option.bind_eq_some_iff.mp hq
    exact Predicate.pushdown?_layout_named (hp p hp') hq
  intro l hl
  unfold layout? at hl
  split at hl
  · exact hpredicate l hl
  · obtain rfl := Option.some.inj hl
    exact TimeWindow.layout_named hcolumn _
  · next l' w hl' _ =>
    obtain rfl := Option.some.inj hl
    exact ⟨hpredicate l' hl', TimeWindow.layout_named hcolumn w⟩

theorem layout?_even (f : Filter) : ∀ l ∈ f.layout?, l.Even := by
  have hpredicate : ∀ l ∈ f.predicateLayout?, l.Even := by
    intro l hl
    obtain ⟨q, -, rfl⟩ := Option.map_eq_some_iff.mp hl
    exact q.layout_even
  intro l hl
  unfold layout? at hl
  split at hl
  · exact hpredicate l hl
  · obtain rfl := Option.some.inj hl
    exact TimeWindow.layout_even _ _
  · next l' w hl' _ =>
    obtain rfl := Option.some.inj hl
    exact ⟨by simp [Engine.Layout.root?], by simp [TimeWindow.layout, Engine.Layout.root?, Connective.other],
      hpredicate l' hl', TimeWindow.layout_even _ w⟩

/-- Whether a filter accepts a row when each comparison that needs a look at the row is read as
true. -/
def admits (f : Filter) (row : Row) : Bool :=
  f.predicate.all fun p => p.eval fun c => c.needsRow || c.accepts row

theorem predicateLayout?_accepts (f : Filter) (row : Row) :
    (f.predicateLayout?.all fun l => l.formula.accepts row) = f.admits row := by
  unfold predicateLayout? admits
  rcases f.predicate with _ | p
  · rfl
  · have hrelax := Formula.relax_eval (fun c => !Comparison.needsRow c) (Comparison.accepts row) p
    simp only [Bool.not_not] at hrelax
    rw [Option.all_some, ← hrelax, Option.bind_some, ← Predicate.pushdown?]
    cases p.pushdown? with
    | none => rfl
    | some q => simp [Predicate.layout_formula, Predicate.accepts]

/-- What the layout of a compiled filter accepts. -/
theorem layout?_accepts_iff (c : Configuration) (o : Option Predicate) (row : Row) :
    ((ofPredicate c o).layout?.all fun l => l.formula.accepts row) = true ↔
      (ofPredicate c o).admits row = true ∧ c.InWindow row := by
  rw [← predicateLayout?_accepts]
  unfold layout? Configuration.InWindow
  cases hw : c.window with
  | none => simp [ofPredicate, hw]
  | some w =>
    have hwindow := TimeWindow.layout_accepts_iff row c.schema.timestampColumn w
    cases hl : (ofPredicate c o).predicateLayout? with
    | none => simpa [ofPredicate, hw] using hwindow
    | some l =>
      have hjoin : Predicate.accepts row
          (Engine.Layout.join .and (.group l) (w.layout c.schema.timestampColumn)).formula =
          (l.formula.accepts row && (w.layout c.schema.timestampColumn).formula.accepts row) := rfl
      simp [ofPredicate, hw, hjoin, hwindow]

/-- The text of a filter has one reading, whichever connective binds tighter. -/
theorem read?_engineText {f : Filter} (hnamed : ∀ l ∈ f.layout?, l.Named) (tight : Connective) :
    Engine.read? tight f.engineText = some (f.layout?.map Engine.Layout.reading) := by
  rw [engineText_eq]
  cases hl : f.layout? with
  | none => rfl
  | some l => exact Engine.read?_text (hnamed l hl) (f.layout?_even l hl) tight

theorem accepts_reading (f : Filter) (row : Row) :
    Engine.accepts row (f.layout?.map Engine.Layout.reading) =
      f.layout?.all fun l => l.formula.accepts row := by
  cases hl : f.layout? with
  | none => rfl
  | some l => exact Engine.Layout.reading_accepts row (f.layout?_even l hl)

/-- A row that a filter accepts is not refused by leaving comparisons out. -/
theorem admits_of_accepts {f : Filter} {row : Row} (h : f.accepts row = true) :
    f.admits row = true := by
  unfold accepts at h
  unfold admits
  split at h
  · next p hp =>
    rw [hp]
    exact Formula.eval_mono (fun c _ hc => by simp [hc]) h
  · next hp =>
    rw [hp]
    rfl

theorem admits_eq_accepts {f : Filter} (h : f.needsRow = false) (row : Row) :
    f.admits row = f.accepts row := by
  unfold needsRow at h
  unfold admits accepts
  cases hp : f.predicate with
  | none => rfl
  | some p =>
    rw [hp] at h
    have hneeds : ∀ a ∈ p.atoms, ¬a.needsRow = true := List.any_eq_false.mp h
    exact Formula.eval_congr fun a ha => by simp [hneeds a ha]

end Filter

/-- **Push-down is sound.** The text of a compiled filter has one reading, whichever of the two
connectives binds tighter. It accepts the rows of the time window that the filter accepts when each
comparison that needs a look at the row is read as true. So it accepts every row of the window that
the filter accepts, and no other where the filter needs no such look. -/
theorem pushdown_sound (c : Configuration) (hnames : c.schema.Named) (f : Filter)
    (hf : Filter.compile c = .ok f) :
    ∃ reading : Option Predicate,
      (∀ tight, Engine.read? tight f.engineText = some reading) ∧
      ∀ row : Row,
        (Engine.accepts row reading = true ↔ f.admits row = true ∧ c.InWindow row) ∧
        (f.accepts row = true → c.InWindow row → Engine.accepts row reading = true) ∧
        (f.needsRow = false →
          (Engine.accepts row reading = true ↔ f.accepts row = true ∧ c.InWindow row)) := by
  obtain ⟨o, rfl, hcases⟩ := Filter.compile_eq_ok_iff.mp hf
  have hpredicate : ∀ p ∈ o, p.Named := by
    rcases hcases with ⟨rfl, -⟩ | ⟨-, p, rfl, hp⟩
    · simp
    · simpa using compileText_named hnames hp
  have hlayout : ∀ l ∈ (Filter.ofPredicate c o).layout?, l.Named :=
    Filter.layout?_named hpredicate hnames.timestamp
  refine ⟨_, Filter.read?_engineText hlayout, fun row => ?_⟩
  have haccepts := Filter.layout?_accepts_iff c o row
  rw [← Filter.accepts_reading] at haccepts
  refine ⟨haccepts, fun haccepted hwindow => ?_, fun hneeds => ?_⟩
  · exact haccepts.mpr ⟨Filter.admits_of_accepts haccepted, hwindow⟩
  · rw [haccepts, Filter.admits_eq_accepts hneeds row]

/-- Columns that go by the words for the connectives, a text that holds one of them after a
backslash, and a host name that only a look at the row can decode. -/
theorem pushdown_sound_connective_names :
    let c : Configuration :=
      ⟨"%flag & 3 >= 2 or (%host \"x.org\" and e0id1 \"a\\ OR b\")",
        ⟨[⟨["%flag"], ["AND"], .number, none, none⟩, ⟨["%host"], ["e1id2"], .text, some .dns, none⟩],
          [], "OR"⟩,
        some ⟨10, 20⟩⟩
    let row : Row := ⟨[("OR", .uint 20), ("e0id1", .text "a\\ OR b")]⟩
    c.schema.Named ∧ ∃ f, Filter.compile c = .ok f ∧
      f.engineText = "((AND & 3) >= 2 OR e0id1 == \"a\\\\ OR b\") AND OR >= 10 AND OR <= 20" ∧
      f.accepts row = false ∧
      ∃ reading, (∀ tight, Engine.read? tight f.engineText = some reading) ∧
        Engine.accepts row reading = true := by
  intro c row
  have hnames : c.schema.Named := ⟨by decide, by decide, by decide⟩
  have hf : Filter.compile c = .ok
      ⟨some (.or (.atom ⟨.masked (.column "AND") .and 3, .ge, .int 2⟩)
        (.and (.atom ⟨.decoded .dns "e1id2", .eq, .text "x.org"⟩)
          (.atom ⟨.column "e0id1", .eq, .text "a\\ OR b"⟩))), some ⟨10, 20⟩, "OR"⟩ := by
    decide +kernel
  obtain ⟨reading, hread, hrows⟩ := pushdown_sound c hnames _ hf
  refine ⟨hnames, _, hf, by decide +kernel, by decide +kernel, reading, hread, ?_⟩
  have hwindow : c.InWindow row := by
    rintro w ⟨⟩
    exact ⟨20, by decide +kernel, by decide, by decide⟩
  exact (hrows row).1.mpr ⟨by decide +kernel, hwindow⟩

end FlowSelect
