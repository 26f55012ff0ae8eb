/-
# The lexemes of engine texts

Operands, comparisons and whole layouts are cut into the lexemes one would write down by hand: names
and numbers are words, quotes and backslashes in a text come out as they were, and nothing runs into
its neighbour. A layout is the form of an engine text: comparisons, brackets and connectives.

Key definitions: `Engine.Scans`, `Engine.Layout`, `Engine.Layout.lexemes`, `Operand.Named`.
Key theorems: `Engine.scans_quoted`, `Engine.integer?_toString`, `Engine.Layout.scan?_text`.
-/
import FlowSelect.Proofs.Engine.Reader
import FlowSelect.Proofs.Text.Digits

namespace FlowSelect

namespace Engine

open Scanner

/-! ### Scanning -/

theorem run_cons {s next : Scanner} {c : Char} {ls : List Lexeme} (h : s.step c = some (ls, next))
    (cs : List Char) : s.run (c :: cs) = (next.run cs).map (ls ++ ·) := by
  simp [run, h]

theorem run_cons_nil {s next : Scanner} {c : Char} (h : s.step c = some ([], next)) (cs : List Char) :
    s.run (c :: cs) = next.run cs := by
  rw [run_cons h]
  simp

/-- The lexeme before does not go on into these characters. -/
def Breaks (cs : List Char) : Prop := ∀ c ∈ cs.head?, ∀ k : Kind, k.contains c = false

/-- Before anything that a lexeme does not go on into, the characters are cut into the lexemes. -/
def Scans (cs : List Char) (ls : List Lexeme) : Prop :=
  ∀ rest, Breaks rest → between.run (cs ++ rest) = (between.run rest).map (ls ++ ·)

variable {cs ds : List Char} {ls ms : List Lexeme} {c : Char} {k : Kind}

theorem Scans.nil : Scans [] [] := fun rest _ => by simp

theorem Scans.append (hc : Scans cs ls) (hd : Scans ds ms) (hbreak : ∀ rest, Breaks (ds ++ rest)) :
    Scans (cs ++ ds) (ls ++ ms) := by
  intro rest hrest
  rw [List.append_assoc, hc _ (hbreak rest), hd rest hrest]
  simp [Function.comp_def]

theorem Scans.blank (h : Scans cs ls) : Scans (' ' :: cs) ls := fun rest hrest =>
  (run_cons_nil rfl _).trans (h rest hrest)

theorem Scans.opening (h : Scans cs ls) : Scans ('(' :: cs) (.opening :: ls) := by
  intro rest hrest
  rw [List.cons_append, run_cons rfl, h rest hrest]
  simp [Function.comp_def]

theorem Scans.closing (h : Scans cs ls) : Scans (')' :: cs) (.closing :: ls) := by
  intro rest hrest
  rw [List.cons_append, run_cons rfl, h rest hrest]
  simp [Function.comp_def]

theorem breaks_cons (h : ∀ k : Kind, k.contains c = false) (cs : List Char) : Breaks (c :: cs) := by
  rintro _ ⟨⟩
  exact h

theorem Scans.append_blank (hc : Scans cs ls) (hd : Scans ds ms) : Scans (cs ++ ' ' :: ds) (ls ++ ms) :=
  hc.append hd.blank fun _ => breaks_cons (fun k => by cases k <;> rfl) _

theorem Scans.append_opening (hc : Scans cs ls) (hd : Scans ds ms) :
    Scans (cs ++ '(' :: ds) (ls ++ .opening :: ms) :=
  hc.append hd.opening fun _ => breaks_cons (fun k => by cases k <;> rfl) _

theorem Scans.append_closing (hc : Scans cs ls) (hd : Scans ds ms) :
    Scans (cs ++ ')' :: ds) (ls ++ .closing :: ms) :=
  hc.append hd.closing fun _ => breaks_cons (fun k => by cases k <;> rfl) _

/-- A word or a sign goes on as far as its characters do. -/
theorem run_within : ∀ (ds cs rest : List Char), (∀ d ∈ ds, k.contains d = true) → Breaks rest →
    (within k cs).run (ds ++ rest) = (between.run rest).map (k.lexeme (cs ++ ds) :: ·)
  | [], cs, [], _, _ => by simp [run, finish]
  | [], cs, r :: rest, _, hrest => by
    have hr : k.contains r = false := hrest r rfl k
    rcases hstart : start r with _ | ⟨ls, next⟩
    · simp [run, step, hr, hstart]
    · simp [run, step, hr, hstart, Function.comp_def]
  | d :: ds, cs, rest, hd, hrest => by
    have hstep : (within k cs).step d = some ([], within k (cs ++ [d])) := by
      simp [step, hd d List.mem_cons_self]
    rw [List.cons_append, run_cons_nil hstep,
      run_within ds (cs ++ [d]) rest (fun x hx => hd x (List.mem_cons_of_mem d hx)) hrest,
      List.append_assoc, List.singleton_append]

theorem start_of_contains (h : k.contains c = true) : start c = some ([], within k [c]) := by
  cases k with
  | word => simp [start, h]
  | sign =>
    have hc : c = '=' ∨ c = '!' ∨ c = '<' ∨ c = '>' ∨ c = '&' ∨ c = '|' ∨ c = '^' := by
      simpa [Kind.contains] using h
    rcases hc with rfl | rfl | rfl | rfl | rfl | rfl | rfl <;> rfl

/-- A word or a sign is one lexeme. -/
theorem scans_kind (hne : cs ≠ []) (h : ∀ d ∈ cs, k.contains d = true) : Scans cs [k.lexeme cs] := by
  obtain ⟨d, ds, rfl⟩ := List.exists_cons_of_ne_nil hne
  intro rest hrest
  have hstep : between.step d = some ([], within k [d]) := start_of_contains (h d List.mem_cons_self)
  rw [List.cons_append, run_cons_nil hstep,
    run_within ds [d] rest (fun x hx => h x (List.mem_cons_of_mem d hx)) hrest]
  simp

/-- A text in quotes comes out as it was, whatever its characters are. -/
theorem run_text : ∀ (ds cs rest : List Char),
    (Scanner.text cs).run (Constant.escape ds ++ '"' :: rest) =
      (between.run rest).map (Lexeme.text (String.ofList (cs ++ ds)) :: ·)
  | [], cs, rest => by
    have hstep : (Scanner.text cs).step '"' = some ([.text (String.ofList cs)], between) := rfl
    rw [Constant.escape, List.nil_append, run_cons hstep]
    simp
  | d :: ds, cs, rest => by
    have ih := run_text ds (cs ++ [d]) rest
    rw [List.append_assoc, List.singleton_append] at ih
    rw [Constant.escape]
    by_cases hd : d = '\\' ∨ d = '"'
    · -- the backslash before the character is read off again
      have hescape : (Scanner.text cs).step '\\' = some ([], escape cs) := rfl
      have hstep : (escape cs).step d = some ([], Scanner.text (cs ++ [d])) := by simp [step, hd]
      rw [if_pos hd, List.cons_append, List.cons_append, run_cons_nil hescape, run_cons_nil hstep, ih]
    · have hstep : (Scanner.text cs).step d = some ([], Scanner.text (cs ++ [d])) := by
        rw [not_or] at hd
        simp [step, hd.1, hd.2]
      rw [if_neg hd, List.cons_append, run_cons_nil hstep, ih]

theorem scans_quoted (cs : List Char) :
    Scans ('"' :: (Constant.escape cs ++ ['"'])) [.text (String.ofList cs)] := by
  intro rest _
  have hstep : between.step '"' = some ([], Scanner.text []) := rfl
  rw [List.cons_append, run_cons_nil hstep, List.append_assoc, List.singleton_append, run_text]
  simp

/-! ### Names and numbers -/

theorem scans_name {name : String} (h : Text.isName name = true) : Scans name.toList [.word name] := by
  have hname : name.toList ≠ [] ∧ ∀ c ∈ name.toList, Text.isNameChar c = true := by
    simpa [Text.isName] using h
  have hscan : Scans name.toList [Kind.word.lexeme name.toList] :=
    scans_kind hname.1 fun c hc => by simp [Kind.contains, hname.2 c hc]
  simpa [Kind.lexeme] using hscan

theorem integer?_of_isRun (h : Digits.isRun cs = true) : integer? cs = some (Digits.decimal cs : Int) := by
  unfold integer?
  split
  · next ds => simp [Digits.isRun, show '-'.isDigit = false from rfl] at h
  · rw [if_pos h]

/-- **A number is read back.** -/
theorem integer?_toString (n : Int) : integer? (toString n).toList = some n := by
  rw [Digits.toList_toString]
  split
  · next hn =>
    rw [integer?_of_isRun (Digits.isRun_toDigits _), Digits.decimal_toDigits, Int.toNat_of_nonneg hn]
  · next hn =>
    rw [integer?, if_pos (Digits.isRun_toDigits _), Digits.decimal_toDigits]
    rw [Int.toNat_of_nonneg (by omega), Int.neg_neg]

theorem scans_integer (n : Int) : Scans (toString n).toList [.word (toString n)] := by
  have hrun : ∀ m : Nat, ∀ c ∈ Nat.toDigits 10 m, Kind.word.contains c = true := by
    intro m c hc
    have hdigit : c.isDigit = true := Digits.isDigit_of_mem_toDigits hc
    simp [Kind.contains, Text.isNameChar, Char.isAlphanum, hdigit]
  have hscan : Scans (toString n).toList [Kind.word.lexeme (toString n).toList] := by
    rw [Digits.toList_toString]
    split
    · exact scans_kind Nat.toDigits_ne_nil (hrun _)
    · refine scans_kind (by simp) ?_
      intro c hc
      rcases List.mem_cons.mp hc with rfl | hc
      · rfl
      · exact hrun _ c hc
  simpa [Kind.lexeme] using hscan

theorem scans_relation (r : Relation) : Scans r.symbol.toList [.sign r.symbol] := by
  have hscan : Scans r.symbol.toList [Kind.sign.lexeme r.symbol.toList] := by
    cases r <;> exact scans_kind (by simp [Relation.symbol]) (by simp [Relation.symbol, Kind.contains])
  simpa [Kind.lexeme] using hscan

theorem scans_bitOperator (op : BitOperator) : Scans op.symbol.toList [.sign op.symbol] := by
  have hscan : Scans op.symbol.toList [Kind.sign.lexeme op.symbol.toList] := by
    cases op <;>
      exact scans_kind (by simp [BitOperator.symbol]) (by simp [BitOperator.symbol, Kind.contains])
  simpa [Kind.lexeme] using hscan

end Engine

/-! ### Operands and comparisons -/

namespace Operand

/-- All names in an operand are names, and nothing is decoded. -/
def Named : Operand → Prop
  | .column name => Text.isName name = true
  | .aggregate function part => Text.isName function = true ∧ Text.isName part = true
  | .masked operand _ _ => operand.Named
  | .decoded _ _ => False

/-- The lexemes of an operand. -/
def lexemes : Operand → List Engine.Lexeme
  | .column name => [.word name]
  | .aggregate function part => [.word function, .opening, .word part, .closing]
  | .masked operand op argument =>
    .opening :: (operand.lexemes ++ [.sign op.symbol, .word (toString argument.toInt), .closing])
  | .decoded _ part => [.word part]

theorem scans_render : ∀ {o : Operand}, o.Named → Engine.Scans o.render.toList o.lexemes
  | .column name, h => Engine.scans_name h
  | .aggregate function part, h => by
    have hscan := (Engine.scans_name h.1).append_opening
      ((Engine.scans_name h.2).append_closing Engine.Scans.nil)
    simpa [render, aggregateName, lexemes] using hscan
  | .masked operand op argument, h => by
    have hscan := ((scans_render (o := operand) h).append_blank
      ((Engine.scans_bitOperator op).append_blank
        ((Engine.scans_integer argument.toInt).append_closing Engine.Scans.nil))).opening
    simpa [render, lexemes] using hscan

end Operand

namespace Constant

/-- The lexeme of a constant. -/
def lexeme : Constant → Engine.Lexeme
  | .int n => .word (toString n.toInt)
  | .uint n => .word (toString (n.toNat : Int))
  | .text s => .text s

theorem scans_render (k : Constant) : Engine.Scans k.render.toList [k.lexeme] := by
  cases k with
  | int n => exact Engine.scans_integer n.toInt
  | uint n => exact Engine.scans_integer n.toNat
  | text s => simpa [render, lexeme] using Engine.scans_quoted s.toList

end Constant

namespace Comparison

/-- The lexemes of a comparison. -/
def lexemes (c : Comparison) : List Engine.Lexeme :=
  c.operand.lexemes ++ [.sign c.relation.symbol, c.constant.lexeme]

theorem scans_render {c : Comparison} (h : c.operand.Named) :
    Engine.Scans c.render.toList c.lexemes := by
  have hscan := (Operand.scans_render h).append_blank
    ((Engine.scans_relation c.relation).append_blank c.constant.scans_render)
  simpa [render, lexemes] using hscan

end Comparison

/-! ### Layouts -/

namespace Engine

/-- The form of an engine text. -/
inductive Layout where
  | atom (c : Comparison)
  | group (inner : Layout)
  | join (k : Connective) (left right : Layout)
  deriving DecidableEq, Repr

namespace Layout

/-- The text of a layout. -/
def text : Layout → String
  | .atom c => c.render
  | .group inner => "(" ++ inner.text ++ ")"
  | .join k left right => left.text ++ " " ++ k.word ++ " " ++ right.text

/-- The lexemes of a layout. -/
def lexemes : Layout → List Lexeme
  | .atom c => c.lexemes
  | .group inner => .opening :: (inner.lexemes ++ [.closing])
  | .join k left right => left.lexemes ++ .word k.word :: right.lexemes

/-- The comparisons of a layout name their columns properly. -/
def Named : Layout → Prop
  | .atom c => c.operand.Named
  | .group inner => inner.Named
  | .join _ left right => left.Named ∧ right.Named

theorem scans_text : ∀ {l : Layout}, l.Named → Scans l.text.toList l.lexemes
  | .atom c, h => Comparison.scans_render h
  | .group inner, h => by
    have hscan := ((scans_text (l := inner) h).append_closing Scans.nil).opening
    simpa [text, lexemes] using hscan
  | .join k left right, h => by
    have hword : Scans k.word.toList [.word k.word] := scans_name (by cases k <;> rfl)
    have hscan := (scans_text h.1).append_blank (hword.append_blank (scans_text h.2))
    simpa [text, lexemes] using hscan

/-- **A layout's text is cut into the layout's lexemes.** -/
theorem scan?_text {l : Layout} (h : l.Named) : scan? l.text = some l.lexemes := by
  have hscan := scans_text h [] (fun _ hc => by cases hc)
  simpa [scan?, Scanner.run, Scanner.finish] using hscan

end Layout

end Engine

end FlowSelect
