/-
# The comparisons of a compiled predicate

Every comparison of a compiled predicate comes from a clause of the filter: from one part of one
target of its left side, and from its right side (`Target.Leaf`). What the compiler checks before it
writes a comparison is kept with it, so a property of all comparisons is a case analysis here and not
another walk through the compiler. Taking the opposite of a comparison does not change where it comes
from, and joining predicates adds no comparison.

Key definitions: `Yields`, `Predicate.All`, `Target.Leaf`, `Clause.Leaf`.
Key theorems: `Target.compareLiteral_leaves`, `Side.compare_leaves`, `compileText_leaves`,
`Subject.mem_targets`.
-/
import FlowSelect.Proofs.Query.Shape

namespace FlowSelect

/-- Whatever is computed has a property. -/
def Yields {α : Type} (P : α → Prop) (x : Except Fault α) : Prop := ∀ a, x = .ok a → P a

section Yields

variable {α β : Type} {P : α → Prop} {Q : β → Prop}

theorem yields_ok {a : α} (h : P a) : Yields P (.ok a) := by
  rintro _ ⟨⟩
  exact h

theorem yields_error (fault : Fault) : Yields P (.error fault) := fun _ h => by cases h

theorem Yields.map {x : Except Fault α} (h : Yields P x) {f : α → β} (hf : ∀ a, P a → Q (f a)) :
    Yields Q (x.map f) := by
  cases x with
  | ok a => exact yields_ok (hf a (h a rfl))
  | error fault => exact yields_error fault

end Yields

/-! ### Formulas -/

namespace Predicate

variable {P : Comparison → Prop} {p q : Predicate}

/-- Every comparison of a predicate has a property. -/
def All (P : Comparison → Prop) (p : Predicate) : Prop := ∀ c ∈ p.atoms, P c

theorem All.imp {Q : Comparison → Prop} (h : p.All P) (hPQ : ∀ c, P c → Q c) : p.All Q :=
  fun c hc => hPQ c (h c hc)

theorem all_comparison {o : Operand} {r : Relation} {k : Constant} (h : P ⟨o, r, k⟩) :
    All P (comparison o r k) := by
  intro c hc
  obtain rfl : c = ⟨o, r, k⟩ := by simpa [comparison, Formula.atoms] using hc
  exact h

theorem all_and (hp : p.All P) (hq : q.All P) : All P (.and p q) :=
  fun c hc => (List.mem_append.mp hc).elim (hp c) (hq c)

theorem all_or (hp : p.All P) (hq : q.All P) : All P (.or p q) :=
  fun c hc => (List.mem_append.mp hc).elim (hp c) (hq c)

theorem all_complement (hP : ∀ c, P c → P c.complement) : ∀ {p : Predicate}, p.All P → p.complement.All P
  | .atom c, h => all_comparison (hP c (h c List.mem_cons_self))
  | .and l r, h => by
    have hl : All P l := fun c hc => h c (List.mem_append_left _ hc)
    have hr : All P r := fun c hc => h c (List.mem_append_right _ hc)
    exact all_or (all_complement hP hl) (all_complement hP hr)
  | .or l r, h => by
    have hl : All P l := fun c hc => h c (List.mem_append_left _ hc)
    have hr : All P r := fun c hc => h c (List.mem_append_right _ hc)
    exact all_and (all_complement hP hl) (all_complement hP hr)

theorem all_foldl_or : ∀ {ps : List Predicate} {p : Predicate}, p.All P → (∀ q ∈ ps, All P q) →
    All P (ps.foldl .or p)
  | [], _, hp, _ => hp
  | q :: ps, p, hp, hps => by
    rw [List.foldl_cons]
    exact all_foldl_or (all_or hp (hps q List.mem_cons_self)) fun r hr =>
      hps r (List.mem_cons_of_mem q hr)

theorem all_disjoin? {ps : List Predicate} (hps : ∀ q ∈ ps, All P q)
    (h : Formula.disjoin? ps = some p) : p.All P := by
  cases ps with
  | nil => cases h
  | cons q ps =>
    obtain rfl : ps.foldl .or q = p := by simpa [Formula.disjoin?] using h
    exact all_foldl_or (hps q List.mem_cons_self) fun r hr => hps r (List.mem_cons_of_mem q hr)

end Predicate

/-! ### Targets -/

namespace Target

/-- The comparisons that a target gives with a right side, with what was checked before. -/
inductive Leaf (t : Target) : Side → Comparison → Prop where
  | number {part : String} (hpart : part ∈ t.column.parts) (r : Relation) (n : Int64)
      (hkind : t.accepts [.number, .ip4, .timestamp] = true) :
      Leaf t (.literal (.number n)) ⟨t.operand part, r, .int n⟩
  | timestamp {part : String} (hpart : part ∈ t.column.parts) (r : Relation) (n : Int64)
      (hkind : t.accepts [.timestamp, .number] = true) :
      Leaf t (.literal (.timestamp n)) ⟨t.operand part, r, .int n⟩
  | ip4 {part : String} (hpart : part ∈ t.column.parts) (r : Relation) (a : Ip4)
      (hkind : t.accepts [.ip4] = true) :
      Leaf t (.literal (.ip4 a)) ⟨t.operand part, r, a.constant⟩
  | ip4Bound {part : String} (hpart : part ∈ t.column.parts) (r : Relation) (s : Subnet 32) (a : Ip4)
      (hkind : t.accepts [.ip4] = true) (hmask : t.mask = none) :
      Leaf t (.network (.ip4 s)) ⟨t.operand part, r, a.constant⟩
  | ip6 {part : String} (hpart : part ∈ t.column.parts) (r : Relation) (a : Ip6) (n : UInt64)
      (hkind : t.column.kind = some .ip6) (hmask : t.mask = none) :
      Leaf t (.literal (.ip6 a)) ⟨t.operand part, r, .uint n⟩
  | ip6Bound {part : String} (hpart : part ∈ t.column.parts) (r : Relation) (s : Subnet 128)
      (n : UInt64) (hkind : t.column.kind = some .ip6) (hmask : t.mask = none) :
      Leaf t (.network (.ip6 s)) ⟨t.operand part, r, .uint n⟩
  | protocol {part : String} (hpart : part ∈ t.column.parts) (r : Relation) {word : String} {n : Int64}
      (hsemantics : t.column.semantics = some .protocol) (hword : Protocol.parse word = .ok n) :
      Leaf t (.literal (.word word)) ⟨t.operand part, r, .int n⟩
  | flags {part : String} (hpart : part ∈ t.column.parts) {r : Relation} {word : String} {n : Int64}
      (hsemantics : t.column.semantics = some .flags) (hr : r.isOrdering = false)
      (hmask : t.mask = none) (hword : TcpFlags.parse word = .ok n) :
      Leaf t (.literal (.word word)) ⟨{ t with mask := some (.and, n) }.operand part, r, .int n⟩
  | text {part : String} (hpart : part ∈ t.column.parts) {r : Relation} {right : Side}
      {text s : String} (hright : right = .literal (.quoted text) ∨ right = .literal (.word text))
      (hkind : t.accepts [.text] = true) (hr : r.isOrdering = false) (hmask : t.mask = none)
      (haggregate : t.aggregate = false) (htext : t.textConstant text = .ok s) :
      Leaf t right ⟨t.textOperand part, r, .text s⟩

variable {t : Target} {r : Relation} {P : Comparison → Prop}

theorem isOrdering_complement (r : Relation) : r.complement.isOrdering = r.isOrdering := by
  cases r <;> rfl

/-- The opposite of a comparison comes from the same place. -/
theorem Leaf.complement {right : Side} {c : Comparison} (h : t.Leaf right c) :
    t.Leaf right c.complement := by
  cases h with
  | number hpart r n hkind => exact .number hpart _ n hkind
  | timestamp hpart r n hkind => exact .timestamp hpart _ n hkind
  | ip4 hpart r a hkind => exact .ip4 hpart _ a hkind
  | ip4Bound hpart r s a hkind hmask => exact .ip4Bound hpart _ s a hkind hmask
  | ip6 hpart r a n hkind hmask => exact .ip6 hpart _ a n hkind hmask
  | ip6Bound hpart r s n hkind hmask => exact .ip6Bound hpart _ s n hkind hmask
  | protocol hpart r hsemantics hword => exact .protocol hpart _ hsemantics hword
  | flags hpart hsemantics hr hmask hword =>
    exact .flags hpart hsemantics ((isOrdering_complement _).trans hr) hmask hword
  | text hpart hright hkind hr hmask haggregate htext =>
    exact .text hpart hright hkind ((isOrdering_complement _).trans hr) hmask haggregate htext

theorem eachPart?_all {f : String → Predicate} {p : Predicate}
    (hf : ∀ part ∈ t.column.parts, (f part).All P) (hp : t.eachPart? f = some p) : p.All P := by
  refine Predicate.all_disjoin? ?_ hp
  intro q hq
  obtain ⟨part, hpart, rfl⟩ := List.mem_map.mp hq
  exact hf part hpart

theorem compareParts_all {k : Constant} (h : ∀ part ∈ t.column.parts, P ⟨t.operand part, r, k⟩) :
    Yields (Predicate.All P) (t.compareParts r k) := by
  unfold compareParts
  split
  · next hp =>
    exact yields_ok (eachPart?_all (fun part hpart => Predicate.all_comparison (h part hpart)) hp)
  · exact yields_error _

theorem compareText_leaves {right : Side} {text : String}
    (hright : right = .literal (.quoted text) ∨ right = .literal (.word text)) :
    Yields (Predicate.All (t.Leaf right)) (t.compareText r right text) := by
  unfold compareText
  split
  · exact yields_error _
  next hkind =>
  split
  · exact yields_error _
  next hr =>
  split
  · exact yields_error _
  next hoperator =>
  split
  · exact yields_error _
  next s htext =>
  split
  · next hp =>
    have hkind : t.accepts [.text] = true := by simpa using hkind
    have hmask : t.mask = none ∧ t.aggregate = false := by simpa using hoperator
    exact yields_ok (eachPart?_all (fun part hpart => Predicate.all_comparison
      (.text hpart hright hkind (by simpa using hr) hmask.1 hmask.2 htext)) hp)
  · exact yields_error _

theorem compareFlags_leaves {word : String} (hsemantics : t.column.semantics = some .flags) :
    Yields (Predicate.All (t.Leaf (.literal (.word word)))) (t.compareFlags r word) := by
  unfold compareFlags
  simp only
  split
  · exact yields_error _
  next hr =>
  split
  · exact yields_error _
  next hmask =>
  split
  · exact yields_error _
  · next hword =>
    exact compareParts_all fun part hpart =>
      Leaf.flags (t := t) hpart hsemantics (by simpa using hr) (by simpa using hmask) hword

theorem compareWord_leaves (word : String) :
    Yields (Predicate.All (t.Leaf (.literal (.word word)))) (t.compareWord r word) := by
  unfold compareWord
  split
  · next hsemantics =>
    split
    · exact yields_error _
    · next hword => exact compareParts_all fun part hpart => .protocol hpart r hsemantics hword
  · next hsemantics => exact compareFlags_leaves hsemantics
  · exact compareText_leaves (.inr rfl)

/-- Halves are the two parts of an IPv6 column that nothing is applied to. -/
theorem halves_eq_ok {right : Side} {high low : String} (h : t.halves right = .ok (high, low)) :
    t.mask = none ∧ t.column.kind = some .ip6 ∧ t.column.parts = [high, low] := by
  unfold halves at h
  split at h
  · cases h
  next hmask =>
  split at h
  · next hkind hparts =>
    cases h
    exact ⟨by simpa using hmask, hkind, hparts⟩
  · cases h

theorem inRange_all {o : Operand} {low high : Constant} (hlow : P ⟨o, .ge, low⟩) (hhigh : P ⟨o, .le, high⟩) :
    Predicate.All P (inRange o low high) :=
  Predicate.all_and (Predicate.all_comparison hlow) (Predicate.all_comparison hhigh)

theorem compareHalves_all {high low : Operand} {a : Ip6} (hhigh : ∀ r n, P ⟨high, r, .uint n⟩)
    (hlow : ∀ r n, P ⟨low, r, .uint n⟩) : Predicate.All P (compareHalves high low r a) := by
  have hhigh := fun r => Predicate.all_comparison (hhigh r a.high)
  have hlow := fun r => Predicate.all_comparison (hlow r a.low)
  cases r with
  | eq => exact Predicate.all_and (hhigh .eq) (hlow .eq)
  | ne => exact Predicate.all_or (hhigh .ne) (hlow .ne)
  | _ => exact Predicate.all_or (hhigh _) (Predicate.all_and (hhigh .eq) (hlow _))

theorem halvesInSubnet_all {high low : Operand} {s : Subnet 128} (hhigh : ∀ r n, P ⟨high, r, .uint n⟩)
    (hlow : ∀ r n, P ⟨low, r, .uint n⟩) : Predicate.All P (halvesInSubnet high low s) := by
  have hupper := inRange_all (hhigh .ge (Ip6.high s.low)) (hhigh .le (Ip6.high s.high))
  unfold halvesInSubnet
  simp only
  split
  · exact hupper
  · exact Predicate.all_and hupper (inRange_all (hlow .ge _) (hlow .le _))

/-- **Every comparison with a literal comes from a part of the target.** -/
theorem compareLiteral_leaves (l : Literal) :
    Yields (Predicate.All (t.Leaf (.literal l))) (t.compareLiteral r l) := by
  cases l with
  | number n =>
    rw [compareLiteral]
    split
    · next hkind => exact compareParts_all fun part hpart => .number hpart r n hkind
    · exact yields_error _
  | timestamp n =>
    rw [compareLiteral]
    split
    · next hkind => exact compareParts_all fun part hpart => .timestamp hpart r n hkind
    · exact yields_error _
  | ip4 a =>
    rw [compareLiteral]
    split
    · next hkind => exact compareParts_all fun part hpart => .ip4 hpart r a hkind
    · exact yields_error _
  | ip6 a =>
    rw [compareLiteral]
    split
    · exact yields_error _
    · next high low hhalves =>
      obtain ⟨hmask, hkind, hparts⟩ := halves_eq_ok hhalves
      exact yields_ok (compareHalves_all
        (fun r n => .ip6 (by simp [hparts]) r a n hkind hmask)
        (fun r n => .ip6 (by simp [hparts]) r a n hkind hmask))
  | quoted s => exact compareText_leaves (.inl rfl)
  | word s => exact compareWord_leaves s

theorem inNetwork_leaves (n : Network) :
    Yields (Predicate.All (t.Leaf (.network n))) (t.inNetwork n) := by
  unfold inNetwork
  split
  · exact yields_error _
  next hmask =>
  have hmask : t.mask = none := by simpa using hmask
  split
  · split
    · next hkind =>
      split
      · next hp =>
        exact yields_ok (eachPart?_all (fun part hpart => inRange_all
          (.ip4Bound hpart _ _ _ hkind hmask) (.ip4Bound hpart _ _ _ hkind hmask)) hp)
      · exact yields_error _
    · exact yields_error _
  · split
    · exact yields_error _
    · next s high low hhalves =>
      obtain ⟨hmask, hkind, hparts⟩ := halves_eq_ok hhalves
      exact yields_ok (halvesInSubnet_all
        (fun r n => .ip6Bound (by simp [hparts]) r _ n hkind hmask)
        (fun r n => .ip6Bound (by simp [hparts]) r _ n hkind hmask))

end Target

/-! ### Left sides -/

section Targets

variable {P : Comparison → Prop} {compile : Target → Except Fault Predicate}

theorem compileEach_all (lenient : Bool) :
    ∀ {ts : List Target}, (∀ t ∈ ts, Yields (Predicate.All P) (compile t)) →
      Yields (fun x => ∀ p ∈ x.1, Predicate.All P p) (compileEach lenient compile ts)
  | [], _ => yields_ok (by simp)
  | t :: ts, h => by
    have ih := compileEach_all lenient fun u hu => h u (List.mem_cons_of_mem t hu)
    rw [compileEach]
    split
    · next p hp =>
      split
      · next ps _ hps =>
        refine yields_ok ?_
        intro q hq
        rcases List.mem_cons.mp hq with rfl | hq
        · exact h t List.mem_cons_self q hp
        · exact ih _ hps q hq
      · exact yields_error _
    · split
      · split
        · next ps fault? hps => exact yields_ok (ih (ps, fault?) hps)
        · exact yields_error _
      · exact yields_error _

theorem compileAll_all {ts : List Target} (h : ∀ t ∈ ts, Yields (Predicate.All P) (compile t)) :
    Yields (Predicate.All P) (compileAll compile ts) := by
  unfold compileAll
  split
  · exact yields_error _
  · next ps _ hps =>
    split
    · next hp => exact yields_ok (Predicate.all_disjoin? (compileEach_all _ h _ hps) hp)
    · exact yields_error _

end Targets

namespace Side

/-- The comparisons that the targets of a left side give with a right side. -/
def Leaf (left right : Side) (c : Comparison) : Prop :=
  ∃ ts t, left.targets = .ok ts ∧ t ∈ ts ∧ t.Leaf right c

theorem Leaf.complement {left right : Side} {c : Comparison} (h : left.Leaf right c) :
    left.Leaf right c.complement := by
  obtain ⟨ts, t, hts, ht, hleaf⟩ := h
  exact ⟨ts, t, hts, ht, hleaf.complement⟩

theorem broadcast_leaves {left right : Side} {compile : Target → Except Fault Predicate}
    (h : ∀ t : Target, Yields (Predicate.All (t.Leaf right)) (compile t)) :
    Yields (Predicate.All (left.Leaf right)) (broadcast left compile) := by
  unfold broadcast
  split
  · exact yields_error _
  · next ts hts =>
    exact compileAll_all fun t ht p hp => (h t p hp).imp fun c hc => ⟨ts, t, hts, ht, hc⟩

theorem within_leaves (left right : Side) :
    Yields (Predicate.All (left.Leaf right)) (left.within right) := by
  refine broadcast_leaves fun t => ?_
  unfold targetWithin
  split
  · exact Target.inNetwork_leaves _
  · split
    · exact yields_error _
    · exact yields_error _

/-- **Every comparison of a compiled clause comes from a part of a target of its left side.** -/
theorem compare_leaves (left : Side) (r : Relation) (right : Side) :
    Yields (Predicate.All (left.Leaf right)) (left.compare r right) := by
  unfold compare
  split
  · split
    · exact within_leaves left _
    · exact (within_leaves left _).map fun p hp => Predicate.all_complement (fun c hc => hc.complement) hp
    · exact yields_error _
  · refine broadcast_leaves fun t => ?_
    unfold targetCompare
    split
    · exact Target.compareLiteral_leaves _
    · exact yields_error _

end Side

/-! ### Queries -/

variable {s : Schema}

/-- The comparisons that a clause gives. -/
def Clause.Leaf (s : Schema) (clause : Clause) (c : Comparison) : Prop :=
  ∃ left right, clause.subject.side s = .ok left ∧ clause.form.side clause.value = .ok right ∧
    left.Leaf right c

theorem Clause.compile_leaves (clause : Clause) :
    Yields (Predicate.All (clause.Leaf s)) (clause.compile s) := by
  unfold compile
  split
  · exact yields_error _
  next left r right hsides =>
  have hsides : clause.subject.side s = .ok left ∧ clause.form.side clause.value = .ok right := by
    unfold sides at hsides
    split at hsides
    · cases hsides
    split at hsides
    · cases hsides
    split at hsides
    · cases hsides
    · cases hsides
      exact ⟨‹_›, ‹_›⟩
  intro p hp
  exact (Side.compare_leaves left r right p hp).imp fun c hc => ⟨left, right, hsides.1, hsides.2, hc⟩

theorem Query.compile_leaves {q : Query} : ∀ {p : Predicate}, q.compile s = .ok p →
    p.All fun c => ∃ clause ∈ q.clauses, clause.Leaf s c := by
  induction q with
  | clause clause =>
    intro p h
    rw [compile] at h
    split at h
    · next hp =>
      cases h
      exact (Clause.compile_leaves clause p hp).imp fun c hc => ⟨clause, List.mem_cons_self, hc⟩
    · cases h
  | not q ih =>
    intro p h
    rw [compile] at h
    cases hp : q.compile s with
    | error rejection =>
      rw [hp] at h
      cases h
    | ok p' =>
      rw [hp] at h
      cases h
      refine Predicate.all_complement ?_ (ih hp)
      rintro c ⟨clause, hclause, left, right, hleft, hright, hleaf⟩
      exact ⟨clause, hclause, left, right, hleft, hright, hleaf.complement⟩
  | and l r ihl ihr | or l r ihl ihr =>
    intro p h
    rw [compile] at h
    split at h
    · cases h
    next hp =>
    split at h
    · cases h
    next hp' =>
    cases h
    intro c hc
    rcases List.mem_append.mp hc with hc | hc
    · obtain ⟨clause, hclause, hleaf⟩ := ihl hp c hc
      exact ⟨clause, List.mem_append_left _ hclause, hleaf⟩
    · obtain ⟨clause, hclause, hleaf⟩ := ihr hp' c hc
      exact ⟨clause, List.mem_append_right _ hclause, hleaf⟩

/-- **Every comparison of a filter comes from a well-written clause.** -/
theorem compileText_leaves {text : String} {p : Predicate} (h : compileText s text = .ok (some p)) :
    p.All fun c => ∃ clause : Clause, clause.WellWritten ∧ clause.Leaf s c := by
  obtain ⟨q, hwritten, hp⟩ := compileText_eq_some_iff.mp h
  have hread : Query.ofText text = .ok (some q) := Query.ofText_eq_some_iff.mpr hwritten
  rcases Query.ofText_cases text with ⟨u, herror⟩ | hnone | ⟨q', hq', hshape⟩
  · simp [hread] at herror
  · simp [hread] at hnone
  · obtain rfl : q = q' := by simpa [hread] using hq'
    refine (Query.compile_leaves hp).imp ?_
    rintro c ⟨clause, hclause, hleaf⟩
    exact ⟨clause, hshape clause hclause, hleaf⟩

/-! ### Where targets come from -/

/-- A column of the schema, under some name. -/
def Schema.Registers (s : Schema) (c : Column) : Prop :=
  ∃ name, ∃ spec ∈ s.columns, c = Column.ofSpec name spec

/-- The columns that a name can stand for: a stored column, or columns of the schema. -/
def ColumnName.Stands (s : Schema) : ColumnName → Column → Prop
  | .raw name, c => c = Column.raw name
  | .registered _, c => s.Registers c

theorem Schema.resolveColumn_registers (name : String) :
    Yields s.Registers (s.resolveColumn name) := by
  unfold Schema.resolveColumn
  split
  · next h => exact yields_ok ⟨name, _, List.mem_of_find?_eq_some h, rfl⟩
  · exact yields_error _

theorem Schema.resolveColumns_registers : ∀ names : List String,
    Yields (fun cs => ∀ c ∈ cs, s.Registers c) (s.resolveColumns names)
  | [] => yields_ok (by simp)
  | name :: names => by
    rw [Schema.resolveColumns]
    split
    · exact yields_error _
    next c hc =>
    split
    · exact yields_error _
    next cs hcs =>
    refine yields_ok fun x hx => ?_
    rcases List.mem_cons.mp hx with rfl | hx
    · exact resolveColumn_registers name _ hc
    · exact resolveColumns_registers names cs hcs x hx

/-- The targets of a left side stand for the columns of a name, with nothing applied to them. -/
def Side.Stands (s : Schema) (n : ColumnName) (side : Side) : Prop :=
  Yields (fun ts => ∀ t ∈ ts, n.Stands s t.column ∧ t.mask = none) side.targets

theorem ColumnName.side_stands (n : ColumnName) : Yields (Side.Stands s n) (n.side s) := by
  cases n with
  | raw name => exact yields_ok (yields_ok (by simp [Stands]))
  | registered name =>
    refine Yields.map (P := fun x => (Side.ofResolved x).Stands s (.registered name)) ?_ fun _ h => h
    unfold Schema.resolve
    split
    · exact (Schema.resolveColumn_registers name).map fun c hc => yields_ok (by simpa [Stands] using hc)
    split
    · refine Yields.map (P := fun g => ∀ c ∈ g.members, s.Registers c) ?_
        fun g hg => yields_ok (by simpa [Stands] using hg)
      unfold Schema.resolveGroup
      split
      · exact yields_error _
      split
      · exact yields_error _
      · next hcs => exact yields_ok (Schema.resolveColumns_registers _ _ hcs)
    · exact yields_error _

/-- **What the targets of a clause are**: columns that its name can stand for, under the operator and
the number it is written with, if any. -/
theorem Subject.mem_targets {x : Subject} {side : Side} {ts : List Target} {t : Target}
    (hside : x.side s = .ok side) (hts : side.targets = .ok ts) (ht : t ∈ ts) :
    x.columnName.Stands s t.column ∧
      ∀ op n, t.mask = some (op, n) → ∃ number, Number.parse number = .ok n := by
  cases x with
  | column name =>
    obtain ⟨hcolumn, hmask⟩ := name.side_stands side hside ts hts t ht
    exact ⟨hcolumn, by simp [hmask]⟩
  | masked name op number =>
    rw [Subject.side] at hside
    split at hside
    · cases hside
    next inner hinner =>
    split at hside
    · cases hside
    split at hside
    · cases hside
    next n hn =>
    have hmasked : ∃ op', side = .masked inner op' n := by
      unfold Side.mask at hside
      simp only at hside
      split at hside
      · exact ⟨_, (Except.ok.inj hside).symm⟩
      · exact ⟨_, (Except.ok.inj hside).symm⟩
      · cases hside
    obtain ⟨op', rfl⟩ := hmasked
    have hinner := name.side_stands inner hinner
    rw [Side.targets] at hts
    cases hus : inner.targets with
    | error fault =>
      rw [hus] at hts
      cases hts
    | ok us =>
      rw [hus] at hts
      cases hts
      obtain ⟨u, hu, rfl⟩ := List.mem_map.mp ht
      refine ⟨(hinner us hus u hu).1, ?_⟩
      rintro _ _ ⟨⟩
      exact ⟨number, hn⟩

end FlowSelect
