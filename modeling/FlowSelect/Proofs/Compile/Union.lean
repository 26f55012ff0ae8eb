/-
# A group is the union of its members

A comparison of a group is compiled for each member in turn. Of several members those that do not fit
are passed over, any other fault ends the work, and what is left is joined by `OR`. A group of one
member takes another way through the compiler: its fault is the fault of the comparison. Both ways
obey one law (`compileAll_eq_ok_iff`), so a group compiles if some member does and every other member
does not fit, and it accepts the rows that some member accepts (`group_comparison_is_union`). Neither
depends on the order of the members or on how often one of them is listed.

Key definitions: `Group.side`, `Group.alone`, `Group.IsUnion`.
Key theorems: `compileAll_eq_ok_iff`, `exists_compileAll_iff`, `compileAll_accepts_iff`,
`group_comparison_is_union`.
-/
import FlowSelect.Proofs.Kleene

namespace FlowSelect

/-! ### Joined predicates -/

namespace Predicate

variable {row : Row} {p : Predicate}

theorem accepts_foldl_or : ∀ (ps : List Predicate) (p : Predicate),
    accepts row (ps.foldl .or p) = true ↔ p.accepts row = true ∨ ∃ q ∈ ps, accepts row q = true
  | [], p => by simp
  | q :: ps, p => by
    rw [List.foldl_cons, accepts_foldl_or ps, accepts_or, List.exists_mem_cons_iff, or_assoc]

/-- What predicates are joined to accepts the rows that one of them accepts. -/
theorem accepts_disjoin? {ps : List Predicate} (h : Formula.disjoin? ps = some p) :
    p.accepts row = true ↔ ∃ q ∈ ps, accepts row q = true := by
  cases ps with
  | nil => cases h
  | cons q ps =>
    obtain rfl : ps.foldl .or q = p := by simpa [Formula.disjoin?] using h
    rw [accepts_foldl_or, List.exists_mem_cons_iff]

theorem complement_foldl_or : ∀ (ps : List Predicate) (p : Predicate),
    accepts row (complement (ps.foldl .or p)) = true ↔
      p.complement.accepts row = true ∧ ∀ q ∈ ps, accepts row (complement q) = true
  | [], p => by simp
  | q :: ps, p => by
    have hor : complement (.or p q) = .and p.complement (complement q) := rfl
    rw [List.foldl_cons, complement_foldl_or ps, hor, accepts_and, List.forall_mem_cons, and_assoc]

/-- Its complement accepts the rows that all their complements accept. -/
theorem complement_disjoin? {ps : List Predicate} (h : Formula.disjoin? ps = some p) :
    p.complement.accepts row = true ↔ ∀ q ∈ ps, accepts row (complement q) = true := by
  cases ps with
  | nil => cases h
  | cons q ps =>
    obtain rfl : ps.foldl .or q = p := by simpa [Formula.disjoin?] using h
    rw [complement_foldl_or, List.forall_mem_cons]

theorem exists_disjoin?_iff {ps : List Predicate} :
    (∃ p, Formula.disjoin? ps = some p) ↔ ∃ p, p ∈ ps := by
  cases ps with
  | nil => simp [Formula.disjoin?]
  | cons p ps => exact ⟨fun _ => ⟨p, List.mem_cons_self⟩, fun _ => ⟨_, rfl⟩⟩

end Predicate

/-! ### Targets -/

namespace Target

variable {t : Target} {f : String → Predicate} {p : Predicate} {row : Row}

theorem eachPart?_of_parts (h : t.column.parts ≠ []) (f : String → Predicate) :
    ∃ p, t.eachPart? f = some p := by
  obtain ⟨part, hpart⟩ := List.exists_mem_of_ne_nil _ h
  unfold eachPart?
  rw [Predicate.exists_disjoin?_iff]
  exact ⟨f part, List.mem_map_of_mem hpart⟩

theorem eachPart?_accepts (h : t.eachPart? f = some p) :
    p.accepts row = true ↔ ∃ part ∈ t.column.parts, (f part).accepts row = true := by
  rw [Predicate.accepts_disjoin? h]
  simp only [List.mem_map, exists_exists_and_eq_and]

theorem eachPart?_complement (h : t.eachPart? f = some p) :
    p.complement.accepts row = true ↔ ∀ part ∈ t.column.parts, (f part).complement.accepts row = true := by
  rw [Predicate.complement_disjoin? h, List.forall_mem_map]

end Target

section Targets

variable {compile : Target → Except Fault Predicate} {lenient : Bool}

/-- A target that does not compile may be passed over. -/
def Skips (lenient : Bool) (compile : Target → Except Fault Predicate) (t : Target) : Prop :=
  ∀ fault, compile t = .error fault → lenient = true ∧ fault.isMismatch = true

/-- The predicates of the targets that compile. -/
def compiled (compile : Target → Except Fault Predicate) (ts : List Target) : List Predicate :=
  ts.filterMap fun t => (compile t).toOption

attribute [local simp] compileEach

theorem mem_compiled {ts : List Target} {p : Predicate} :
    p ∈ compiled compile ts ↔ ∃ t ∈ ts, compile t = .ok p := by
  have hok : ∀ t, (compile t).toOption = some p ↔ compile t = .ok p := by
    intro t
    cases compile t <;> simp [Except.toOption]
  simp only [compiled, List.mem_filterMap, hok]

theorem compiled_cons_ok {t : Target} {p : Predicate} (h : compile t = .ok p) (ts : List Target) :
    compiled compile (t :: ts) = p :: compiled compile ts := by
  simp [compiled, h, Except.toOption]

theorem compiled_cons_error {t : Target} {fault : Fault} (h : compile t = .error fault)
    (ts : List Target) : compiled compile (t :: ts) = compiled compile ts := by
  simp [compiled, h, Except.toOption]

/-- If all targets that do not compile may be passed over, the others give their predicates. -/
theorem compileEach_of_skips : ∀ {ts : List Target}, (∀ t ∈ ts, Skips lenient compile t) →
    ∃ fault?, compileEach lenient compile ts = .ok (compiled compile ts, fault?)
  | [], _ => ⟨none, rfl⟩
  | t :: ts, h => by
    obtain ⟨fault?, hts⟩ := compileEach_of_skips fun u hu => h u (List.mem_cons_of_mem t hu)
    rw [compileEach, hts]
    cases ht : compile t with
    | ok p => exact ⟨fault?, by rw [compiled_cons_ok ht]⟩
    | error fault =>
      obtain ⟨hlenient, hmismatch⟩ := h t List.mem_cons_self fault ht
      refine ⟨some fault, ?_⟩
      rw [compiled_cons_error ht, hlenient]
      simp [hmismatch]

theorem skips_of_ok {t : Target} {p : Predicate} (h : compile t = .ok p) : Skips lenient compile t := by
  intro fault hfault
  rw [h] at hfault
  cases hfault

theorem skips_of_error {t : Target} {fault : Fault} (h : compile t = .error fault)
    (hskip : (lenient && fault.isMismatch) = true) : Skips lenient compile t := by
  intro other hother
  obtain rfl : fault = other := by simpa [h] using hother
  exact Bool.and_eq_true_iff.mp hskip

/-- Conversely, the work ends well only if nothing but misfits was passed over. -/
theorem skips_of_compileEach : ∀ {ts : List Target} {ps : List Predicate} {fault? : Option Fault},
    compileEach lenient compile ts = .ok (ps, fault?) →
      (∀ t ∈ ts, Skips lenient compile t) ∧ ps = compiled compile ts
  | [], ps, fault?, h => by
    rw [compileEach] at h
    cases h
    exact ⟨by simp, rfl⟩
  | t :: ts, ps, fault?, h => by
    rw [compileEach] at h
    split at h
    · next p hp =>
      split at h
      · next qs skipped? hqs =>
        obtain ⟨hskips, rfl⟩ := skips_of_compileEach hqs
        cases h
        exact ⟨List.forall_mem_cons.mpr ⟨skips_of_ok hp, hskips⟩, (compiled_cons_ok hp ts).symm⟩
      · cases h
    · next fault hfault =>
      split at h
      · next hskip =>
        split at h
        · next qs skipped? hqs =>
          obtain ⟨hskips, rfl⟩ := skips_of_compileEach hqs
          cases h
          exact ⟨List.forall_mem_cons.mpr ⟨skips_of_error hfault hskip, hskips⟩,
            (compiled_cons_error hfault ts).symm⟩
        · cases h
      · cases h

/-- **What targets compile to**: the predicates of those that compile, joined by `OR`, if the others
may be passed over. -/
theorem compileAll_eq_ok_iff {ts : List Target} {p : Predicate} :
    compileAll compile ts = .ok p ↔
      (∀ t ∈ ts, Skips (1 < ts.length) compile t) ∧ Formula.disjoin? (compiled compile ts) = some p := by
  unfold compileAll
  constructor
  · intro h
    split at h
    · cases h
    · next ps fault? hps =>
      obtain ⟨hskips, rfl⟩ := skips_of_compileEach hps
      split at h
      · next q hq =>
        cases h
        exact ⟨hskips, hq⟩
      · cases h
  · rintro ⟨hskips, hp⟩
    obtain ⟨fault?, hps⟩ := compileEach_of_skips hskips
    rw [hps]
    simp only [hp]

/-- A single target compiles as it does alone. -/
theorem compileAll_single (t : Target) : compileAll compile [t] = compile t := by
  cases ht : compile t <;> simp [compileAll, ht, Formula.disjoin?]

/-- **Targets compile if one of them does and the others do not fit.** -/
theorem exists_compileAll_iff {ts : List Target} :
    (∃ p, compileAll compile ts = .ok p) ↔
      (∃ t ∈ ts, ∃ p, compile t = .ok p) ∧
        ∀ t ∈ ts, ∀ fault, compile t = .error fault → fault.isMismatch = true := by
  have hsome : (∃ p, Formula.disjoin? (compiled compile ts) = some p) ↔
      ∃ t ∈ ts, ∃ p, compile t = .ok p := by
    simp only [Predicate.exists_disjoin?_iff, mem_compiled]
    exact ⟨fun ⟨p, t, ht, hp⟩ => ⟨t, ht, p, hp⟩, fun ⟨t, ht, p, hp⟩ => ⟨p, t, ht, hp⟩⟩
  simp only [compileAll_eq_ok_iff, exists_and_left, hsome]
  rw [and_comm]
  refine and_congr_right ?_
  rintro ⟨u, hu, p, hp⟩
  constructor
  · exact fun h t ht fault hfault => (h t ht fault hfault).2
  · intro h t ht fault hfault
    -- a target that compiles and one that does not are two
    have htwo : u ≠ t := by
      rintro rfl
      rw [hp] at hfault
      cases hfault
    refine ⟨?_, h t ht fault hfault⟩
    match ts with
    | [] => cases hu
    | [v] => exact absurd ((List.mem_singleton.mp hu).trans (List.mem_singleton.mp ht).symm) htwo
    | _ :: _ :: _ => simp

/-- A row is accepted if a target that compiles accepts it. -/
theorem compileAll_accepts_iff {ts : List Target} {p : Predicate} (h : compileAll compile ts = .ok p)
    (row : Row) : p.accepts row = true ↔ ∃ t ∈ ts, ∃ q, compile t = .ok q ∧ q.accepts row = true := by
  rw [compileAll_eq_ok_iff] at h
  simp only [Predicate.accepts_disjoin? h.2, mem_compiled]
  constructor
  · rintro ⟨q, ⟨t, ht, hcompile⟩, haccepts⟩
    exact ⟨t, ht, q, hcompile, haccepts⟩
  · rintro ⟨t, ht, q, hcompile, haccepts⟩
    exact ⟨q, ⟨t, ht, hcompile⟩, haccepts⟩

/-- The complement accepts a row if the complement of every target that compiles does. -/
theorem compileAll_complement_accepts_iff {ts : List Target} {p : Predicate}
    (h : compileAll compile ts = .ok p) (row : Row) :
    p.complement.accepts row = true ↔
      ∀ t ∈ ts, ∀ q, compile t = .ok q → q.complement.accepts row = true := by
  rw [compileAll_eq_ok_iff] at h
  simp only [Predicate.complement_disjoin? h.2, mem_compiled]
  constructor
  · intro hall t ht q hq
    exact hall q ⟨t, ht, hq⟩
  · rintro hall q ⟨t, ht, hcompile⟩
    exact hall t ht q hcompile

end Targets

/-! ### Groups -/

namespace Group

/-- A group as a left side, under a bit operator if there is one. -/
def side (g : Group) : Option (BitOperator × Int64) → Side
  | none => .group g
  | some (op, argument) => .masked (.group g) op argument

/-- The group with one column as its only member. -/
def alone (g : Group) (c : Column) : Group := { g with members := [c] }

/-- The target that a member of a group stands for. -/
def target (g : Group) (mask : Option (BitOperator × Int64)) (c : Column) : Target :=
  { column := c, aggregate := g.aggregate, mask }

theorem side_targets (g : Group) (mask : Option (BitOperator × Int64)) :
    (g.side mask).targets = .ok (g.members.map (g.target mask)) := by
  cases mask <;> simp [side, Side.targets, Except.map, target]

theorem broadcast_side (g : Group) (mask : Option (BitOperator × Int64))
    (compile : Target → Except Fault Predicate) :
    broadcast (g.side mask) compile = compileAll compile (g.members.map (g.target mask)) := by
  rw [broadcast, side_targets]

/-- A member alone in a group compiles as its target does. -/
theorem broadcast_alone (g : Group) (mask : Option (BitOperator × Int64))
    (compile : Target → Except Fault Predicate) (c : Column) :
    broadcast ((g.alone c).side mask) compile = compile (g.target mask c) := by
  rw [broadcast_side]
  exact compileAll_single _

/-- What is compiled for a group is the union of what is compiled for its members, each alone in the
group: it compiles if some member does and every other member does not fit, and it accepts the rows
that some member accepts. A group with the same members, in another order or listed more often,
compiles to the same. -/
structure IsUnion (compile : Group → Except Fault Predicate) (g : Group) : Prop where
  compiles : (∃ p, compile g = .ok p) ↔
    (∃ c ∈ g.members, ∃ p, compile (g.alone c) = .ok p) ∧
      ∀ c ∈ g.members, ∀ fault, compile (g.alone c) = .error fault → fault.isMismatch = true
  accepts : ∀ p, compile g = .ok p → ∀ row : Row,
    p.accepts row = true ↔ ∃ c ∈ g.members, ∃ q, compile (g.alone c) = .ok q ∧ q.accepts row = true
  unordered : ∀ g' : Group, g'.aggregate = g.aggregate → (∀ c, c ∈ g'.members ↔ c ∈ g.members) →
    ((∃ p, compile g' = .ok p) ↔ ∃ p, compile g = .ok p) ∧
      ∀ p p', compile g = .ok p → compile g' = .ok p' → ∀ row : Row, p'.accepts row = p.accepts row

/-- **Compiling for every member of a group is a union.** -/
theorem broadcast_isUnion (mask : Option (BitOperator × Int64))
    (compile : Target → Except Fault Predicate) (g : Group) :
    IsUnion (fun g => broadcast (g.side mask) compile) g := by
  have hcompiles : ∀ g : Group, (∃ p, broadcast (g.side mask) compile = .ok p) ↔
      (∃ c ∈ g.members, ∃ p, compile (g.target mask c) = .ok p) ∧
        ∀ c ∈ g.members, ∀ fault, compile (g.target mask c) = .error fault → fault.isMismatch = true := by
    intro g
    rw [broadcast_side, exists_compileAll_iff]
    simp only [List.mem_map, exists_exists_and_eq_and, forall_exists_index, and_imp,
      forall_apply_eq_imp_iff₂]
  have haccepts : ∀ (g : Group) (p : Predicate), broadcast (g.side mask) compile = .ok p →
      ∀ row : Row, p.accepts row = true ↔
        ∃ c ∈ g.members, ∃ q, compile (g.target mask c) = .ok q ∧ q.accepts row = true := by
    intro g p hp row
    rw [broadcast_side] at hp
    rw [compileAll_accepts_iff hp row]
    simp only [List.mem_map, exists_exists_and_eq_and]
  refine ⟨?_, ?_, ?_⟩
  · simpa only [broadcast_alone] using hcompiles g
  · simpa only [broadcast_alone] using haccepts g
  · intro g' haggregate hmembers
    have htarget : ∀ c, g'.target mask c = g.target mask c := by
      intro c
      rw [target, haggregate, target]
    refine ⟨?_, ?_⟩
    · rw [hcompiles, hcompiles]
      simp only [hmembers, htarget]
    · intro p p' hp hp' row
      rw [Bool.eq_iff_iff, haccepts g p hp, haccepts g' p' hp']
      simp only [hmembers, htarget]

end Group

/-- Whether a side is a network. -/
def Side.isNetwork : Side → Bool
  | .network _ => true
  | _ => false

theorem Side.compare_eq_broadcast {right : Side} (h : right.isNetwork = false) (left : Side)
    (r : Relation) : left.compare r right = broadcast left (targetCompare r right) := by
  cases right with
  | network n => cases h
  | _ => rfl

/-- **A comparison of a group is the union over its members**, aggregated or not, under a bit operator
or not, for every relation and every right side that is no network; and so is the test whether a
group lies in a network. -/
theorem group_comparison_is_union (g : Group) (mask : Option (BitOperator × Int64)) :
    (∀ (r : Relation) (right : Side), right.isNetwork = false →
      g.IsUnion fun g => (g.side mask).compare r right) ∧
    ∀ n : Network, g.IsUnion fun g => (g.side mask).within (.network n) := by
  refine ⟨?_, ?_⟩
  · intro r right hright
    simp only [Side.compare_eq_broadcast hright]
    exact Group.broadcast_isUnion mask _ g
  · intro n
    exact Group.broadcast_isUnion mask (fun t => t.inNetwork n) g

/-- Flags, a number that no word fits, a text, and the flags once more; with a protocol among them the
word is a fault. -/
theorem group_comparison_is_union_mixed :
    let flags : Column := ⟨"%flg", ["e0id6"], some .number, some .flags, none⟩
    let port : Column := ⟨"%dp", ["e0id11"], some .number, none, none⟩
    let host : Column := ⟨"%host", ["e1id2"], some .text, none, none⟩
    let protocol : Column := ⟨"%pr", ["e0id4"], some .number, some .protocol, none⟩
    let right : Side := .literal (.word "SA")
    let g : Group := ⟨"%any", [flags, port, host, flags], false⟩
    let g' : Group := ⟨"%any", [flags, port, protocol], false⟩
    right.isNetwork = false ∧
      (∃ p, (g.side none).compare .eq right = .ok p ∧
        p.accepts ⟨[("e0id6", .int 2), ("e0id11", .text "SA"), ("e1id2", .text "SA")]⟩ = true ∧
        p.accepts ⟨[("e0id6", .int 2), ("e0id11", .text "SA")]⟩ = false) ∧
      ¬∃ p, (g'.side none).compare .eq right = .ok p := by
  intro flags port host protocol right g g'
  have hunion := (group_comparison_is_union g none).1 .eq right rfl
  have hunion' := (group_comparison_is_union g' none).1 .eq right rfl
  have hfault : ((g'.alone protocol).side none).compare .eq right = .error (.unknownProtocol "SA") := by
    decide
  have hhost : ((g.alone host).side none).compare .eq right =
      .ok (.atom ⟨.column "e1id2", .eq, .text "SA"⟩) := by decide
  have hp : ∃ p, (g.side none).compare .eq right = .ok p ∧
      p.accepts ⟨[("e0id6", .int 2), ("e0id11", .text "SA")]⟩ = false := ⟨_, rfl, by decide⟩
  obtain ⟨p, hp, hrejects⟩ := hp
  refine ⟨rfl, ⟨p, hp, ?_, hrejects⟩, ?_⟩
  · exact (hunion.accepts p hp _).mpr ⟨host, by simp [g], _, hhost, by decide⟩
  · intro hcompiles
    have hmismatch := (hunion'.compiles.mp hcompiles).2 protocol (by simp [g']) _ hfault
    cases hmismatch

end FlowSelect
