/-
# A subnet of full width and its address

A subnet that keeps all bits holds one address, so a place lies in it if it holds that address, and
lies outside if it holds another number (`inRange_point_accepts`, `inRange_point_complement`). A left
side may look at several places. Equality with the address and membership in the subnet both ask for
one of them, and they accept the same rows. Their opposites part: `!=` with the address still asks
for one place that differs, while `!=` with the subnet is the complement of the membership and asks
that all places differ (`full_width_subnet_and_address`). Where only one place is looked at the two
agree; on a group they do not (`full_width_subnet_excludes_all`).

Key definitions: `Address.network`, `Side.differences`, `Alike`, `SomeAndAll`.
Key theorems: `Target.compared_or_unfit`, `full_width_subnet_and_address`.
-/
import FlowSelect.Proofs.Compile.Union
import FlowSelect.Proofs.Net.Halves
import FlowSelect.Schema.Builtin
import FlowSelect.Schema.Validity

namespace FlowSelect

/-- An address of either family. -/
inductive Address where
  | ip4 (a : Ip4)
  | ip6 (a : Ip6)
  deriving DecidableEq, Repr

namespace Address

/-- The address as a literal. -/
def literal : Address → Literal
  | .ip4 a => .ip4 a
  | .ip6 a => .ip6 a

/-- The subnet in which all bits of the address count. -/
def network : Address → Network
  | .ip4 a => .ip4 ⟨a, 32, le_rfl⟩
  | .ip6 a => .ip6 ⟨a, 128, le_rfl⟩

end Address

/-! ### One place -/

theorem Subnet.low_of_all_bits {w : Nat} (a : BitVec w) : low ⟨a, w, le_rfl⟩ = a := by
  simp [low, clearLast]

theorem Subnet.high_of_all_bits {w : Nat} (a : BitVec w) : high ⟨a, w, le_rfl⟩ = a := by
  simp [high, clearLast]

section Point

variable {row : Row} {o : Operand} {k : Constant} {n : Int}

/-- Between a bound and the same bound lies the bound. -/
theorem inRange_point_accepts (hk : k.integer? = some n) :
    (inRange o k k).accepts row = true ↔ (comparison o .eq k).accepts row = true := by
  rw [inRange_integer_iff hk hk, comparison_integer_iff hk]
  refine exists_congr fun x => and_congr_right fun _ => ?_
  simp only [Relation.Between]
  omega

/-- Outside lie the other integers. -/
theorem inRange_point_complement (hk : k.integer? = some n) :
    (inRange o k k).complement.accepts row = true ↔ (comparison o .ne k).accepts row = true := by
  rw [inRange_complement_integer_iff hk hk, comparison_integer_iff hk]
  refine exists_congr fun x => and_congr_right fun _ => ?_
  simp only [Relation.Between]
  omega

variable {high low : Operand} (a : Ip6)

/-- A subnet of full width constrains both halves. -/
theorem halvesInSubnet_of_all_bits : halvesInSubnet high low ⟨a, 128, le_rfl⟩ =
    .and (inRange high (.uint a.high) (.uint a.high)) (inRange low (.uint a.low) (.uint a.low)) := by
  have hfree : ¬(Ip6.low a = 0 ∧ Ip6.low a = 0xffffffffffffffff) := by
    rintro ⟨hzero, hones⟩
    rw [hzero] at hones
    cases hones
  rw [halvesInSubnet, Subnet.low_of_all_bits, Subnet.high_of_all_bits, if_neg hfree]

theorem halvesInSubnet_point_accepts :
    (halvesInSubnet high low ⟨a, 128, le_rfl⟩).accepts row = true ↔
      (compareHalves high low .eq a).accepts row = true := by
  rw [halvesInSubnet_of_all_bits, compareHalves, Predicate.accepts_and, Predicate.accepts_and,
    inRange_point_accepts rfl, inRange_point_accepts rfl]

theorem halvesInSubnet_point_complement :
    (halvesInSubnet high low ⟨a, 128, le_rfl⟩).complement.accepts row = true ↔
      (compareHalves high low .ne a).accepts row = true := by
  rw [halvesInSubnet_of_all_bits, compareHalves, Predicate.accepts_or]
  rw [← inRange_point_complement rfl, ← inRange_point_complement (o := low) rfl]
  exact Predicate.accepts_or row _ _

end Point

/-! ### Targets -/

namespace Target

/-- Whether a place differs from an address, for each place that a target looks at. -/
def differences (t : Target) : Address → List Predicate
  | .ip4 a =>
    if t.accepts [.ip4] then
      t.column.parts.map fun part => comparison (t.operand part) .ne a.constant
    else []
  | .ip6 a =>
    match t.column.kind, t.column.parts with
    | some .ip6, [high, low] => [compareHalves (t.operand high) (t.operand low) .ne a]
    | _, _ => []

/-- What is compiled for a target that looks at some place: `=` and `!=` with an address, and
membership in the subnet that holds only the address. -/
structure Compared (t : Target) (a : Address) (equal other within : Predicate) : Prop where
  differences_ne_nil : t.differences a ≠ []
  equal_ok : t.compareLiteral .eq a.literal = .ok equal
  other_ok : t.compareLiteral .ne a.literal = .ok other
  within_ok : t.inNetwork a.network = .ok within
  same : ∀ row : Row, within.accepts row = equal.accepts row
  some_differs : ∀ row : Row, other.accepts row = true ↔ ∃ d ∈ t.differences a, d.accepts row = true
  all_differ : ∀ row : Row,
    within.complement.accepts row = true ↔ ∀ d ∈ t.differences a, d.accepts row = true

/-- A target that looks at no place: all three fail, and either all for a misfit or none. -/
structure Unfit (t : Target) (a : Address) (fault fault' : Fault) : Prop where
  literal : ∀ r, t.compareLiteral r a.literal = .error fault
  network : t.inNetwork a.network = .error fault'
  alike : fault.isMismatch = fault'.isMismatch

variable {t : Target}

theorem compared_ip4 (hmask : t.mask = none) (hkind : t.accepts [.ip4] = true)
    (hparts : t.column.parts ≠ []) (a : Ip4) :
    ∃ equal other within, t.Compared (.ip4 a) equal other within := by
  obtain ⟨equal, hequal⟩ := eachPart?_of_parts hparts fun part => comparison (t.operand part) .eq a.constant
  obtain ⟨other, hother⟩ := eachPart?_of_parts hparts fun part => comparison (t.operand part) .ne a.constant
  obtain ⟨within, hwithin⟩ :=
    eachPart?_of_parts hparts fun part => inRange (t.operand part) a.constant a.constant
  have hk : a.constant.integer? = some (Int64.ofNat a.toNat).toInt := rfl
  have hcompare : ∀ {r p}, t.eachPart? (fun part => comparison (t.operand part) r a.constant) = some p →
      t.compareLiteral r (.ip4 a) = .ok p := by
    intro r p hp
    rw [compareLiteral, if_pos hkind, compareParts]
    simp only [comparison] at hp
    rw [hp]
  refine ⟨equal, other, within, ?_, hcompare hequal, hcompare hother, ?_, ?_, ?_, ?_⟩
  · simp [differences, hkind, hparts]
  · rw [Address.network, inNetwork, hmask]
    simp only [Subnet.low_of_all_bits, Subnet.high_of_all_bits, hkind, hwithin]
    rfl
  · intro row
    rw [Bool.eq_iff_iff, eachPart?_accepts hwithin, eachPart?_accepts hequal]
    simp only [inRange_point_accepts hk]
  · intro row
    rw [eachPart?_accepts hother, differences, if_pos hkind]
    simp only [List.mem_map, exists_exists_and_eq_and]
  · intro row
    rw [eachPart?_complement hwithin, differences, if_pos hkind, List.forall_mem_map]
    simp only [inRange_point_complement hk]

theorem compared_ip6 {high low : String} (hmask : t.mask = none) (hkind : t.column.kind = some .ip6)
    (hparts : t.column.parts = [high, low]) (a : Ip6) :
    ∃ equal other within, t.Compared (.ip6 a) equal other within := by
  have hhalves : ∀ right, t.halves right = .ok (high, low) := by
    intro right
    simp [halves, hmask, hkind, hparts]
  have hdifferences : t.differences (.ip6 a) = [compareHalves (t.operand high) (t.operand low) .ne a] := by
    simp [differences, hkind, hparts]
  have hcompare : ∀ r, t.compareLiteral r (.ip6 a) =
      .ok (compareHalves (t.operand high) (t.operand low) r a) := by
    intro r
    rw [compareLiteral, hhalves]
  refine ⟨_, _, halvesInSubnet (t.operand high) (t.operand low) ⟨a, 128, le_rfl⟩,
    by simp [hdifferences], hcompare .eq, hcompare .ne, ?_, ?_, ?_, ?_⟩
  · rw [Address.network, inNetwork, hmask]
    simp [hhalves]
  · intro row
    rw [Bool.eq_iff_iff, halvesInSubnet_point_accepts]
  · intro row
    simp [hdifferences]
  · intro row
    simp [hdifferences, halvesInSubnet_point_complement]

/-- **A target looks at some place, and then all three compile, or at none, and then all fail.** -/
theorem compared_or_unfit (hmask : t.mask = none) (a : Address) :
    (∃ equal other within, t.Compared a equal other within) ∨
      t.differences a = [] ∧ ∃ fault fault', t.Unfit a fault fault' := by
  cases a with
  | ip4 a =>
    by_cases hkind : t.accepts [.ip4] = true
    · by_cases hparts : t.column.parts = []
      · have hnone : ∀ f, t.eachPart? f = none := by simp [eachPart?, hparts, Formula.disjoin?]
        refine .inr ⟨by simp [differences, hparts],
          .internal (.columnHasNoParts t.column.name), .internal .columnWithoutParts, ?_, ?_, rfl⟩
        · intro r
          rw [Address.literal, compareLiteral, if_pos hkind, compareParts, hnone]
        · simp [Address.network, inNetwork, hmask, hkind, hnone]
      · exact .inl (compared_ip4 hmask hkind hparts a)
    · refine .inr ⟨by simp [differences, hkind], t.mismatch (.literal (.ip4 a)) .notIp4,
        t.mismatch (.network (Address.ip4 a).network) .notIp4, ?_, ?_, rfl⟩
      · intro r
        rw [Address.literal, compareLiteral, if_neg hkind]
      · simp [Address.network, inNetwork, hmask, hkind]
  | ip6 a =>
    by_cases hhalves : ∃ high low, t.column.kind = some .ip6 ∧ t.column.parts = [high, low]
    · obtain ⟨high, low, hkind, hparts⟩ := hhalves
      exact .inl (compared_ip6 hmask hkind hparts a)
    · have hnone : ∀ right, t.halves right = .error (t.mismatch right .notIp6) := by
        intro right
        rw [halves, hmask]
        split
        · next h => cases h
        · split
          · next high low hkind hparts => exact absurd ⟨high, low, hkind, hparts⟩ hhalves
          · rfl
      refine .inr ⟨?_, t.mismatch (.literal (.ip6 a)) .notIp6,
        t.mismatch (.network (Address.ip6 a).network) .notIp6, ?_, ?_, rfl⟩
      · rw [differences]
        split
        · next high low hkind hparts => exact absurd ⟨high, low, hkind, hparts⟩ hhalves
        · rfl
      · intro r
        rw [Address.literal, compareLiteral, hnone]
      · simp [Address.network, inNetwork, hmask, hnone]

end Target

/-! ### Sides -/

/-- Both fail, or both compile to predicates in a relation. -/
def Alike (R : Predicate → Predicate → Prop) : Except Fault Predicate → Except Fault Predicate → Prop
  | .ok p, .ok q => R p q
  | .error _, .error _ => True
  | _, _ => False

/-- Two predicates accept the same rows. -/
def SameRows (p q : Predicate) : Prop := ∀ row : Row, p.accepts row = q.accepts row

/-- Of some tests, the first predicate asks for one and the second for all. -/
structure SomeAndAll (tests : List Predicate) (p q : Predicate) : Prop where
  tests_ne_nil : tests ≠ []
  accepts_some : ∀ row : Row, p.accepts row = true ↔ ∃ d ∈ tests, d.accepts row = true
  accepts_all : ∀ row : Row, q.accepts row = true ↔ ∀ d ∈ tests, d.accepts row = true

theorem alike_of_ok_iff {R : Predicate → Predicate → Prop} {x y : Except Fault Predicate}
    (hok : (∃ p, x = .ok p) ↔ ∃ q, y = .ok q) (hR : ∀ p q, x = .ok p → y = .ok q → R p q) :
    Alike R x y := by
  cases x with
  | ok p =>
    obtain ⟨q, rfl⟩ := hok.mp ⟨p, rfl⟩
    exact hR p q rfl rfl
  | error fault =>
    cases y with
    | error fault' => trivial
    | ok q =>
      obtain ⟨p, hp⟩ := hok.mpr ⟨q, rfl⟩
      cases hp

theorem Alike.imp {R S : Predicate → Predicate → Prop} (h : ∀ p q, R p q → S p q) :
    ∀ {x y : Except Fault Predicate}, Alike R x y → Alike S x y
  | .ok p, .ok q, hxy => h p q hxy
  | .error _, .error _, _ => trivial

/-- One test is all tests if there is only one. -/
theorem SomeAndAll.sameRows {tests : List Predicate} (hone : tests.length = 1) (p q : Predicate)
    (h : SomeAndAll tests p q) : SameRows p q := by
  obtain ⟨d, rfl⟩ := List.length_eq_one_iff.mp hone
  intro row
  rw [Bool.eq_iff_iff, h.accepts_some, h.accepts_all]
  simp

namespace Side

/-- Whether a side is under a bit operator. -/
def isMasked : Side → Bool
  | .masked _ _ _ => true
  | _ => false

/-- Whether a place differs from an address, for each place that a left side looks at. -/
def differences (left : Side) (a : Address) : List Predicate :=
  match left.targets with
  | .ok ts => ts.flatMap fun t => t.differences a
  | .error _ => []

theorem mask_of_mem_targets {left : Side} {ts : List Target} (h : left.isMasked = false)
    (hts : left.targets = .ok ts) : ∀ t ∈ ts, t.mask = none := by
  cases left with
  | column c => cases hts; simp
  | group g => cases hts; simp
  | masked side op argument => cases h
  | literal l => cases hts
  | network n => cases hts

end Side

section Targets

variable {ts : List Target} {a : Address}

/-- The address and the subnet compile on the same left sides. -/
theorem exists_compileAll_address (hmask : ∀ t ∈ ts, t.mask = none) {r : Relation}
    (hr : r.isOrdering = false) :
    (∃ p, compileAll (fun t => t.compareLiteral r a.literal) ts = .ok p) ↔
      ∃ p, compileAll (fun t => t.inNetwork a.network) ts = .ok p := by
  rw [exists_compileAll_iff, exists_compileAll_iff]
  have hok : ∀ t ∈ ts, (∃ p, t.compareLiteral r a.literal = .ok p) ↔
      ∃ p, t.inNetwork a.network = .ok p := by
    intro t ht
    rcases t.compared_or_unfit (hmask t ht) a with ⟨equal, other, within, h⟩ | ⟨-, fault, fault', h⟩
    · cases r with
      | eq => exact ⟨fun _ => ⟨within, h.within_ok⟩, fun _ => ⟨equal, h.equal_ok⟩⟩
      | ne => exact ⟨fun _ => ⟨within, h.within_ok⟩, fun _ => ⟨other, h.other_ok⟩⟩
      | _ => cases hr
    · simp [h.literal, h.network]
  have hmisfit : ∀ t ∈ ts,
      (∀ fault, t.compareLiteral r a.literal = .error fault → fault.isMismatch = true) ↔
        ∀ fault, t.inNetwork a.network = .error fault → fault.isMismatch = true := by
    intro t ht
    rcases t.compared_or_unfit (hmask t ht) a with ⟨equal, other, within, h⟩ | ⟨-, fault, fault', h⟩
    · cases r with
      | eq => simp [h.equal_ok, h.within_ok]
      | ne => simp [h.other_ok, h.within_ok]
      | _ => cases hr
    · simp [h.literal, h.network, h.alike]
  exact and_congr (exists_congr fun t => and_congr_right (hok t)) (forall₂_congr hmisfit)

/-- Of every left side, the address and the subnet hold on the same rows. -/
theorem compileAll_equal (hmask : ∀ t ∈ ts, t.mask = none) :
    Alike SameRows (compileAll (fun t => t.compareLiteral .eq a.literal) ts)
      (compileAll (fun t => t.inNetwork a.network) ts) := by
  refine alike_of_ok_iff (exists_compileAll_address hmask rfl) ?_
  intro p q hp hq row
  rw [Bool.eq_iff_iff, compileAll_accepts_iff hp, compileAll_accepts_iff hq]
  refine exists_congr fun t => and_congr_right fun ht => ?_
  rcases t.compared_or_unfit (hmask t ht) a with ⟨equal, other, within, h⟩ | ⟨-, fault, fault', h⟩
  · simp [h.equal_ok, h.within_ok, h.same]
  · simp [h.literal, h.network]

theorem exists_difference_of_compileAll (hmask : ∀ t ∈ ts, t.mask = none) {q : Predicate}
    (hq : compileAll (fun t => t.inNetwork a.network) ts = .ok q) :
    (ts.flatMap fun t => t.differences a) ≠ [] := by
  obtain ⟨⟨t, ht, p, hp⟩, -⟩ := exists_compileAll_iff.mp ⟨q, hq⟩
  rcases t.compared_or_unfit (hmask t ht) a with ⟨equal, other, within, h⟩ | ⟨-, fault, fault', h⟩
  · intro hnil
    exact h.differences_ne_nil (List.flatMap_eq_nil_iff.mp hnil t ht)
  · rw [h.network] at hp
    cases hp

theorem compileAll_other_accepts (hmask : ∀ t ∈ ts, t.mask = none) {p : Predicate}
    (hp : compileAll (fun t => t.compareLiteral .ne a.literal) ts = .ok p) (row : Row) :
    p.accepts row = true ↔ ∃ d ∈ ts.flatMap fun t => t.differences a, d.accepts row = true := by
  have htarget : ∀ t ∈ ts, (∃ q, t.compareLiteral .ne a.literal = .ok q ∧ q.accepts row = true) ↔
      ∃ d ∈ t.differences a, d.accepts row = true := by
    intro t ht
    rcases t.compared_or_unfit (hmask t ht) a with ⟨equal, other, within, h⟩ | ⟨hnone, fault, fault', h⟩
    · simp [h.other_ok, h.some_differs]
    · simp [h.literal, hnone]
  rw [compileAll_accepts_iff hp]
  simp only [List.mem_flatMap]
  constructor
  · rintro ⟨t, ht, hq⟩
    obtain ⟨d, hd, hrow⟩ := (htarget t ht).mp hq
    exact ⟨d, ⟨t, ht, hd⟩, hrow⟩
  · rintro ⟨d, ⟨t, ht, hd⟩, hrow⟩
    exact ⟨t, ht, (htarget t ht).mpr ⟨d, hd, hrow⟩⟩

theorem compileAll_outside_accepts (hmask : ∀ t ∈ ts, t.mask = none) {q : Predicate}
    (hq : compileAll (fun t => t.inNetwork a.network) ts = .ok q) (row : Row) :
    q.complement.accepts row = true ↔
      ∀ d ∈ ts.flatMap fun t => t.differences a, d.accepts row = true := by
  have htarget : ∀ t ∈ ts, (∀ q, t.inNetwork a.network = .ok q → q.complement.accepts row = true) ↔
      ∀ d ∈ t.differences a, d.accepts row = true := by
    intro t ht
    rcases t.compared_or_unfit (hmask t ht) a with ⟨equal, other, within, h⟩ | ⟨hnone, fault, fault', h⟩
    · simp [h.within_ok, h.all_differ]
    · simp [h.network, hnone]
  rw [compileAll_complement_accepts_iff hq]
  simp only [List.mem_flatMap]
  constructor
  · rintro hall d ⟨t, ht, hd⟩
    exact (htarget t ht).mp (hall t ht) d hd
  · intro hall t ht
    exact (htarget t ht).mpr fun d hd => hall d ⟨t, ht, hd⟩

/-- Their opposites ask for one place that differs, and for all. -/
theorem compileAll_other (hmask : ∀ t ∈ ts, t.mask = none) :
    Alike (SomeAndAll (ts.flatMap fun t => t.differences a))
      (compileAll (fun t => t.compareLiteral .ne a.literal) ts)
      ((compileAll (fun t => t.inNetwork a.network) ts).map Predicate.complement) := by
  have hmap : ∀ {x : Except Fault Predicate} {q : Predicate}, x.map Predicate.complement = .ok q →
      ∃ q', x = .ok q' ∧ q'.complement = q := by
    intro x q hx
    cases x with
    | ok q' => exact ⟨q', rfl, by simpa [Except.map] using hx⟩
    | error fault => cases hx
  refine alike_of_ok_iff ((exists_compileAll_address hmask rfl).trans ?_) ?_
  · constructor
    · rintro ⟨q, hq⟩
      exact ⟨q.complement, by rw [hq]; rfl⟩
    · rintro ⟨q, hq⟩
      obtain ⟨q', hq', -⟩ := hmap hq
      exact ⟨q', hq'⟩
  · intro p q hp hq
    obtain ⟨q', hq', rfl⟩ := hmap hq
    exact ⟨exists_difference_of_compileAll hmask hq', compileAll_other_accepts hmask hp,
      compileAll_outside_accepts hmask hq'⟩

end Targets

/-- **A subnet of full width means the address on the right of `=`, and on the right of `!=` where one
place is looked at.** Of several places, `!=` with the address asks that one differs and `!=` with the
subnet that all do. -/
theorem full_width_subnet_and_address (left : Side) (hmask : left.isMasked = false) (a : Address) :
    Alike SameRows (left.compare .eq (.literal a.literal)) (left.compare .eq (.network a.network)) ∧
    Alike (SomeAndAll (left.differences a)) (left.compare .ne (.literal a.literal))
      (left.compare .ne (.network a.network)) ∧
    ((left.differences a).length = 1 →
      Alike SameRows (left.compare .ne (.literal a.literal)) (left.compare .ne (.network a.network))) := by
  have hliteral : ∀ r, left.compare r (.literal a.literal) =
      broadcast left fun t => t.compareLiteral r a.literal := fun _ => rfl
  have hequal : left.compare .eq (.network a.network) =
      broadcast left fun t => t.inNetwork a.network := rfl
  have hother : left.compare .ne (.network a.network) =
      (broadcast left fun t => t.inNetwork a.network).map Predicate.complement := rfl
  rw [hliteral, hliteral, hequal, hother]
  cases hts : left.targets with
  | error fault => simp [broadcast, hts, Alike, Except.map]
  | ok ts =>
    have hmasks := Side.mask_of_mem_targets hmask hts
    have hdifferences : left.differences a = ts.flatMap fun t => t.differences a := by
      rw [Side.differences, hts]
    simp only [broadcast, hts, hdifferences]
    have hother := compileAll_other (a := a) hmasks
    exact ⟨compileAll_equal hmasks, hother, fun hone => hother.imp (SomeAndAll.sameRows hone)⟩

/-- An IPv6 address and a group with one column of either family: one place is looked at. -/
theorem full_width_subnet_and_address_one_place :
    let g : Group := ⟨"%sa", [⟨"%sa4", ["e0id8"], some .ip4, none, none⟩,
      ⟨"%sa6", ["e0id27p0", "e0id27p1"], some .ip6, none, none⟩], false⟩
    let a : Address := .ip6 0x20010db8000000000000000000000001
    (Side.group g).isMasked = false ∧ ((Side.group g).differences a).length = 1 ∧
      (∃ p, (Side.group g).compare .ne (.literal a.literal) = .ok p) ∧
      Alike SameRows ((Side.group g).compare .ne (.literal a.literal))
        ((Side.group g).compare .ne (.network a.network)) := by
  intro g a
  obtain ⟨-, -, hone⟩ := full_width_subnet_and_address (.group g) rfl a
  exact ⟨rfl, rfl, ⟨_, rfl⟩, hone rfl⟩

/-- Of the built-in group of all addresses, `!= 10.0.0.1` accepts a record from 10.0.0.1 to 10.0.0.2
and `!= 10.0.0.1/32` does not. -/
theorem full_width_subnet_excludes_all :
    Schema.builtin.validate = .ok () ∧
    ∃ g, Schema.builtin.resolve "%ip" = .ok (.group g) ∧
      ¬Alike SameRows ((Side.group g).compare .ne (.literal (Address.ip4 0x0a000001).literal))
        ((Side.group g).compare .ne (.network (Address.ip4 0x0a000001).network)) := by
  refine ⟨by decide, _, rfl, ?_⟩
  intro hsame
  have hrow := hsame ⟨[("e0id8", .int 0x0a000001), ("e0id12", .int 0x0a000002)]⟩
  revert hrow
  decide

end FlowSelect
