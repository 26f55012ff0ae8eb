/-
# Valid schemas are well formed, but for the empty alias

A schema is checked in three passes: aliases, columns, groups. A column or a group passes exactly if
it is well formed (`Schema.columnFault?_eq_none_iff`, `Schema.groupFault?_eq_none_iff`), wherever it
stands. Aliases pass if the text that joins the repeated ones is empty. That text is empty if nothing
is repeated, but also if the empty alias is the only one that is (`Schema.repeatedAliases_isEmpty_iff`).
So the valid schemas are the well-formed ones, and those that would be if a repeated empty alias did
not count (`validation_overlooks_only_the_empty_alias`).

Key definitions: `ColumnSpec.WellFormed`, `GroupSpec.WellFormed`, `Schema.WellFormed`.
Key theorems: `Schema.mem_repeated_iff`, `Schema.repeatedAliases_isEmpty_iff`,
`Schema.validate_eq_ok_iff`, `validation_overlooks_only_the_empty_alias`.
-/
import Mathlib
import FlowSelect.Schema.Validity

namespace FlowSelect

/-- A column has an alias and a part, and two parts if it holds IPv6 addresses. -/
structure ColumnSpec.WellFormed (c : ColumnSpec) : Prop where
  named : c.aliases ≠ []
  stored : c.parts ≠ []
  halves : c.kind = .ip6 → c.parts.length = 2

/-- A group has a member, and its members are aliases of columns. -/
structure GroupSpec.WellFormed (s : Schema) (g : GroupSpec) : Prop where
  populated : g.members ≠ []
  registered : ∀ m ∈ g.members, ∃ c ∈ s.columns, m ∈ c.aliases

/-- What the rules for schemas ask for. -/
structure Schema.WellFormed (s : Schema) : Prop where
  distinct : s.aliases.Nodup
  columns : ∀ c ∈ s.columns, c.WellFormed
  groups : ∀ g ∈ s.groups, g.WellFormed s

namespace Schema

variable {s : Schema}

/-! ### Repeated aliases -/

/-- A name is reported if it was not reported before and is met again, or for the second time. -/
theorem mem_repeated_iff {a : String} : ∀ {xs seen reported : List String},
    a ∈ repeated seen reported xs ↔ a ∉ reported ∧ (a ∈ seen ∧ a ∈ xs ∨ List.Duplicate a xs)
  | [], seen, reported => by simp [repeated, List.not_duplicate_nil]
  | b :: xs, seen, reported => by
    rw [repeated, List.duplicate_cons_iff, List.mem_cons]
    by_cases hseen : b ∈ seen
    · by_cases hreported : b ∈ reported
      · simp only [List.contains_iff_mem, hseen, hreported, if_true, mem_repeated_iff]
        grind
      · simp only [List.contains_iff_mem, hseen, hreported, if_true, if_false, List.mem_cons, mem_repeated_iff]
        grind
    · simp only [List.contains_iff_mem, hseen, if_false, mem_repeated_iff, List.mem_cons]
      grind

/-- No name is reported twice. -/
theorem nodup_repeated : ∀ (xs seen reported : List String), (repeated seen reported xs).Nodup
  | [], _, _ => List.nodup_nil
  | b :: xs, seen, reported => by
    rw [repeated]
    split_ifs
    · exact nodup_repeated xs seen reported
    · refine List.nodup_cons.mpr ⟨?_, nodup_repeated xs seen (b :: reported)⟩
      simp [mem_repeated_iff]
    · exact nodup_repeated xs (b :: seen) reported

/-- The text of distinct names is empty exactly if there is no name but the empty one. -/
theorem intercalate_eq_empty_iff {separator : String} (hs : separator ≠ "") {names : List String}
    (hnames : names.Nodup) :
    String.intercalate separator names = "" ↔ ∀ a ∈ names, a = "" := by
  rcases names with _ | ⟨a, _ | ⟨b, rest⟩⟩
  · simp
  · simp
  · have hab : a ≠ b := by
      rintro rfl
      simp at hnames
    constructor
    · intro hempty
      rw [String.intercalate_cons_cons] at hempty
      simp [hs] at hempty
    · intro hall
      have ha : a = "" := hall a (by simp)
      have hb : b = "" := hall b (by simp)
      exact absurd (ha.trans hb.symm) hab

/-- **No repeated alias is reported exactly if none but the empty one is repeated.** -/
theorem repeatedAliases_isEmpty_iff :
    s.repeatedAliases.isEmpty = true ↔ ∀ a, a ≠ "" → ¬List.Duplicate a s.aliases := by
  have hmem : ∀ a, a ∈ repeated [] [] s.aliases ↔ List.Duplicate a s.aliases := by
    intro a
    simp [mem_repeated_iff]
  rw [String.isEmpty_iff, repeatedAliases,
    intercalate_eq_empty_iff (by decide) (nodup_repeated _ _ _)]
  simp only [hmem]
  exact forall_congr' fun a => not_imp_not.symm

/-! ### Columns and groups -/

theorem columnFault?_eq_none_iff {c : ColumnSpec} : columnFault? c = none ↔ c.WellFormed := by
  unfold columnFault?
  cases haliases : c.aliases with
  | nil =>
    simp only [reduceCtorEq, false_iff]
    exact fun h => h.named haliases
  | cons name rest =>
    dsimp only
    by_cases hparts : c.parts = []
    · rw [if_pos (by simpa using hparts)]
      simp only [reduceCtorEq, false_iff]
      exact fun h => h.stored hparts
    rw [if_neg (by simpa using hparts)]
    by_cases hip6 : c.kind = .ip6 ∧ c.parts.length ≠ 2
    · rw [if_pos hip6]
      simp only [reduceCtorEq, false_iff]
      exact fun h => hip6.2 (h.halves hip6.1)
    · rw [if_neg hip6]
      simp only [true_iff]
      refine ⟨by simp [haliases], hparts, fun hkind => ?_⟩
      by_contra htwo
      exact hip6 ⟨hkind, htwo⟩

/-- A column is found under an alias exactly if some column has it. -/
theorem exists_column?_iff {name : String} :
    (∃ spec, s.column? name = some spec) ↔ ∃ c ∈ s.columns, name ∈ c.aliases := by
  rw [← Option.isSome_iff_exists, column?, List.find?_isSome]
  simp

theorem groupFault?_eq_none_iff {g : GroupSpec} : s.groupFault? g = none ↔ g.WellFormed s := by
  unfold groupFault?
  by_cases hmembers : g.members = []
  · simp only [hmembers, List.isEmpty_nil, if_true, reduceCtorEq, false_iff]
    exact fun h => h.populated hmembers
  · rw [if_neg (by simpa using hmembers)]
    cases hfind : g.members.find? fun m => (s.column? m).isNone with
    | some missing =>
      have hmem := List.mem_of_find?_eq_some hfind
      have hnone := List.find?_some hfind
      simp only [reduceCtorEq, false_iff]
      intro h
      have hregistered := h.registered missing hmem
      rw [← exists_column?_iff] at hregistered
      obtain ⟨spec, hspec⟩ := hregistered
      simp [hspec] at hnone
    | none =>
      simp only [true_iff]
      refine ⟨hmembers, fun m hm => ?_⟩
      rw [← exists_column?_iff]
      have hsome := List.find?_eq_none.mp hfind m hm
      exact Option.ne_none_iff_exists'.mp (by simpa using hsome)

/-! ### Schemas -/

/-- **What a valid schema is.** -/
theorem validate_eq_ok_iff : s.validate = .ok () ↔ (∀ a, a ≠ "" → ¬List.Duplicate a s.aliases) ∧
    (∀ c ∈ s.columns, c.WellFormed) ∧ ∀ g ∈ s.groups, g.WellFormed s := by
  simp only [← repeatedAliases_isEmpty_iff, ← columnFault?_eq_none_iff, ← groupFault?_eq_none_iff]
  have hfault : s.validate = .ok () ↔ s.fault? = none := by
    unfold validate
    cases s.fault? <;> simp
  rw [hfault, fault?]
  by_cases hrepeated : s.repeatedAliases.isEmpty = true
  · rw [if_pos hrepeated]
    cases hc : s.columns.findSome? columnFault? with
    | none =>
      have hall := List.findSome?_eq_none_iff.mp hc
      simpa [hrepeated] using fun _ => hall
    | some fault =>
      obtain ⟨c, hmem, hfault⟩ := List.exists_of_findSome?_eq_some hc
      simp only [reduceCtorEq, false_iff, not_and]
      exact fun _ hall => absurd (hall c hmem) (by simp [hfault])
  · simp [hrepeated]

end Schema

/-- **A schema is valid exactly if it keeps the rules for columns and groups and repeats no alias but
the empty one.** So a schema keeps all rules exactly if it is valid and has the empty alias at most
once. -/
theorem validation_overlooks_only_the_empty_alias (s : Schema) :
    (s.validate = .ok () ↔ (∀ a, a ≠ "" → s.aliases.count a ≤ 1) ∧
      (∀ c ∈ s.columns, c.WellFormed) ∧ ∀ g ∈ s.groups, g.WellFormed s) ∧
    (s.WellFormed ↔ s.validate = .ok () ∧ s.aliases.count "" ≤ 1) := by
  have hcount : ∀ a, ¬List.Duplicate a s.aliases ↔ s.aliases.count a ≤ 1 := by
    intro a
    rw [List.duplicate_iff_two_le_count]
    omega
  have hvalid := s.validate_eq_ok_iff
  simp only [hcount] at hvalid
  refine ⟨hvalid, ?_⟩
  rw [hvalid]
  constructor
  · intro h
    have hdistinct := List.nodup_iff_count_le_one.mp h.distinct
    exact ⟨⟨fun a _ => hdistinct a, h.columns, h.groups⟩, hdistinct ""⟩
  · rintro ⟨⟨hnames, hcolumns, hgroups⟩, hempty⟩
    refine ⟨List.nodup_iff_count_le_one.mpr fun a => ?_, hcolumns, hgroups⟩
    by_cases ha : a = ""
    · rwa [ha]
    · exact hnames a ha

/-- Two columns that share the empty alias are a valid schema. -/
theorem repeated_empty_alias_is_valid :
    let s : Schema :=
      { columns := [⟨[""], ["e0id7"], .number, none, none⟩, ⟨[""], ["e0id11"], .number, none, none⟩]
        groups := []
        timestampColumn := Schema.defaultTimestampColumn }
    ¬s.aliases.Nodup ∧ ¬s.WellFormed ∧ s.validate = .ok () := by
  intro s
  have hrepeated : ¬s.aliases.Nodup := by decide
  exact ⟨hrepeated, fun h => hrepeated h.distinct, by decide⟩

end FlowSelect
