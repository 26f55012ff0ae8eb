/-
# Longer schemas

Columns and groups can be added at the end of a schema without changing what filters mean. A name is
looked up among the columns, then among the groups, and the first entry counts, so what was found
before is found again (`Schema.column?_extended`, `Schema.group?_extended`). Only a new column could
come in front of an old group of its name. A valid schema has no such column: an alias that occurs
twice is reported, unless it is empty, and no filter names an empty alias
(`Schema.resolve_extended`).

Key definitions: `Schema.extended`, `Schema.Covers`.
Key theorems: `Schema.alias_not_shared`, `Schema.resolve_extended`, `Query.compile_covered`,
`extension_is_conservative`.
-/
import FlowSelect.Proofs.Faults

namespace FlowSelect

namespace Schema

variable {s s' : Schema}

/-- A schema with further columns and groups after its own. -/
def extended (s : Schema) (columns : List ColumnSpec) (groups : List GroupSpec) : Schema :=
  { s with columns := s.columns ++ columns, groups := s.groups ++ groups }

/-- **In a valid schema no column shares an alias with a group**, the empty alias apart. -/
theorem alias_not_shared (hv : s.validate = .ok ()) {a : String} (ha : a ≠ "")
    (hcolumn : a ∈ s.columns.flatMap ColumnSpec.aliases) : a ∉ s.groups.map GroupSpec.name := by
  intro hgroup
  have hunique := (validate_eq_ok_iff.mp hv).1 a ha
  rw [List.duplicate_iff_two_le_count, aliases, List.count_append] at hunique
  have hcolumns := List.count_pos_iff.mpr hcolumn
  have hgroups := List.count_pos_iff.mpr hgroup
  omega

/-! ### Looking names up -/

variable {columns : List ColumnSpec} {groups : List GroupSpec} {name : String}

theorem column?_extended {spec : ColumnSpec} (h : s.column? name = some spec) :
    (s.extended columns groups).column? name = some spec := by
  unfold column? at h
  simp only [column?, extended, List.find?_append, h, Option.some_or]

theorem group?_extended {spec : GroupSpec} (h : s.group? name = some spec) :
    (s.extended columns groups).group? name = some spec := by
  unfold group? at h
  simp only [group?, extended, List.find?_append, h, Option.some_or]

theorem mem_aliases_of_column? {spec : ColumnSpec} (h : s.column? name = some spec) :
    name ∈ s.columns.flatMap ColumnSpec.aliases := by
  have hname := List.find?_some h
  exact List.mem_flatMap.mpr ⟨spec, column?_mem h, by simpa using hname⟩

theorem mem_names_of_group? {spec : GroupSpec} (h : s.group? name = some spec) :
    name ∈ s.groups.map GroupSpec.name := by
  have hname := List.find?_some h
  exact List.mem_map.mpr ⟨spec, List.mem_of_find?_eq_some h, by simpa using hname⟩

theorem resolveColumn_extended {c : Column} (h : s.resolveColumn name = .ok c) :
    (s.extended columns groups).resolveColumn name = .ok c := by
  unfold resolveColumn at h
  cases hspec : s.column? name with
  | none => simp [hspec] at h
  | some spec =>
    rw [hspec] at h
    rw [resolveColumn, column?_extended hspec]
    exact h

theorem resolveColumns_extended : ∀ {names : List String} {cs : List Column},
    s.resolveColumns names = .ok cs → (s.extended columns groups).resolveColumns names = .ok cs
  | [], _, h => h
  | name :: names, cs, h => by
    rw [resolveColumns] at h
    cases hc : s.resolveColumn name with
    | error fault => simp [hc] at h
    | ok c =>
      cases hcs : s.resolveColumns names with
      | error fault => simp [hc, hcs] at h
      | ok rest =>
        rw [resolveColumns, resolveColumn_extended hc, resolveColumns_extended hcs]
        simpa [hc, hcs] using h

/-- **What a name stood for it stands for in a longer schema**, if that one is valid. -/
theorem resolve_extended (hv : (s.extended columns groups).validate = .ok ()) (hname : name ≠ "")
    {x : Resolved} (h : s.resolve name = .ok x) : (s.extended columns groups).resolve name = .ok x := by
  unfold resolve at h
  cases hcolumn : s.column? name with
  | some spec =>
    rw [hcolumn] at h
    rw [resolve, column?_extended hcolumn]
    cases hc : s.resolveColumn name with
    | error fault => simp [hc, Except.map] at h
    | ok c => simpa [hc, resolveColumn_extended hc, Except.map] using h
  | none =>
    rw [hcolumn] at h
    cases hgroup : s.group? name with
    | none => simp [hgroup] at h
    | some spec =>
      have hgroup' : (s.extended columns groups).group? name = some spec := group?_extended hgroup
      -- a new column of this name would share it with the group
      have hcolumn' : (s.extended columns groups).column? name = none := by
        cases hnew : (s.extended columns groups).column? name with
        | none => rfl
        | some c =>
          exact absurd (mem_names_of_group? hgroup')
            (alias_not_shared hv hname (mem_aliases_of_column? hnew))
      rw [hgroup] at h
      simp only [resolveGroup, hgroup] at h
      simp only [resolve, hcolumn', hgroup', resolveGroup]
      cases hmembers : s.resolveColumns spec.members with
      | error fault => simp [hmembers, Except.map] at h
      | ok members => simpa [hmembers, resolveColumns_extended hmembers] using h

/-- Every name that stands for something in `s` stands for the same in `s'`. -/
def Covers (s' s : Schema) : Prop := ∀ name x, name ≠ "" → s.resolve name = .ok x → s'.resolve name = .ok x

end Schema

/-! ### Compiling -/

variable {s s' : Schema}

theorem ColumnName.side_covered (hs : s'.Covers s) {n : ColumnName} (hn : n.WellWritten) {side : Side}
    (h : n.side s = .ok side) : n.side s' = .ok side := by
  cases n with
  | raw name => exact h
  | registered name =>
    obtain ⟨cs, rfl, -⟩ := hn
    rw [ColumnName.side] at h ⊢
    cases hx : s.resolve (String.ofList ('%' :: cs)) with
    | error fault => rw [hx] at h; cases h
    | ok x =>
      have hne : String.ofList ('%' :: cs) ≠ "" := by simp [← String.toList_inj]
      rw [hs _ x hne hx]
      rwa [hx] at h

theorem Subject.side_covered (hs : s'.Covers s) {x : Subject} (hx : x.WellWritten) {side : Side}
    (h : x.side s = .ok side) : x.side s' = .ok side := by
  cases x with
  | column n => exact ColumnName.side_covered hs hx h
  | masked n op number =>
    rw [Subject.side] at h ⊢
    cases hn : n.side s with
    | error fault => simp [hn] at h
    | ok left =>
      rw [ColumnName.side_covered hs hx.1 hn]
      rwa [hn] at h

theorem Clause.compile_covered (hs : s'.Covers s) {c : Clause} (hc : c.WellWritten) {p : Predicate}
    (h : c.compile s = .ok p) : c.compile s' = .ok p := by
  unfold compile sides at h ⊢
  cases hleft : c.subject.side s with
  | error fault => simp [hleft] at h
  | ok left =>
    rw [Subject.side_covered hs hc.subject hleft]
    rwa [hleft] at h

/-- **A query that compiles compiles alike with a schema that covers the first.** -/
theorem Query.compile_covered (hs : s'.Covers s) {q : Query} : q.WellWritten → ∀ {p : Predicate},
    q.compile s = .ok p → q.compile s' = .ok p := by
  induction q with
  | clause c =>
    intro hq p h
    rw [compile] at h ⊢
    cases hc : c.compile s with
    | error fault => simp [hc] at h
    | ok p' =>
      rw [Clause.compile_covered hs (hq c List.mem_cons_self) hc]
      rwa [hc] at h
  | not q ih =>
    intro hq p h
    rw [compile] at h ⊢
    cases hp : q.compile s with
    | error rejection => simp [hp, Except.map] at h
    | ok p' =>
      rw [ih hq hp]
      rwa [hp] at h
  | and l r ihl ihr | or l r ihl ihr =>
    intro hq p h
    rw [compile] at h ⊢
    cases hl : l.compile s with
    | error rejection => simp [hl] at h
    | ok p₁ =>
      cases hr : r.compile s with
      | error rejection => simp [hl, hr] at h
      | ok p₂ =>
        rw [ihl (fun c hc => hq c (List.mem_append_left _ hc)) hl,
          ihr (fun c hc => hq c (List.mem_append_right _ hc)) hr]
        rwa [hl, hr] at h

theorem compileText_covered (hs : s'.Covers s) {text : String} {o : Option Predicate}
    (h : compileText s text = .ok o) : compileText s' text = .ok o := by
  unfold compileText at h ⊢
  rcases Query.ofText_cases text with ⟨u, hu⟩ | hnone | ⟨q, hq, hw⟩
  · simp [hu] at h
  · rwa [hnone] at h ⊢
  · simp only [hq] at h ⊢
    cases hp : q.compile s with
    | error rejection => rw [hp] at h; cases h
    | ok p =>
      rw [Query.compile_covered hs hw hp]
      rwa [hp] at h

/-- **Extending a schema is conservative.** A filter text that compiles with a schema compiles to the
same predicate with every valid schema that has further columns and groups at its end, and so to the
same engine text, with or without a time window. -/
theorem extension_is_conservative (s : Schema) (columns : List ColumnSpec) (groups : List GroupSpec)
    (hv : (s.extended columns groups).validate = .ok ()) (text : String) :
    (∀ o, compileText s text = .ok o → compileText (s.extended columns groups) text = .ok o) ∧
      ∀ window f, Filter.compile ⟨text, s, window⟩ = .ok f →
        Filter.compile ⟨text, s.extended columns groups, window⟩ = .ok f := by
  have hcovers : (s.extended columns groups).Covers s :=
    fun name x hname hx => Schema.resolve_extended hv hname hx
  refine ⟨fun o h => compileText_covered hcovers h, fun window f h => ?_⟩
  obtain ⟨o, rfl, hcases⟩ := Filter.compile_eq_ok_iff.mp h
  refine Filter.compile_eq_ok_iff.mpr ⟨o, rfl, ?_⟩
  rcases hcases with hblank | ⟨hblank, p, ho, hp⟩
  · exact .inl hblank
  · exact .inr ⟨hblank, p, ho, compileText_covered hcovers hp⟩

/-- The built-in schema with a column for a tunnel, a group of an old column and the new one, and the
empty alias twice. -/
theorem extension_is_conservative_tunnel :
    let columns : List ColumnSpec := [⟨["%tun", ""], ["e0id99"], .ip4, none, none⟩]
    let groups : List GroupSpec := [⟨"%any", ["%sa4", "%tun"], false⟩, ⟨"", ["%tun"], true⟩]
    (Schema.builtin.extended columns groups).validate = .ok () ∧
      ∃ o, compileText .builtin "%ip 10.0.0.0/8 and not %port 53" = .ok o ∧
        compileText (Schema.builtin.extended columns groups) "%ip 10.0.0.0/8 and not %port 53" = .ok o := by
  intro columns groups
  have hv : (Schema.builtin.extended columns groups).validate = .ok () := by decide +kernel
  have hok : (compileText .builtin "%ip 10.0.0.0/8 and not %port 53").isOk = true := by decide +kernel
  obtain ⟨o, ho⟩ : ∃ o, compileText .builtin "%ip 10.0.0.0/8 and not %port 53" = .ok o := by
    cases h : compileText .builtin "%ip 10.0.0.0/8 and not %port 53" with
    | ok o => exact ⟨o, rfl⟩
    | error rejection => simp [h, Except.isOk, Except.toBool] at hok
  exact ⟨hv, o, ho, (extension_is_conservative .builtin columns groups hv _).1 o ho⟩

end FlowSelect
