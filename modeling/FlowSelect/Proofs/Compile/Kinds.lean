/-
# Kinds and the literals they admit

The kind of a column decides which literals it is compared with: signed integers for numbers, IPv4
addresses and times, unsigned ones for the halves of IPv6 addresses, and texts, for equality only, for
texts (`Kind.fits`). Every literal is checked against the kind before a comparison is written, with one
exception: a bare word on a column of protocols or of flags is read as a number by the column's
semantics, and the kind is not looked at. A schema may give these semantics to a column of any kind, so
there a column of texts or of IPv6 addresses is compared with a signed integer
(`literals_fit_kinds_but_for_numeric_words`, `protocol_name_on_a_text_column`).

Key definitions: `Kind.fits`, `Column.MisreadsWord`.
Key theorems: `Target.Leaf.fits_or_misreads`, `Side.compare_misread`,
`literals_fit_kinds_but_for_numeric_words`.
-/
import FlowSelect.Proofs.Compile.Leaves
import FlowSelect.Schema.Validity

namespace FlowSelect

/-- Whether a comparison fits the columns of a kind. -/
def Kind.fits (kind : Kind) (c : Comparison) : Bool :=
  match kind, c.constant with
  | .number, .int _ | .ip4, .int _ | .timestamp, .int _ => true
  | .ip6, .uint _ => true
  | .text, .text _ => c.relation == .eq || c.relation == .ne
  | _, _ => false

/-- The right side is a word that the column reads as a number, though it holds none. -/
def Column.MisreadsWord (c : Column) (right : Side) : Prop :=
  (∃ word, right = .literal (.word word)) ∧
    (c.semantics = some .protocol ∨ c.semantics = some .flags) ∧
    (c.kind = some .ip6 ∨ c.kind = some .text)

namespace Kind

variable {kind : Kind} {o : Operand} {r : Relation}

/-- The kinds of columns that are compared with signed integers. -/
def isInteger : Kind → Bool
  | .number | .ip4 | .timestamp => true
  | .ip6 | .text => false

@[simp] theorem fits_int (n : Int64) : kind.fits ⟨o, r, .int n⟩ = kind.isInteger := by
  cases kind <;> rfl

theorem fits_text {s : String} (hr : r.isOrdering = false) : Kind.text.fits ⟨o, r, .text s⟩ = true := by
  cases r with
  | eq | ne => rfl
  | _ => cases hr

theorem isInteger_or (kind : Kind) : kind.isInteger = true ∨ kind = .ip6 ∨ kind = .text := by
  cases kind <;> simp [isInteger]

end Kind

namespace Target

variable {t : Target} {kind : Kind} {right : Side} {c : Comparison}

theorem accepts_iff (hkind : t.column.kind = some kind) {kinds : List Kind} :
    t.accepts kinds = true ↔ kind ∈ kinds := by
  simp [accepts, hkind]

/-- A word that is read as a number fits where numbers are held. -/
theorem fits_or_misreads_word (hkind : t.column.kind = some kind)
    (hsemantics : t.column.semantics = some .protocol ∨ t.column.semantics = some .flags)
    {word : String} {o : Operand} {r : Relation} {n : Int64} :
    kind.fits ⟨o, r, .int n⟩ = true ∨ t.column.MisreadsWord (.literal (.word word)) := by
  rw [Kind.fits_int]
  refine (Kind.isInteger_or kind).imp_right fun hcases => ⟨⟨word, rfl⟩, hsemantics, ?_⟩
  simpa [hkind] using hcases

/-- **What is checked before a comparison is written makes it fit**, a misread word apart. -/
theorem Leaf.fits_or_misreads (hkind : t.column.kind = some kind) (h : t.Leaf right c) :
    kind.fits c = true ∨ t.column.MisreadsWord right := by
  cases h with
  | number _ _ _ haccepts =>
    have hcases : kind = .number ∨ kind = .ip4 ∨ kind = .timestamp := by
      simpa using (accepts_iff hkind).mp haccepts
    rcases hcases with rfl | rfl | rfl <;> exact .inl rfl
  | timestamp _ _ _ haccepts =>
    have hcases : kind = .timestamp ∨ kind = .number := by simpa using (accepts_iff hkind).mp haccepts
    rcases hcases with rfl | rfl <;> exact .inl rfl
  | ip4 _ _ _ haccepts =>
    obtain rfl : kind = .ip4 := by simpa using (accepts_iff hkind).mp haccepts
    exact .inl rfl
  | ip4Bound _ _ _ _ haccepts =>
    obtain rfl : kind = .ip4 := by simpa using (accepts_iff hkind).mp haccepts
    exact .inl rfl
  | ip6 _ _ _ _ hip6 =>
    obtain rfl : kind = .ip6 := Option.some.inj (hkind.symm.trans hip6)
    exact .inl rfl
  | ip6Bound _ _ _ _ hip6 =>
    obtain rfl : kind = .ip6 := Option.some.inj (hkind.symm.trans hip6)
    exact .inl rfl
  | protocol _ _ hsemantics _ => exact fits_or_misreads_word hkind (.inl hsemantics)
  | flags _ hsemantics _ _ _ => exact fits_or_misreads_word hkind (.inr hsemantics)
  | text _ _ haccepts hr _ _ _ =>
    obtain rfl : kind = .text := by simpa using (accepts_iff hkind).mp haccepts
    exact .inl (Kind.fits_text hr)

/-- Protocols and flags are compared with signed integers. -/
theorem compareWord_int
    (hsemantics : t.column.semantics = some .protocol ∨ t.column.semantics = some .flags) (r : Relation)
    (word : String) :
    Yields (Predicate.All fun c => ∃ n, c.constant = .int n) (t.compareWord r word) := by
  unfold compareWord
  rcases hsemantics with hsemantics | hsemantics
  · simp only [hsemantics]
    split
    · exact yields_error _
    · exact compareParts_all fun _ _ => ⟨_, rfl⟩
  · simp only [hsemantics, compareFlags]
    split
    · exact yields_error _
    split
    · exact yields_error _
    split
    · exact yields_error _
    · exact compareParts_all fun _ _ => ⟨_, rfl⟩

end Target

namespace Side

variable {c : Column} {kind : Kind} {r : Relation} {right : Side} {p : Predicate}

theorem compare_fits (hkind : c.kind = some kind) (hright : ¬c.MisreadsWord right)
    (h : (Side.column c).compare r right = .ok p) : p.All fun a => kind.fits a = true := by
  intro a ha
  obtain ⟨ts, t, hts, ht, hleaf⟩ := compare_leaves (.column c) r right p h a ha
  obtain rfl : [⟨c, false, none⟩] = ts := by simpa [targets] using hts
  obtain rfl := List.mem_singleton.mp ht
  exact (hleaf.fits_or_misreads hkind).resolve_right hright

/-- **No comparison with a misread word fits.** -/
theorem compare_misread (hkind : c.kind = some kind) (hright : c.MisreadsWord right)
    (h : (Side.column c).compare r right = .ok p) : p.All fun a => kind.fits a = false := by
  obtain ⟨⟨word, rfl⟩, hsemantics, hcases⟩ := hright
  have htargets : ∀ t ∈ [(⟨c, false, none⟩ : Target)], Yields (Predicate.All fun a => ∃ n, a.constant = .int n)
      (targetCompare r (.literal (.word word)) t) := by
    intro t ht
    obtain rfl := List.mem_singleton.mp ht
    exact Target.compareWord_int hsemantics r word
  have hints : p.All fun a => ∃ n, a.constant = .int n := compileAll_all htargets p h
  refine hints.imp ?_
  rintro ⟨o, r, k⟩ ⟨n, rfl⟩
  rw [Kind.fits_int]
  rcases hcases with hcase | hcase
  · obtain rfl : kind = .ip6 := Option.some.inj (hkind.symm.trans hcase)
    rfl
  · obtain rfl : kind = .text := Option.some.inj (hkind.symm.trans hcase)
    rfl

end Side

/-- **Kinds gate literals, but not words that are read as numbers.** A column of a schema, valid or not,
has a kind, and what it is compared with fits the kind in every comparison: a signed integer for numbers,
IPv4 addresses and times, an unsigned one for IPv6 addresses, and a text for texts, for equality only. The
exception is exactly a bare word on a column of protocols or flags that holds texts or IPv6 addresses:
then no comparison fits. -/
theorem literals_fit_kinds_but_for_numeric_words (s : Schema) (name : String) (c : Column)
    (hc : s.resolveColumn name = .ok c) (r : Relation) (right : Side) (p : Predicate)
    (h : (Side.column c).compare r right = .ok p) :
    ∃ kind, c.kind = some kind ∧ ∀ a ∈ p.atoms, (kind.fits a = true ↔ ¬c.MisreadsWord right) := by
  obtain ⟨kind, hkind⟩ : ∃ kind, c.kind = some kind := by
    unfold Schema.resolveColumn at hc
    split at hc
    · next spec _ =>
      obtain rfl := Except.ok.inj hc
      exact ⟨spec.kind, rfl⟩
    · cases hc
  refine ⟨kind, hkind, fun a ha => ?_⟩
  by_cases hright : c.MisreadsWord right
  · simp [hright, Side.compare_misread hkind hright h a ha]
  · simp [hright, Side.compare_fits hkind hright h a ha]

/-- A column of texts that names protocols, stored in two parts: a protocol in quotes is a text. -/
theorem literals_fit_kinds_but_for_numeric_words_quoted :
    let spec : ColumnSpec := ⟨["%app"], ["e1id1", "e1id2"], .text, some .protocol, none⟩
    let s : Schema := ⟨[spec], [], Schema.defaultTimestampColumn⟩
    let c := Column.ofSpec "%app" spec
    let right : Side := .literal (.quoted "tcp")
    s.validate = .ok () ∧ s.resolveColumn "%app" = .ok c ∧ ¬c.MisreadsWord right ∧
      ∃ p, (Side.column c).compare .ne right = .ok p ∧ p.atoms.length = 2 ∧
        ∀ a ∈ p.atoms, Kind.text.fits a = true := by
  intro spec s c right
  have hright : ¬c.MisreadsWord right := by
    rintro ⟨⟨word, hword⟩, -⟩
    simp [right] at hword
  have hp : (Side.column c).compare .ne right = .ok (.or
      (.atom ⟨.column "e1id1", .ne, .text "tcp"⟩) (.atom ⟨.column "e1id2", .ne, .text "tcp"⟩)) := by
    decide +kernel
  obtain ⟨kind, hkind, hfits⟩ := literals_fit_kinds_but_for_numeric_words s "%app" c rfl .ne right _ hp
  obtain rfl : Kind.text = kind := Option.some.inj hkind
  exact ⟨by decide +kernel, rfl, hright, _, hp, rfl, fun a ha => (hfits a ha).mpr hright⟩

/-- On a column of texts that names protocols, the number 6 is refused and the name of protocol 6 is not:
the texts are compared with the number, and by order. -/
theorem protocol_name_on_a_text_column :
    let s : Schema :=
      { columns := [⟨["%app"], ["e1id1"], .text, some .protocol, none⟩]
        groups := []
        timestampColumn := Schema.defaultTimestampColumn }
    s.validate = .ok () ∧
      compileText s "%app tcp" = .ok (some (.atom ⟨.column "e1id1", .eq, .int 6⟩)) ∧
      compileText s "%app < tcp" = .ok (some (.atom ⟨.column "e1id1", .lt, .int 6⟩)) ∧
      Kind.text.fits ⟨.column "e1id1", .eq, .int 6⟩ = false ∧
      Kind.text.fits ⟨.column "e1id1", .lt, .int 6⟩ = false ∧
      compileText s "%app 6" =
        .error ⟨some ⟨0, 6⟩, .mismatch "column %app" "number 6" .notNumeric⟩ := by
  refine ⟨?_, ?_, ?_, rfl, rfl, ?_⟩ <;> decide +kernel

end FlowSelect
