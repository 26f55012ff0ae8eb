/-
# JSON texts read back

The compact text of a value is read back as the value, whatever follows it. Strings hold only escapes
that the reader undoes, integers have no needless zeros, and the brackets and commas of arrays and
objects part their members. What follows a value must not go on with a number, and nothing in a
compact text does. The reader has enough fuel: every second of its steps takes a character.

Values that hold a `real` or `unpaired` are left out. Of those only the spelling is kept, or not even
that, and nothing is written with them.

Key definitions: `Json.Plain`, `Json.Ends`, `Json.ReadsBack`.
Key theorems: `Json.stringBody?_escaped`, `Json.number?_toString`, `Json.Plain.readsBack`,
`Json.read?_render`.
-/
import FlowSelect.Json.Reader
import FlowSelect.Proofs.Text.Digits

namespace FlowSelect
namespace Json

/-! ### Strings -/

theorem codeUnit?_hexDigit :
    ∀ n < 32, codeUnit? '0' '0' (hexDigit (n / 16)) (hexDigit (n % 16)) = some n := by
  decide

/-- The reader undoes the escape of a character. -/
theorem stringBody?_escapeChar (c : Char) (rest : List Char) :
    stringBody? (escapeChar c ++ rest) = consTo (some c) (stringBody? rest) := by
  unfold escapeChar
  split_ifs with hquote hbackslash hn hr ht hb hf hcontrol
  · subst hquote; rfl
  · subst hbackslash; rfl
  · subst hn; rfl
  · subst hr; rfl
  · subst ht; rfl
  · obtain rfl : c = Char.ofNat 0x08 := by rw [← hb, Char.ofNat_toNat]
    rfl
  · obtain rfl : c = Char.ofNat 0x0C := by rw [← hf, Char.ofNat_toNat]
    rfl
  · have hunit := codeUnit?_hexDigit c.toNat hcontrol
    have hsingle : singleUnit? c.toNat = some c := by
      rw [singleUnit?, if_pos (Or.inl (by omega)), Char.ofNat_toNat]
    simp [stringBody?, hunit, hsingle]
  · rw [List.singleton_append, stringBody?.eq_def]
    split <;> simp_all

theorem stringBody?_escaped (rest : List Char) : ∀ cs : List Char,
    stringBody? (cs.flatMap escapeChar ++ '"' :: rest) = some (cs, rest)
  | [] => rfl
  | c :: cs => by
    rw [List.flatMap_cons, List.append_assoc, stringBody?_escapeChar, stringBody?_escaped rest cs]
    rfl

/-- **A string is read back.** -/
theorem string?_quote (s : String) (rest : List Char) :
    ∃ cs, quote s ++ rest = '"' :: cs ∧ string? cs = some (some s, rest) := by
  refine ⟨s.toList.flatMap escapeChar ++ '"' :: rest, by simp [quote], ?_⟩
  simp [string?, stringBody?_escaped]

/-! ### Numbers -/

/-- The text does not go on with a number. -/
def Ends (rest : List Char) : Prop :=
  ∀ c ∈ rest.head?, c.isDigit = false ∧ c ≠ '.' ∧ c ≠ 'e' ∧ c ≠ 'E'

variable {rest : List Char}

theorem Ends.breaks (h : Ends rest) : Digits.Breaks rest := fun c hc => (h c hc).1

theorem Ends.fraction? (h : Ends rest) : fraction? rest = some ([], rest) := by
  unfold Json.fraction?
  split
  · next cs => exact absurd rfl (h '.' rfl).2.1
  · rfl

theorem Ends.exponent? (h : Ends rest) : exponent? rest = some ([], rest) := by
  unfold Json.exponent?
  split
  · rfl
  · next c cs => rw [if_neg (by simp [(h c rfl).2.2])]

theorem wholeDigits?_toDigits (n : Nat) (h : Ends rest) :
    wholeDigits? (Nat.toDigits 10 n ++ rest) = some (Nat.toDigits 10 n, rest) := by
  have hrun := Digits.isRun_toDigits n
  unfold wholeDigits?
  split
  · next cs hcs =>
    -- a zero at the front is the whole number
    obtain ⟨d, ds, hds, -⟩ := Digits.toDigits_eq_cons n
    rw [hds, List.cons_append] at hcs
    obtain ⟨rfl, rfl⟩ := List.cons.inj hcs
    obtain rfl : ds = [] := Digits.eq_nil_of_toDigits_zero hds
    rw [hds, List.nil_append]
  · simp [Digits.takeWhile_run hrun h.breaks, Digits.dropWhile_run hrun h.breaks]

theorem unsigned?_toDigits {negative : Bool} {n : Nat} (hn : negative = true → n ≠ 0) (h : Ends rest) :
    unsigned? negative (Nat.toDigits 10 n ++ rest) =
      some (.int (if negative then -(n : Int) else (n : Int)), rest) := by
  have hsign : (negative && n == 0) = false := by
    cases negative with
    | false => rfl
    | true => simpa using hn rfl
  simp [unsigned?, wholeDigits?_toDigits n h, h.fraction?, h.exponent?, hsign]

/-- The first character of an integer's text. -/
def StartsNumber (c : Char) : Prop := c.isDigit = true ∨ c = '-'

theorem toString_starts (n : Int) : ∃ c cs, (toString n).toList = c :: cs ∧ StartsNumber c := by
  rw [Digits.toList_toString]
  split
  · obtain ⟨d, ds, hds, hd⟩ := Digits.toDigits_eq_cons n.toNat
    exact ⟨d, ds, hds, .inl hd⟩
  · exact ⟨'-', _, rfl, .inr rfl⟩

/-- **An integer is read back.** -/
theorem number?_toString (n : Int) (h : Ends rest) :
    number? ((toString n).toList ++ rest) = some (.int n, rest) := by
  rw [Digits.toList_toString]
  split
  · next hn =>
    obtain ⟨d, ds, hds, hd⟩ := Digits.toDigits_eq_cons n.toNat
    have hsign : number? (Nat.toDigits 10 n.toNat ++ rest)
        = unsigned? false (Nat.toDigits 10 n.toNat ++ rest) := by
      have hne : d ≠ '-' := by rintro rfl; simp at hd
      rw [hds, List.cons_append]
      simp [number?, hne]
    rw [hsign, unsigned?_toDigits (by simp) h]
    simp [Int.toNat_of_nonneg hn]
  · rw [List.cons_append, number?, unsigned?_toDigits (by omega) h]
    simp only [if_true]
    rw [Int.toNat_of_nonneg (by omega), Int.neg_neg]

/-! ### The texts of values -/

@[simp] theorem chars_str (s : String) : (Json.str s).chars = quote s := rfl

@[simp] theorem chars_arr (items : List Json) :
    (Json.arr items).chars = '[' :: (itemChars items ++ [']']) := rfl

@[simp] theorem chars_obj (fields : List (String × Json)) :
    (Json.obj fields).chars = '{' :: (fieldChars fields ++ ['}']) := rfl

@[simp] theorem itemChars_singleton (v : Json) : itemChars [v] = v.chars := rfl

@[simp] theorem itemChars_cons_cons (v w : Json) (vs : List Json) :
    itemChars (v :: w :: vs) = v.chars ++ ',' :: itemChars (w :: vs) := rfl

@[simp] theorem fieldChars_singleton (f : String × Json) :
    fieldChars [f] = quote f.1 ++ ':' :: f.2.chars := rfl

@[simp] theorem fieldChars_cons_cons (f g : String × Json) (fs : List (String × Json)) :
    fieldChars (f :: g :: fs) = quote f.1 ++ ':' :: (f.2.chars ++ ',' :: fieldChars (g :: fs)) := by
  rw [← List.cons_append, ← List.append_assoc]
  rfl

/-- A value without `real` and `unpaired`. -/
inductive Plain : Json → Prop where
  | null : Plain .null
  | bool (b : Bool) : Plain (.bool b)
  | int (n : Int) : Plain (.int n)
  | str (s : String) : Plain (.str s)
  | arr {items : List Json} (h : ∀ v ∈ items, Plain v) : Plain (.arr items)
  | obj {fields : List (String × Json)} (h : ∀ f ∈ fields, Plain f.2) : Plain (.obj fields)

/-- The text starts with neither a blank nor a closing bracket. -/
def Opens (cs : List Char) : Prop :=
  ∃ c ds, cs = c :: ds ∧ isBlank c = false ∧ c ≠ ']' ∧ c ≠ '}'

theorem Opens.append {cs : List Char} (h : Opens cs) (ds : List Char) : Opens (cs ++ ds) := by
  obtain ⟨c, cs, rfl, hc⟩ := h
  exact ⟨c, cs ++ ds, rfl, hc⟩

theorem skipBlanks_cons {c : Char} (hc : isBlank c = false) (cs : List Char) :
    skipBlanks (c :: cs) = c :: cs := by
  simp [skipBlanks, hc]

theorem Opens.skipBlanks {cs : List Char} (h : Opens cs) : skipBlanks cs = cs := by
  obtain ⟨c, cs, rfl, hc, -⟩ := h
  exact skipBlanks_cons hc cs

theorem quote_opens (s : String) : Opens (quote s) :=
  ⟨'"', s.toList.flatMap escapeChar ++ ['"'], rfl, rfl, by decide, by decide⟩

theorem toString_opens (n : Int) : Opens (toString n).toList := by
  obtain ⟨c, cs, hcs, hc⟩ := toString_starts n
  refine ⟨c, cs, hcs, ?_, ?_⟩
  · by_contra hblank
    simp only [isBlank, Bool.not_eq_false, Bool.or_eq_true, beq_iff_eq] at hblank
    rcases hblank with ((rfl | rfl) | rfl) | rfl <;> simp [StartsNumber] at hc
  · constructor <;> rintro rfl <;> simp [StartsNumber] at hc

theorem Plain.opens {v : Json} (h : v.Plain) : Opens v.chars := by
  cases h with
  | null => exact ⟨'n', _, rfl, rfl, by decide, by decide⟩
  | bool b => cases b <;> exact ⟨_, _, rfl, rfl, by decide, by decide⟩
  | int n => exact toString_opens n
  | str s => exact quote_opens s
  | arr _ => exact ⟨'[', _, chars_arr _, rfl, by decide, by decide⟩
  | obj _ => exact ⟨'{', _, chars_obj _, rfl, by decide, by decide⟩

theorem itemChars_opens {v : Json} {vs : List Json} (h : Opens v.chars) : Opens (itemChars (v :: vs)) := by
  cases vs with
  | nil => exact h
  | cons w vs => exact h.append _

theorem fieldChars_opens (f : String × Json) (fs : List (String × Json)) :
    Opens (fieldChars (f :: fs)) := by
  cases fs with
  | nil => exact (quote_opens f.1).append _
  | cons g fs =>
    rw [fieldChars_cons_cons]
    exact (quote_opens f.1).append _

/-! ### Reading values -/

/-- The value is read off the front of any text that starts with its own. -/
def ReadsBack (v : Json) : Prop :=
  ∀ fuel rest, Ends rest → 2 * v.chars.length ≤ fuel → value? fuel (v.chars ++ rest) = some (v, rest)

theorem ends_cons {c : Char} (hc : c = ',' ∨ c = ']' ∨ c = '}') (cs : List Char) : Ends (c :: cs) := by
  rintro _ ⟨⟩
  rcases hc with rfl | rfl | rfl <;> decide

section Reader

attribute [local simp] value?

/-- The members of an array are read off up to its bracket. -/
theorem items?_itemChars (rest : List Char) : ∀ {v : Json} {vs : List Json},
    (∀ x ∈ v :: vs, x.ReadsBack ∧ Opens x.chars) → ∀ fuel,
    2 * (itemChars (v :: vs)).length < fuel →
    items? fuel (itemChars (v :: vs) ++ ']' :: rest) = some (v :: vs, rest)
  | _, _, _, 0, hfuel => by omega
  | v, [], h, fuel + 1, hfuel => by
    rw [itemChars_singleton] at hfuel ⊢
    have hv : value? fuel (v.chars ++ ']' :: rest) = some (v, ']' :: rest) :=
      (h v List.mem_cons_self).1 fuel _ (ends_cons (by simp) rest) (by omega)
    have hskip : skipBlanks (']' :: rest) = ']' :: rest := rfl
    rw [items?]
    simp only [hv, hskip]
  | v, w :: vs, h, fuel + 1, hfuel => by
    rw [itemChars_cons_cons, List.length_append, List.length_cons] at hfuel
    have hopens : Opens (itemChars (w :: vs) ++ ']' :: rest) :=
      (itemChars_opens (h w (by simp)).2).append _
    have hv : value? fuel (v.chars ++ ',' :: (itemChars (w :: vs) ++ ']' :: rest))
        = some (v, ',' :: (itemChars (w :: vs) ++ ']' :: rest)) :=
      (h v List.mem_cons_self).1 fuel _ (ends_cons (by simp) _) (by omega)
    have hvs : items? fuel (itemChars (w :: vs) ++ ']' :: rest) = some (w :: vs, rest) :=
      items?_itemChars rest (fun x hx => h x (List.mem_cons_of_mem v hx)) fuel (by omega)
    have hskip (cs : List Char) : skipBlanks (',' :: cs) = ',' :: cs := rfl
    rw [items?]
    simp only [itemChars_cons_cons, List.append_assoc, List.cons_append, hv, hskip, hopens.skipBlanks,
      hvs, Option.map_some]

section Fields

variable {f : String × Json} {fuel : Nat}

/-- A field before a brace is the last one. -/
theorem fields?_last (hf : f.2.ReadsBack ∧ Opens f.2.chars) (hfuel : 2 * f.2.chars.length ≤ fuel)
    (rest : List Char) :
    fields? (fuel + 1) (quote f.1 ++ ':' :: (f.2.chars ++ '}' :: rest)) =
      some ([(some f.1, f.2)], rest) := by
  obtain ⟨cs, hcs, hkey⟩ := string?_quote f.1 (':' :: (f.2.chars ++ '}' :: rest))
  have hcolon (cs : List Char) : skipBlanks (':' :: cs) = ':' :: cs := rfl
  have hclose : skipBlanks ('}' :: rest) = '}' :: rest := rfl
  have hvalue := hf.1 fuel ('}' :: rest) (ends_cons (by simp) rest) hfuel
  rw [hcs, fields?]
  simp only [hkey, hcolon, (hf.2.append _).skipBlanks, hvalue, hclose]

/-- After a field and a comma there are more. -/
theorem fields?_more (hf : f.2.ReadsBack ∧ Opens f.2.chars) (hfuel : 2 * f.2.chars.length ≤ fuel)
    {ds : List Char} (hds : Opens ds) {fs : List (Option String × Json)} {rest : List Char}
    (hfs : fields? fuel ds = some (fs, rest)) :
    fields? (fuel + 1) (quote f.1 ++ ':' :: (f.2.chars ++ ',' :: ds)) =
      some ((some f.1, f.2) :: fs, rest) := by
  obtain ⟨cs, hcs, hkey⟩ := string?_quote f.1 (':' :: (f.2.chars ++ ',' :: ds))
  have hcolon (cs : List Char) : skipBlanks (':' :: cs) = ':' :: cs := rfl
  have hcomma : skipBlanks (',' :: ds) = ',' :: ds := rfl
  have hvalue := hf.1 fuel (',' :: ds) (ends_cons (by simp) ds) hfuel
  rw [hcs, fields?]
  simp only [hkey, hcolon, (hf.2.append _).skipBlanks, hvalue, hcomma, hds.skipBlanks, hfs,
    Option.map_some]

end Fields

/-- The fields of an object are read off up to its brace. -/
theorem fields?_fieldChars (rest : List Char) : ∀ {f : String × Json} {fs : List (String × Json)},
    (∀ x ∈ f :: fs, x.2.ReadsBack ∧ Opens x.2.chars) → ∀ fuel,
    2 * (fieldChars (f :: fs)).length < fuel →
    fields? fuel (fieldChars (f :: fs) ++ '}' :: rest) =
      some ((f :: fs).map fun x => (some x.1, x.2), rest)
  | _, _, _, 0, hfuel => by omega
  | f, [], h, fuel + 1, hfuel => by
    rw [fieldChars_singleton] at hfuel ⊢
    rw [List.length_append, List.length_cons] at hfuel
    rw [List.append_assoc, List.cons_append]
    exact fields?_last (h f List.mem_cons_self) (by omega) rest
  | f, g :: fs, h, fuel + 1, hfuel => by
    rw [fieldChars_cons_cons] at hfuel ⊢
    simp only [List.length_append, List.length_cons] at hfuel
    have hnext : Opens (fieldChars (g :: fs) ++ '}' :: rest) := (fieldChars_opens g fs).append _
    have hfs := fields?_fieldChars rest (fun x hx => h x (List.mem_cons_of_mem f hx)) fuel (by omega)
    rw [List.append_assoc, List.cons_append, List.append_assoc, List.cons_append]
    exact fields?_more (h f List.mem_cons_self) (by omega) hnext hfs

theorem keyed?_some : ∀ fs : List (String × Json), keyed? (fs.map fun f => (some f.1, f.2)) = some fs
  | [] => rfl
  | f :: fs => by simp [keyed?, keyed?_some fs]

theorem value?_number {c : Char} (hc : StartsNumber c) (fuel : Nat) (cs : List Char) :
    value? (fuel + 1) (c :: cs) = number? (c :: cs) := by
  -- every other kind of value starts with a character of its own
  rw [value?] <;> rintro rest ⟨⟩ <;> simp [StartsNumber] at hc

theorem value?_array {cs : List Char} (h : Opens cs) (fuel : Nat) :
    value? (fuel + 1) ('[' :: cs) = (items? fuel cs).map fun (vs, rest) => (.arr vs, rest) := by
  obtain ⟨c, ds, rfl, hblank, hc, -⟩ := h
  simp [skipBlanks_cons hblank, hc]

theorem value?_object {cs : List Char} (h : Opens cs) (fuel : Nat) :
    value? (fuel + 1) ('{' :: cs) = (fields? fuel cs).map fun (fs, rest) => (ofFields fs, rest) := by
  obtain ⟨c, ds, rfl, hblank, -, hc⟩ := h
  simp [skipBlanks_cons hblank, hc]

end Reader

theorem readsBack_arr {items : List Json} (h : ∀ v ∈ items, v.ReadsBack ∧ Opens v.chars) :
    ReadsBack (.arr items) := by
  rintro (_ | fuel) rest - hfuel
  · simp at hfuel
  rw [chars_arr, List.length_cons, List.length_append] at hfuel
  rw [chars_arr, List.cons_append, List.append_assoc, List.singleton_append]
  cases items with
  | nil => rfl
  | cons v vs =>
    have hopens : Opens (itemChars (v :: vs) ++ ']' :: rest) :=
      (itemChars_opens (h v List.mem_cons_self).2).append _
    rw [value?_array hopens, items?_itemChars rest h fuel (by omega)]
    rfl

theorem readsBack_obj {fields : List (String × Json)}
    (h : ∀ f ∈ fields, f.2.ReadsBack ∧ Opens f.2.chars) : ReadsBack (.obj fields) := by
  rintro (_ | fuel) rest - hfuel
  · simp at hfuel
  rw [chars_obj, List.length_cons, List.length_append] at hfuel
  rw [chars_obj, List.cons_append, List.append_assoc, List.singleton_append]
  cases fields with
  | nil => rfl
  | cons f fs =>
    have hopens := (fieldChars_opens f fs).append ('}' :: rest)
    rw [value?_object hopens, fields?_fieldChars rest h fuel (by omega)]
    simp only [Option.map_some, ofFields, keyed?_some]

/-- **Plain values read back.** -/
theorem Plain.readsBack {v : Json} (h : v.Plain) : v.ReadsBack := by
  induction h with
  | null =>
    rintro (_ | fuel) rest - hfuel
    · exact absurd hfuel (by decide)
    · rfl
  | bool b =>
    rintro (_ | fuel) rest - hfuel
    · cases b <;> exact absurd hfuel (by decide)
    · cases b <;> rfl
  | int n =>
    obtain ⟨c, cs, hcs, hc⟩ := toString_starts n
    have hchars : (Json.int n).chars = c :: cs := hcs
    rintro (_ | fuel) rest hrest hfuel
    · simp [hchars] at hfuel
    · have hread := number?_toString n hrest
      rw [hcs] at hread
      rw [hchars, List.cons_append, value?_number hc]
      exact hread
  | str s =>
    rintro (_ | fuel) rest - hfuel
    · simp [quote] at hfuel
    · obtain ⟨cs, hcs, hread⟩ := string?_quote s rest
      rw [chars_str, hcs, value?, hread]
      rfl
  | arr hplain ih => exact readsBack_arr fun v hv => ⟨ih v hv, (hplain v hv).opens⟩
  | obj hplain ih => exact readsBack_obj fun f hf => ⟨ih f hf, (hplain f hf).opens⟩

/-- **The text of a plain value denotes it.** -/
theorem read?_render {v : Json} (h : v.Plain) : read? v.render = some v := by
  have hskip : skipBlanks v.chars = v.chars := h.opens.skipBlanks
  have hread : value? (2 * v.chars.length + 2) (v.chars ++ []) = some (v, []) :=
    h.readsBack _ [] (by simp [Ends]) (by omega)
  rw [List.append_nil] at hread
  have hend : skipBlanks [] = [] := rfl
  simp [read?, render, hskip, hread, hend]

end Json
end FlowSelect
