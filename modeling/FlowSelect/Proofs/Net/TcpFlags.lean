/-
# Words of TCP flags

A word of flag letters stands for the set of its letters: neither their order nor their case nor how
often one of them is written makes a difference (`TcpFlags.SameLetters.parse_eq`). The mask of the word has
the bits of these flags, and no others (`TcpFlags.testBit_parse`).

A column of flags is compared with a word through the mask. All flags of the word are set in an integer
if the mask takes nothing away from itself, `x & mask == mask`, which is a statement about single bits of
the integer in two's complement, below zero as well (`Bits.land_eq_iff`). So `==` asks for a part with
all flags of the word, and `!=` for a part with one of them clear (`flag_words_test_bits`).

Key definitions: `TcpFlags.letters`, `TcpFlags.Denotes`, `TcpFlags.Names`, `TcpFlags.IsWord`,
`TcpFlags.SameLetters`.
Key theorems: `TcpFlags.addLetters_bits`, `TcpFlags.testBit_parse`, `TcpFlags.SameLetters.parse_eq`,
`Side.compare_flags_accepts_iff`, `flag_words_test_bits`.
-/
import FlowSelect.Proofs.Compile.IntegerMeaning
import FlowSelect.Proofs.Text.Characters

namespace FlowSelect

/-! ### Letters -/

namespace TcpFlags

/-- The letters of the flags, that of the lowest bit first. -/
def letters : List Char := ['F', 'S', 'R', 'P', 'A', 'U', 'E', 'C']

/-- The character is the letter of the flag with this bit, in either letter case. -/
def Denotes (c : Char) (i : Nat) : Prop := ∃ letter ∈ letters[i]?, c = letter ∨ c = letter.toLower

/-- The word holds the letter of the flag with this bit. -/
def Names (word : String) (i : Nat) : Prop := ∃ c ∈ word.toList, Denotes c i

/-- At least one character, and only letters of flags. -/
def IsWord (word : String) : Prop := word ≠ "" ∧ ∀ c ∈ word.toList, ∃ i, Denotes c i

/-- The words have the same set of letters, their case apart. -/
def SameLetters (word other : String) : Prop :=
  ∀ c, c ∈ word.toList.map Char.toUpper ↔ c ∈ other.toList.map Char.toUpper

theorem denotes_iff {c : Char} {i : Nat} : Denotes c i ↔ letters[i]? = some c.toUpper := by
  have hcases : ∀ i (_ : i < letters.length), letters[i].toUpper = letters[i] ∧
      letters[i].toLower.toUpper = letters[i] ∧
      Char.ofNat (letters[i].toNat + 32) = letters[i].toLower := by decide
  unfold Denotes
  constructor
  · rintro ⟨letter, hi, hc⟩
    obtain ⟨hlt, rfl⟩ := List.getElem?_eq_some_iff.mp hi
    rcases hc with rfl | rfl
    · rw [(hcases i hlt).1]
      exact hi
    · rw [(hcases i hlt).2.1]
      exact hi
  · intro hi
    refine ⟨c.toUpper, hi, ?_⟩
    obtain ⟨hlt, hletter⟩ := List.getElem?_eq_some_iff.mp hi
    rcases Text.toUpper_cases c with hsame | hmoved
    · exact .inl hsame.symm
    · right
      rw [← hletter, ← (hcases i hlt).2.2, hletter, hmoved, Char.ofNat_toNat]

theorem upperBit?_eq_some_iff {u : Char} {bit : BitVec 8} :
    upperBit? u = some bit ↔ ∃ i < 8, letters[i]? = some u ∧ bit = BitVec.twoPow 8 i := by
  constructor
  · intro h
    unfold upperBit? at h
    split at h
    case h_9 => cases h
    all_goals
      obtain rfl := Option.some.inj h
      decide
  · rintro ⟨i, -, hi, rfl⟩
    have hall : ∀ i (_ : i < letters.length), upperBit? letters[i] = some (BitVec.twoPow 8 i) := by
      decide
    obtain ⟨hlt, rfl⟩ := List.getElem?_eq_some_iff.mp hi
    exact hall i hlt

theorem Denotes.lt {c : Char} {i : Nat} (h : Denotes c i) : i < 8 := by
  rw [denotes_iff] at h
  exact (List.getElem?_eq_some_iff.mp h).1

theorem Denotes.inj {c : Char} {i j : Nat} (hi : Denotes c i) (hj : Denotes c j) : i = j := by
  have hlt := hi.lt
  rw [denotes_iff] at hi hj
  exact (List.getElem?_inj (l := letters) hlt (by decide)).mp (hi.trans hj.symm)

theorem bit?_eq_some_iff {c : Char} {bit : BitVec 8} :
    bit? c = some bit ↔ ∃ i, Denotes c i ∧ bit = BitVec.twoPow 8 i := by
  rw [bit?, upperBit?_eq_some_iff]
  simp only [← denotes_iff]
  constructor
  · rintro ⟨i, -, hi, hbit⟩
    exact ⟨i, hi, hbit⟩
  · rintro ⟨i, hi, hbit⟩
    exact ⟨i, hi.lt, hi, hbit⟩

theorem bit?_eq_none_iff {c : Char} : bit? c = none ↔ ¬∃ i, Denotes c i := by
  simp only [Option.eq_none_iff_forall_ne_some, ne_eq, bit?_eq_some_iff]
  constructor
  · rintro hnone ⟨i, hi⟩
    exact hnone _ ⟨i, hi, rfl⟩
  · rintro hnone bit ⟨i, hi, -⟩
    exact hnone ⟨i, hi⟩

/-! ### Masks -/

attribute [local simp] addLetters

/-- Letters are added as long as each is one of a flag. -/
theorem exists_addLetters_iff : ∀ {cs : List Char} {before : BitVec 8},
    (∃ m, addLetters before cs = .ok m) ↔ ∀ c ∈ cs, ∃ i, Denotes c i
  | [], before => by simp
  | c :: cs, before => by
    rw [List.forall_mem_cons, addLetters]
    cases hbit : bit? c with
    | none =>
      rw [bit?_eq_none_iff] at hbit
      simp [hbit]
    | some bit =>
      rw [bit?_eq_some_iff] at hbit
      obtain ⟨i, hi, -⟩ := hbit
      have hletter : ∃ i, Denotes c i := ⟨i, hi⟩
      simp only [hletter, true_and]
      exact exists_addLetters_iff

/-- **Adding letters adds the bits of their flags**, and a bit that is there already stays. -/
theorem addLetters_bits : ∀ {cs : List Char} {before m : BitVec 8}, addLetters before cs = .ok m →
    ∀ i, m.getLsbD i = true ↔ before.getLsbD i = true ∨ ∃ c ∈ cs, Denotes c i
  | [], before, m, h, i => by
    obtain rfl : before = m := by simpa using h
    simp
  | c :: cs, before, m, h, i => by
    cases hbit : bit? c with
    | none => simp [hbit] at h
    | some bit =>
      have hrest := addLetters_bits (by simpa [hbit] using h) i
      rw [bit?_eq_some_iff] at hbit
      obtain ⟨j, hj, rfl⟩ := hbit
      have hlt := hj.lt
      have hone : Denotes c i ↔ j = i := ⟨fun hi => hj.inj hi, fun h => h ▸ hj⟩
      rw [hrest, BitVec.getLsbD_or, BitVec.getLsbD_twoPow]
      simp [hlt, hone, or_assoc]

/-- What is read is the mask, and eight bits fit into 64. -/
theorem parse_eq_ok_iff {word : String} {n : Int64} :
    parse word = .ok n ↔ word ≠ "" ∧ ∃ m, addLetters 0 word.toList = .ok m ∧ n.toInt = m.toNat := by
  have hempty : word.toList.isEmpty = true ↔ word = "" := by simp
  unfold parse mask
  by_cases hword : word = ""
  · simp [hword]
  · rw [if_neg (hempty.not.mpr hword)]
    cases addLetters 0 word.toList with
    | error reason => simp
    | ok m =>
      have hlt := m.isLt
      have hint : (Int64.ofNat m.toNat).toInt = m.toNat := Int64.toInt_ofNat_of_lt (by omega)
      simp [hword, ← Int64.toInt_inj, hint, eq_comm]

theorem exists_parse_iff {word : String} : (∃ n, parse word = .ok n) ↔ IsWord word := by
  unfold IsWord
  rw [← @exists_addLetters_iff word.toList 0]
  simp only [parse_eq_ok_iff]
  constructor
  · rintro ⟨n, hword, m, hm, -⟩
    exact ⟨hword, m, hm⟩
  · rintro ⟨hword, m, hm⟩
    have hlt := m.isLt
    exact ⟨Int64.ofNat m.toNat, hword, m, hm, Int64.toInt_ofNat_of_lt (by omega)⟩

/-- **The bits of what is read are those of the flags that the word names.** -/
theorem testBit_parse {word : String} {n : Int64} (h : parse word = .ok n) (i : Nat) :
    n.toInt.testBit i = true ↔ Names word i := by
  rw [parse_eq_ok_iff] at h
  obtain ⟨-, m, hm, hn⟩ := h
  have hbits := addLetters_bits hm i
  rw [hn]
  show m.toNat.testBit i = true ↔ _
  rw [BitVec.testBit_toNat, hbits]
  simp [Names]

variable {word other : String}

theorem SameLetters.symm (h : SameLetters word other) : SameLetters other word := fun c => (h c).symm

theorem SameLetters.exists_letter (h : SameLetters word other) {c : Char} (hc : c ∈ word.toList) :
    ∃ d ∈ other.toList, ∀ i, Denotes c i ↔ Denotes d i := by
  obtain ⟨d, hd, hupper⟩ := List.mem_map.mp ((h c.toUpper).mp (List.mem_map_of_mem hc))
  refine ⟨d, hd, fun i => ?_⟩
  rw [denotes_iff, denotes_iff, hupper]

theorem SameLetters.names (h : SameLetters word other) {i : Nat} (hi : Names word i) : Names other i := by
  obtain ⟨c, hc, hletter⟩ := hi
  obtain ⟨d, hd, hsame⟩ := h.exists_letter hc
  exact ⟨d, hd, (hsame i).mp hletter⟩

theorem SameLetters.isWord (h : SameLetters word other) (hword : IsWord word) : IsWord other := by
  obtain ⟨hne, hletters⟩ := hword
  constructor
  · rintro rfl
    have hnone : word.toList = [] := by
      rw [List.eq_nil_iff_forall_not_mem]
      intro c hc
      obtain ⟨d, hd, -⟩ := h.exists_letter hc
      simp at hd
    exact hne (by simpa using hnone)
  · intro d hd
    obtain ⟨c, hc, hsame⟩ := h.symm.exists_letter hd
    obtain ⟨i, hi⟩ := hletters c hc
    exact ⟨i, (hsame i).mpr hi⟩

/-- **Only the set of its letters counts for a word.** -/
theorem SameLetters.parse_eq (h : SameLetters word other) {n : Int64} (hn : parse word = .ok n) :
    parse other = .ok n := by
  have hword : ∃ n, parse word = .ok n := ⟨n, hn⟩
  have hother : ∃ m, parse other = .ok m := by
    rw [exists_parse_iff] at hword ⊢
    exact h.isWord hword
  obtain ⟨m, hm⟩ := hother
  have hbits : ∀ i, m.toInt.testBit i = n.toInt.testBit i := by
    intro i
    rw [Bool.eq_iff_iff, testBit_parse hm, testBit_parse hn]
    exact ⟨h.symm.names, h.names⟩
  rw [hm, Int64.toInt_inj.mp (Bits.eq_of_testBit_eq hbits)]

end TcpFlags

/-! ### Columns of flags -/

/-- A mask takes nothing away from itself if the other integer has all its bits. -/
theorem Bits.land_eq_iff {x y : Int} : x.land y = y ↔ ∀ i, y.testBit i = true → x.testBit i = true := by
  constructor
  · intro h i hi
    rw [← h, Int.testBit_land, Bool.and_eq_true] at hi
    exact hi.1
  · intro h
    refine eq_of_testBit_eq fun i => ?_
    rw [Int.testBit_land]
    cases hi : y.testBit i with
    | false => simp
    | true => simp [h i hi]

section Columns

variable {c : Column} {word : String} {r : Relation} {m : Int64}

/-- A column of flags is compared with a word through the mask of the word. -/
theorem Side.compare_flags (hc : c.semantics = some .flags) (hr : r.isOrdering = false)
    (hm : TcpFlags.parse word = .ok m) :
    (Side.column c).compare r (.literal (.word word)) =
      ((Side.masked (.column c) .and m).target c).compareParts r (.int m) := by
  have htarget : (Target.mk c false none).compareLiteral r (.word word) =
      ((Side.masked (.column c) .and m).target c).compareParts r (.int m) := by
    simp [Target.compareLiteral, Target.compareWord, hc, Target.compareFlags, hr, hm, target, isAggregate,
      operator?]
  rw [← htarget]
  unfold compare broadcast targets compileAll targetCompare
  cases h : (Target.mk c false none).compareLiteral r (.word word) <;>
    simp [compileEach, h, Formula.disjoin?]

theorem Side.exists_compare_flags_iff (hc : c.semantics = some .flags) (hr : r.isOrdering = false)
    (hword : TcpFlags.IsWord word) :
    (∃ p, (Side.column c).compare r (.literal (.word word)) = .ok p) ↔ c.parts ≠ [] := by
  rw [← TcpFlags.exists_parse_iff] at hword
  obtain ⟨m, hm⟩ := hword
  rw [compare_flags hc hr hm]
  exact (Target.exists_compareParts_iff _ r _).1

/-- **The comparison with a word looks at what the mask leaves of an integer.** -/
theorem Side.compare_flags_accepts_iff (hc : c.semantics = some .flags) (hr : r.isOrdering = false)
    (hm : TcpFlags.parse word = .ok m) {p : Predicate}
    (hp : (Side.column c).compare r (.literal (.word word)) = .ok p) (row : Row) :
    p.accepts row = true ↔
      ∃ part ∈ c.parts, ∃ x, row.Stores part x ∧ r.Between (x.land m.toInt) m.toInt := by
  have hvalue : ∀ part y,
      (((Side.masked (.column c) .and m).target c).operand part).value? row = some (.int y) ↔
        ∃ x, row.Stores part x ∧ x.land m.toInt = y := by
    intro part y
    rw [operand_integer_iff]
    simp [cell?, isAggregate, applied?, operator?, BitOperator.onIntegers?, Row.Stores]
  rw [compare_flags hc hr hm] at hp
  rw [Target.compareParts_accepts_iff rfl hp row]
  refine exists_congr fun part => and_congr_right fun _ => ?_
  constructor
  · rintro ⟨y, hy, hbetween⟩
    obtain ⟨x, hx, rfl⟩ := (hvalue part y).mp hy
    exact ⟨x, hx, hbetween⟩
  · rintro ⟨x, hx, hbetween⟩
    exact ⟨_, (hvalue part _).mpr ⟨x, hx, rfl⟩, hbetween⟩

end Columns

/-- **Words of flags.** A word is read exactly if it has a letter and only letters of flags, and what is
read depends on nothing but the set of its letters. A column of flags compiles with such a word if it has a
part, as the columns of a valid schema do. Then `==` accepts a row exactly if some part holds an integer in
which the bits of all flags of the word are set, and `!=` if some part holds an integer in which one of
them is clear. -/
theorem flag_words_test_bits (word : String) :
    ((∃ m, TcpFlags.parse word = .ok m) ↔ TcpFlags.IsWord word) ∧
    (∀ other, TcpFlags.SameLetters word other →
      ∀ m, TcpFlags.parse word = .ok m ↔ TcpFlags.parse other = .ok m) ∧
    ∀ c : Column, c.semantics = some .flags → TcpFlags.IsWord word →
      (∀ r ∈ [Relation.eq, .ne],
        (∃ p, (Side.column c).compare r (.literal (.word word)) = .ok p) ↔ c.parts ≠ []) ∧
      (∀ p, (Side.column c).compare .eq (.literal (.word word)) = .ok p → ∀ row : Row,
        (p.accepts row = true ↔
          ∃ part ∈ c.parts, ∃ x, row.Stores part x ∧
            ∀ i, TcpFlags.Names word i → x.testBit i = true)) ∧
      ∀ p, (Side.column c).compare .ne (.literal (.word word)) = .ok p → ∀ row : Row,
        (p.accepts row = true ↔
          ∃ part ∈ c.parts, ∃ x, row.Stores part x ∧
            ∃ i, TcpFlags.Names word i ∧ x.testBit i = false) := by
  refine ⟨TcpFlags.exists_parse_iff, fun other h m => ⟨h.parse_eq, h.symm.parse_eq⟩, ?_⟩
  intro c hc hword
  obtain ⟨m, hm⟩ := TcpFlags.exists_parse_iff.mpr hword
  have hset : ∀ x : Int, x.land m.toInt = m.toInt ↔ ∀ i, TcpFlags.Names word i → x.testBit i = true := by
    intro x
    rw [Bits.land_eq_iff]
    simp only [TcpFlags.testBit_parse hm]
  refine ⟨?_, ?_, ?_⟩
  · intro r hr
    have hordering : r.isOrdering = false := by
      rcases List.mem_pair.mp hr with rfl | rfl <;> rfl
    exact Side.exists_compare_flags_iff hc hordering hword
  · intro p hp row
    rw [Side.compare_flags_accepts_iff hc rfl hm hp row]
    simp only [Relation.Between, hset]
  · intro p hp row
    rw [Side.compare_flags_accepts_iff hc rfl hm hp row]
    simp only [Relation.Between, ne_eq, hset]
    push Not
    simp only [Bool.not_eq_true]

/-- Letters in both cases and one of them twice. Below zero all bits to the left are set. In the other row
the first part is a text, and the second has bits to the left of the flags but not that of `S`. -/
theorem flag_words_test_bits_two_parts :
    let c : Column := ⟨"%flg", ["e0id6", "e0id7"], some .number, some .flags, none⟩
    let set : Row := ⟨[("e0id6", .int 0x10), ("e0id7", .int (-1))]⟩
    let clear : Row := ⟨[("e0id6", .text "SA"), ("e0id7", .uint 0xfffffffffffffffd)]⟩
    c.semantics = some .flags ∧ TcpFlags.IsWord "sAs" ∧ TcpFlags.SameLetters "sAs" "AS" ∧
      TcpFlags.parse "AS" = .ok 0x12 ∧
      ∃ p q, (Side.column c).compare .eq (.literal (.word "sAs")) = .ok p ∧
        (Side.column c).compare .ne (.literal (.word "sAs")) = .ok q ∧
        p.accepts set = true ∧ p.accepts clear = false ∧ q.accepts set = true ∧ q.accepts clear = true := by
  intro c set clear
  obtain ⟨hparse, hsame, hcolumns⟩ := flag_words_test_bits "sAs"
  have hmask : TcpFlags.parse "sAs" = .ok 0x12 := by decide
  have hword : TcpFlags.IsWord "sAs" := hparse.mp ⟨0x12, hmask⟩
  have hletters : TcpFlags.SameLetters "sAs" "AS" := by
    intro x
    have hfirst : "sAs".toList.map Char.toUpper = ['S', 'A', 'S'] := by decide
    have hsecond : "AS".toList.map Char.toUpper = ['A', 'S'] := by decide
    rw [hfirst, hsecond]
    simp only [List.mem_cons, List.not_mem_nil, or_false]
    constructor
    · rintro (h | h | h)
      exacts [.inr h, .inl h, .inr h]
    · rintro (h | h)
      exacts [.inr (.inl h), .inl h]
  have hnamed : TcpFlags.Names "sAs" 1 := ⟨'s', by decide, 'S', rfl, .inr (by decide)⟩
  obtain ⟨hcompiles, heq, hne⟩ := hcolumns c rfl hword
  obtain ⟨p, hp⟩ := (hcompiles .eq (by decide)).mpr (by decide)
  obtain ⟨q, hq⟩ := (hcompiles .ne (by decide)).mpr (by decide)
  refine ⟨rfl, hword, hletters, (hsame _ hletters _).mp hmask, p, q, hp, hq, ?_, ?_, ?_, ?_⟩
  · refine (heq p hp set).mpr ⟨"e0id7", by decide, -1, by decide, fun i _ => ?_⟩
    show (!Nat.testBit 0 i) = true
    rw [Nat.zero_testBit, Bool.not_false]
  · rw [← Bool.not_eq_true, heq p hp clear]
    rintro ⟨part, hpart, x, hx, hbits⟩
    rcases List.mem_pair.mp hpart with rfl | rfl
    · have htext : (clear.get? "e0id6").bind Cell.integer? = none := by decide
      rw [Row.Stores, htext] at hx
      cases hx
    · have hstored : clear.Stores "e0id7" 0xfffffffffffffffd := by decide
      obtain rfl : 0xfffffffffffffffd = x := Option.some.inj (hstored.symm.trans hx)
      exact absurd (hbits 1 hnamed) (by decide)
  · exact (hne q hq set).mpr ⟨"e0id6", by decide, 0x10, by decide, 1, hnamed, by decide⟩
  · exact (hne q hq clear).mpr
      ⟨"e0id7", by decide, 0xfffffffffffffffd, by decide, 1, hnamed, by decide⟩

end FlowSelect
