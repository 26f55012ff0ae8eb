/-
# The texts of IPv4 addresses

An IPv4 address is written as four numbers of at most 255 with dots between them, the highest first. A
number may have any number of zeros in front, so its digits are no bound on its length; what counts is
their value. These texts are read and no others, and what is read is the number with the four as digits
in base 256 (`Ip4.read_eq_ok_iff`). Each address is read back from its text without needless zeros.

Key definitions: `Ip4.WritesOctet`, `Ip4.WritesQuad`, `Ip4.dotted`.
Key theorems: `Text.splitAt_joined`, `Ip4.octets_eq_ok_iff`, `Ip4.read_eq_ok_iff`,
`ip4_addresses_are_dotted_quads`.
-/
import FlowSelect.Proofs.Text.Literals

namespace FlowSelect

/-! ### Groups between separators -/

namespace Text

variable {separator : Char}

theorem splitAt_append_cons : ∀ {g : List Char}, separator ∉ g → ∀ cs : List Char,
    splitAt separator (g ++ separator :: cs) = g :: splitAt separator cs
  | [], _, cs => by rw [List.nil_append, splitAt, if_pos rfl]
  | c :: g, hg, cs => by
    have hc : c ≠ separator := fun h => hg (h ▸ List.mem_cons_self)
    have hrest : separator ∉ g := fun h => hg (List.mem_cons_of_mem c h)
    rw [List.cons_append, splitAt, if_neg hc, splitAt_append_cons hrest cs]

theorem splitAt_of_not_mem : ∀ {g : List Char}, separator ∉ g → splitAt separator g = [g]
  | [], _ => rfl
  | c :: g, hg => by
    have hc : c ≠ separator := fun h => hg (h ▸ List.mem_cons_self)
    have hrest : separator ∉ g := fun h => hg (List.mem_cons_of_mem c h)
    rw [splitAt, if_neg hc, splitAt_of_not_mem hrest]

/-- **Groups that do not hold the separator are found again between separators.** -/
theorem splitAt_joined : ∀ {gs : List (List Char)} {g : List Char}, (∀ x ∈ g :: gs, separator ∉ x) →
    splitAt separator (g ++ gs.flatMap (separator :: ·)) = g :: gs
  | [], g, h => by
    rw [List.flatMap_nil, List.append_nil]
    exact splitAt_of_not_mem (h g List.mem_cons_self)
  | g' :: gs, g, h => by
    have hrest := splitAt_joined fun x hx => h x (List.mem_cons_of_mem g hx)
    rw [List.flatMap_cons, List.cons_append, splitAt_append_cons (h g List.mem_cons_self), hrest]

end Text

namespace Ip4

/-! ### Octets -/

/-- The characters are digits of a number of at most 255. -/
def WritesOctet (cs : List Char) (n : Nat) : Prop := Numeral.WritesDecimal cs n ∧ n ≤ 255

variable {cs : List Char} {n : Nat}

theorem octet_eq_ok_iff : octet cs = .ok n ↔ WritesOctet cs n := by
  unfold WritesOctet octet
  rw [Numeral.writesDecimal_iff]
  by_cases hrun : Digits.isRun cs = true
  · rw [if_pos hrun]
    by_cases hmost : Digits.decimal cs ≤ 255
    · rw [if_pos hmost]
      constructor
      · intro h
        obtain rfl : Digits.decimal cs = n := by simpa using h
        exact ⟨⟨hrun, rfl⟩, hmost⟩
      · rintro ⟨⟨-, rfl⟩, -⟩
        rfl
    · rw [if_neg hmost]
      simp only [reduceCtorEq, false_iff]
      rintro ⟨⟨-, rfl⟩, hle⟩
      exact hmost hle
  · simp [hrun]

theorem WritesOctet.dot_not_mem (h : WritesOctet cs n) : '.' ∉ cs := by
  have hrun := (Numeral.writesDecimal_iff.mp h.1).1
  simp only [Digits.isRun, Bool.and_eq_true, List.all_eq_true] at hrun
  intro hdot
  exact absurd (hrun.2 '.' hdot) (by decide)

theorem writesOctet_toDigits (hn : n ≤ 255) : WritesOctet (Nat.toDigits 10 n) n :=
  ⟨Numeral.writesDecimal_iff.mpr ⟨Digits.isRun_toDigits n, Digits.decimal_toDigits n⟩, hn⟩

/-- **The octets of groups are read if each group writes one.** -/
theorem octets_eq_ok_iff : ∀ {gs : List (List Char)} {os : List Nat},
    octets gs = .ok os ↔ List.Forall₂ WritesOctet gs os
  | [], os => by simp [octets, eq_comm]
  | g :: gs, os => by
    rw [List.forall₂_cons_left_iff]
    simp only [← octet_eq_ok_iff, ← @octets_eq_ok_iff gs, octets]
    cases octet g with
    | error reason => simp
    | ok n => cases octets gs <;> simp [eq_comm]

/-! ### Addresses -/

/-- The characters write four octets with dots between them. -/
def WritesQuad (cs : List Char) (o₁ o₂ o₃ o₄ : Nat) : Prop :=
  ∃ g₁ g₂ g₃ g₄, cs = g₁ ++ '.' :: (g₂ ++ '.' :: (g₃ ++ '.' :: g₄)) ∧
    WritesOctet g₁ o₁ ∧ WritesOctet g₂ o₂ ∧ WritesOctet g₃ o₃ ∧ WritesOctet g₄ o₄

/-- The address in decimal, with dots between its octets and without needless zeros. -/
def dotted (a : Ip4) : String :=
  let octet (place : Nat) : String := toString (a.toNat / 256 ^ place % 256)
  octet 3 ++ "." ++ octet 2 ++ "." ++ octet 1 ++ "." ++ octet 0

variable {a : Ip4} {o₁ o₂ o₃ o₄ : Nat}

/-- Four octets fill the 32 bits of an address. -/
theorem toNat_ofOctets (h₁ : o₁ ≤ 255) (h₂ : o₂ ≤ 255) (h₃ : o₃ ≤ 255) (h₄ : o₄ ≤ 255) :
    (BitVec.ofNat 32 (ofOctets [o₁, o₂, o₃, o₄])).toNat =
      o₁ * 2 ^ 24 + o₂ * 2 ^ 16 + o₃ * 2 ^ 8 + o₄ := by
  have hsum : ofOctets [o₁, o₂, o₃, o₄] = o₁ * 2 ^ 24 + o₂ * 2 ^ 16 + o₃ * 2 ^ 8 + o₄ := by
    show 256 * (256 * (256 * (256 * 0 + o₁) + o₂) + o₃) + o₄ = _
    omega
  rw [BitVec.toNat_ofNat, hsum]
  exact Nat.mod_eq_of_lt (by omega)

theorem read_of_writesQuad (h : WritesQuad cs o₁ o₂ o₃ o₄) :
    read cs = .ok (BitVec.ofNat 32 (ofOctets [o₁, o₂, o₃, o₄])) := by
  obtain ⟨g₁, g₂, g₃, g₄, hcs, h₁, h₂, h₃, h₄⟩ := h
  have hdots : ∀ g ∈ [g₁, g₂, g₃, g₄], '.' ∉ g := by
    simp [h₁.dot_not_mem, h₂.dot_not_mem, h₃.dot_not_mem, h₄.dot_not_mem]
  have hsplit : Text.splitAt '.' cs = [g₁, g₂, g₃, g₄] := by
    rw [← Text.splitAt_joined hdots, hcs]
    simp
  have hoctets : octets [g₁, g₂, g₃, g₄] = .ok [o₁, o₂, o₃, o₄] :=
    octets_eq_ok_iff.mpr (.cons h₁ (.cons h₂ (.cons h₃ (.cons h₄ .nil))))
  unfold read
  simp [hsplit, hoctets]

theorem exists_writesQuad_of_read (h : read cs = .ok a) : ∃ o₁ o₂ o₃ o₄,
    WritesQuad cs o₁ o₂ o₃ o₄ ∧ a = BitVec.ofNat 32 (ofOctets [o₁, o₂, o₃, o₄]) := by
  obtain ⟨g, gs, hsplit, hcs⟩ := Text.exists_splitAt '.' cs
  rw [read, hsplit] at h
  by_cases hlength : (g :: gs).length = 4
  · obtain ⟨g₂, g₃, g₄, rfl⟩ := List.length_eq_three.mp (Nat.succ.inj hlength)
    rw [if_pos hlength] at h
    cases hoctets : octets [g, g₂, g₃, g₄] with
    | error reason => simp [hoctets] at h
    | ok os =>
      have hwritten := octets_eq_ok_iff.mp hoctets
      simp only [List.forall₂_cons_left_iff, List.forall₂_nil_left_iff] at hwritten
      obtain ⟨o₁, _, h₁, ⟨o₂, _, h₂, ⟨o₃, _, h₃, ⟨o₄, _, h₄, rfl, rfl⟩, rfl⟩, rfl⟩, rfl⟩ := hwritten
      refine ⟨o₁, o₂, o₃, o₄, ⟨g, g₂, g₃, g₄, ?_, h₁, h₂, h₃, h₄⟩, ?_⟩
      · simpa using hcs
      · simpa [hoctets, eq_comm] using h
  · rw [if_neg hlength] at h
    cases h

/-- **An address is read exactly from four octets with dots between them.** -/
theorem read_eq_ok_iff : read cs = .ok a ↔ ∃ o₁ o₂ o₃ o₄, WritesQuad cs o₁ o₂ o₃ o₄ ∧
    a.toNat = o₁ * 2 ^ 24 + o₂ * 2 ^ 16 + o₃ * 2 ^ 8 + o₄ := by
  have hvalue : ∀ {o₁ o₂ o₃ o₄ : Nat}, WritesQuad cs o₁ o₂ o₃ o₄ →
      (BitVec.ofNat 32 (ofOctets [o₁, o₂, o₃, o₄])).toNat =
        o₁ * 2 ^ 24 + o₂ * 2 ^ 16 + o₃ * 2 ^ 8 + o₄ := by
    rintro o₁ o₂ o₃ o₄ ⟨_, _, _, _, -, h₁, h₂, h₃, h₄⟩
    exact toNat_ofOctets h₁.2 h₂.2 h₃.2 h₄.2
  constructor
  · intro h
    obtain ⟨o₁, o₂, o₃, o₄, hcs, rfl⟩ := exists_writesQuad_of_read h
    exact ⟨o₁, o₂, o₃, o₄, hcs, hvalue hcs⟩
  · rintro ⟨o₁, o₂, o₃, o₄, hcs, ha⟩
    rw [read_of_writesQuad hcs, BitVec.eq_of_toNat_eq ((hvalue hcs).trans ha.symm)]

theorem parse_eq_ok_iff {text : String} : parse text = .ok a ↔ read text.toList = .ok a := by
  unfold parse parseAs
  cases read text.toList <;> simp

/-- The octets of an address are its digits in base 256. -/
theorem writesQuad_dotted (a : Ip4) : WritesQuad a.dotted.toList (a.toNat / 256 ^ 3 % 256)
    (a.toNat / 256 ^ 2 % 256) (a.toNat / 256 ^ 1 % 256) (a.toNat / 256 ^ 0 % 256) := by
  have hoctet : ∀ place, WritesOctet (Nat.toDigits 10 (a.toNat / 256 ^ place % 256))
      (a.toNat / 256 ^ place % 256) := by
    intro place
    exact writesOctet_toDigits (Nat.le_of_lt_succ (Nat.mod_lt _ (by decide)))
  refine ⟨_, _, _, _, ?_, hoctet 3, hoctet 2, hoctet 1, hoctet 0⟩
  simp [dotted]

end Ip4

/-- **The language and the value of IPv4 addresses.** A text is read as an address exactly if it is four
groups of digits with dots between them, none of them empty and each of a number of at most 255, and the
address is the number that has the four as digits in base 256. Every address is read back from its dotted
form. -/
theorem ip4_addresses_are_dotted_quads (text : String) (a : Ip4) :
    (Ip4.parse text = .ok a ↔
      ∃ o₁ o₂ o₃ o₄, Ip4.WritesQuad text.toList o₁ o₂ o₃ o₄ ∧
        a.toNat = o₁ * 2 ^ 24 + o₂ * 2 ^ 16 + o₃ * 2 ^ 8 + o₄) ∧
    Ip4.parse a.dotted = .ok a := by
  rw [Ip4.parse_eq_ok_iff, Ip4.parse_eq_ok_iff, Ip4.read_eq_ok_iff, Ip4.read_eq_ok_iff]
  refine ⟨Iff.rfl, _, _, _, _, a.writesQuad_dotted, ?_⟩
  have hlt := a.isLt
  omega

end FlowSelect
