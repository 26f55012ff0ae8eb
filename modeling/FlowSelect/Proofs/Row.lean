/-
# Rows read back

A row is written as a JSON object and read back under the same names. JSON has one kind of integer, so
an unsigned cell comes back as a signed one if it fits; every other cell comes back as it was
(`Cell.reread`). No operand tells the two apart: each reads the value of a cell, which is an integer
however it is stored, except that a decoded column also asks whether the cell is a text, and a text is
read back as it is. So no filter tells a row from the one read back.

Key definitions: `Cell.reread`, `Row.reread`.
Key theorems: `Cell.ofJson?_toJson`, `Row.parse?_render`, `Row.get?_reread`, `Operand.value?_reread`,
`row_reads_back`.
-/
import FlowSelect.Filter
import FlowSelect.Proofs.Json.ReadBack
import FlowSelect.Proofs.Relaxation
import FlowSelect.Row.Codec

namespace FlowSelect

/-! ### Cells -/

namespace Cell

/-- A cell as it comes back from JSON: an unsigned integer is signed if it fits. -/
def reread : Cell → Cell
  | .int n => .int n
  | .uint n => if n.toNat ≤ 2 ^ 63 - 1 then .int (Int64.ofNat n.toNat) else .uint n
  | .text s => .text s

theorem reread_of_fits {n : UInt64} (hn : n.toNat ≤ 2 ^ 63 - 1) :
    reread (.uint n) = .int (Int64.ofNat n.toNat) := if_pos hn

theorem reread_of_large {n : UInt64} (hn : ¬ n.toNat ≤ 2 ^ 63 - 1) : reread (.uint n) = .uint n :=
  if_neg hn

theorem ofInt?_of_fits {n : Int} (hlow : -2 ^ 63 ≤ n) (hhigh : n < 2 ^ 63) :
    ofInt? n = some (.int (Int64.ofInt n)) := by
  have hfits : Int64.minValue.toInt ≤ n ∧ n ≤ Int64.maxValue.toInt := by
    rw [Int64.toInt_minValue, Int64.toInt_maxValue]
    omega
  rw [ofInt?, if_pos hfits]

theorem ofInt?_of_large {n : Nat} (hlow : 2 ^ 63 ≤ n) (hhigh : n < UInt64.size) :
    ofInt? n = some (.uint (UInt64.ofNat n)) := by
  have hlarge : ¬ (Int64.minValue.toInt ≤ (n : Int) ∧ (n : Int) ≤ Int64.maxValue.toInt) := by
    rw [Int64.toInt_maxValue]
    omega
  rw [ofInt?, if_neg hlarge, if_pos ⟨Int.natCast_nonneg n, hhigh⟩, Int.toNat_natCast]

/-- **A cell is read back** as `Cell.reread` says. -/
theorem ofJson?_toJson (cell : Cell) : ofJson? cell.toJson = some cell.reread := by
  cases cell with
  | int n =>
    show ofInt? n.toInt = some (.int n)
    rw [ofInt?_of_fits n.le_toInt n.toInt_lt, Int64.ofInt_toInt]
  | uint n =>
    show ofInt? n.toNat = some (reread (.uint n))
    by_cases hn : n.toNat ≤ 2 ^ 63 - 1
    · rw [reread_of_fits hn, ofInt?_of_fits (by omega) (by omega)]
      rfl
    · rw [reread_of_large hn, ofInt?_of_large (by omega) n.toNat_lt_size, UInt64.ofNat_toNat]
  | text s => rfl

theorem plain_toJson (cell : Cell) : cell.toJson.Plain := by
  cases cell with
  | int n => exact .int n.toInt
  | uint n => exact .int n.toNat
  | text s => exact .str s

/-- The value of a cell does not say how it is stored. -/
theorem scalar_reread (cell : Cell) : cell.reread.scalar = cell.scalar := by
  cases cell with
  | int n => rfl
  | uint n =>
    by_cases hn : n.toNat ≤ 2 ^ 63 - 1
    · have hvalue : (Int64.ofNat n.toNat).toInt = n.toNat := Int64.toInt_ofNat_of_lt (by omega)
      rw [reread_of_fits hn, scalar, scalar, hvalue]
    · rw [reread_of_large hn]
  | text s => rfl

end Cell

/-! ### Rows -/

namespace Row

/-- A row as it comes back from JSON. -/
def reread (row : Row) : Row := ⟨row.entries.map fun (name, cell) => (name, cell.reread)⟩

theorem ofFields?_map : ∀ entries : List (String × Cell),
    ofFields? (entries.map fun (name, cell) => (name, cell.toJson)) =
      some (entries.map fun (name, cell) => (name, cell.reread))
  | [] => rfl
  | (name, cell) :: rest => by simp [ofFields?, Cell.ofJson?_toJson, ofFields?_map rest]

theorem plain_toJson (row : Row) : row.toJson.Plain := by
  refine .obj fun f hf => ?_
  obtain ⟨⟨name, cell⟩, -, rfl⟩ := List.mem_map.mp hf
  exact cell.plain_toJson

theorem parse?_render (row : Row) : parse? row.toJson.render = some row.reread := by
  rw [parse?, Json.read?_render row.plain_toJson]
  simp only [toJson, ofJson?, ofFields?_map, Option.map_some, reread]

theorem names_reread (row : Row) : row.reread.entries.map Prod.fst = row.entries.map Prod.fst := by
  simp [reread, Function.comp_def]

theorem lookup_map (g : Cell → Cell) (name : String) : ∀ entries : List (String × Cell),
    lookup name (entries.map fun (key, cell) => (key, g cell)) = (lookup name entries).map g
  | [] => rfl
  | (key, cell) :: rest => by
    rw [List.map_cons, lookup, lookup, lookup_map g name rest]
    cases lookup name rest with
    | some later => rfl
    | none => by_cases hkey : key = name <;> simp [hkey]

/-- Each name stands for the cell it stood for, read back. -/
theorem get?_reread (row : Row) (name : String) :
    row.reread.get? name = (row.get? name).map Cell.reread :=
  lookup_map Cell.reread name row.entries

end Row

/-! ### Filters -/

/-- **No operand tells a row from the one read back.** -/
theorem Operand.value?_reread (row : Row) : ∀ o : Operand, o.value? row.reread = o.value? row
  | .column name => by
    rw [value?, value?, row.get?_reread, Option.map_map]
    simp only [Function.comp_def, Cell.scalar_reread]
  | .aggregate function part => by
    rw [value?, value?, row.get?_reread, row.get?_reread part, Option.map_map]
    cases row.get? (aggregateName function part) with
    | some cell => simp [Cell.scalar_reread]
    | none => simp [Function.comp_def, Cell.scalar_reread]
  | .masked operand op argument => by
    rw [value?, value?, operand.value?_reread row]
  | .decoded semantics part => by
    rw [value?, value?, row.get?_reread]
    -- only a text is decoded, and no other cell is read back as one
    rcases row.get? part with _ | (n | n | raw)
    · rfl
    · rfl
    · have hvalue := (Cell.uint n).scalar_reread
      by_cases hn : n.toNat ≤ 2 ^ 63 - 1
      · rw [Cell.reread_of_fits hn] at hvalue
        simp only [Option.map_some, Cell.reread_of_fits hn, hvalue]
      · simp only [Option.map_some, Cell.reread_of_large hn]
    · rfl

theorem Comparison.accepts_reread (row : Row) (c : Comparison) : c.accepts row.reread = c.accepts row := by
  rw [accepts, accepts, Operand.value?_reread]

theorem Filter.accepts_reread (row : Row) (f : Filter) : f.accepts row.reread = f.accepts row := by
  unfold accepts
  cases f.predicate with
  | none => rfl
  | some p => exact Formula.eval_congr fun c _ => c.accepts_reread row

/-- **A row reads back.** Every row is read back from its text, under the same names in the same
order. Each name then stands for its cell as it was, except that an unsigned integer up to `2 ^ 63 - 1`
is a signed one. Every filter accepts the row that is read back just when it accepts the row. -/
theorem row_reads_back (row : Row) :
    ∃ back : Row, Row.parse? row.toJson.render = some back ∧
      back.entries.map Prod.fst = row.entries.map Prod.fst ∧
      (∀ name, back.get? name = (row.get? name).map Cell.reread) ∧
      ∀ f : Filter, f.accepts back = f.accepts row :=
  ⟨row.reread, row.parse?_render, row.names_reread, row.get?_reread, Filter.accepts_reread row⟩

end FlowSelect
