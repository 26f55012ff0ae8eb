/-
# Records in JSON

A record is written as an object with its fields, or as an array of its fields in
the order of their declaration. Unknown fields of an object are ignored; a
declared field may be given once.

Key definition: `Json.record?`, with `required`, `defaulted` and `optional` for the
fields it finds.
-/
import FlowSelect.Json.Basic

namespace FlowSelect
namespace Json

variable {α : Type}

/-- The field of a name: absent, given once, or a fault when given more often. -/
def field? (name : String) (fields : List (String × Json)) : Option (Option Json) :=
  match fields.filter fun f => f.1 == name with
  | [] => some none
  | [(_, v)] => some (some v)
  | _ => none

/-- The fields of several names, in the order of the names. -/
def fieldsNamed? (fields : List (String × Json)) : List String → Option (List (Option Json))
  | [] => some []
  | name :: names =>
    match field? name fields, fieldsNamed? fields names with
    | some v, some vs => some (v :: vs)
    | _, _ => none

/-- The declared fields of a record, in the order of their declaration. -/
def record? (names : List String) : Json → Option (List (Option Json))
  | .obj fields => fieldsNamed? fields names
  | .arr items =>
    if items.length ≤ names.length then
      some (items.map some ++ List.replicate (names.length - items.length) none)
    else none
  | _ => none

/-- A field that has to be there. -/
def required (decode : Json → Option α) : Option Json → Option α
  | some v => decode v
  | none => none

/-- A field that may be left out, but not be null. -/
def defaulted (default : α) (decode : Json → Option α) : Option Json → Option α
  | some v => decode v
  | none => some default

/-- A field that may be left out or be null. -/
def optional (decode : Json → Option α) : Option Json → Option (Option α)
  | none => some none
  | some .null => some none
  | some v => (decode v).map some

/-- A string. -/
def text? : Json → Option String
  | .str s => some s
  | _ => none

/-- A truth value. -/
def bool? : Json → Option Bool
  | .bool b => some b
  | _ => none

/-- A signed 64-bit integer. -/
def int64? : Json → Option Int64
  | .int n =>
    if Int64.minValue.toInt ≤ n ∧ n ≤ Int64.maxValue.toInt then some (Int64.ofInt n) else none
  | _ => none

/-- All members of a list, if each can be decoded. -/
def each? (decode : Json → Option α) : List Json → Option (List α)
  | [] => some []
  | v :: vs =>
    match decode v, each? decode vs with
    | some a, some as => some (a :: as)
    | _, _ => none

/-- A list. -/
def list? (decode : Json → Option α) : Json → Option (List α)
  | .arr items => each? decode items
  | _ => none

/-- One of several names, as a string or as an object whose only field has that
name and is null. -/
def choice? (ofName? : String → Option α) : Json → Option α
  | .str s => ofName? s
  | .obj [(s, .null)] => ofName? s
  | _ => none

/-- A list of strings. -/
def texts (xs : List String) : Json := .arr (xs.map .str)

/-- A field that is written only if it is there. -/
def fieldIf (name : String) : Option Json → List (String × Json)
  | some v => [(name, v)]
  | none => []

end Json
end FlowSelect
