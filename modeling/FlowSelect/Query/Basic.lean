/-
# Queries

What a filter text says, before any of its names are looked up: clauses joined by
`and`, `or` and `not`. A clause holds the texts of its tokens.

Key definitions: `Query`, `Query.ofChain` (precedence), `Query.clauses`.
-/
import FlowSelect.Text.Location

namespace FlowSelect

/-- A column as written: an alias, or a stored column. -/
inductive ColumnName where
  | registered (name : String)
  | raw (name : String)
  deriving DecidableEq, Repr

/-- The left side of a clause as written. -/
inductive Subject where
  | column (c : ColumnName)
  | masked (c : ColumnName) (op : String) (number : String)
  deriving DecidableEq, Repr

/-- The forms a value can be written in. -/
inductive ValueForm where
  | timestamp | ip6Subnet | ip6 | ip4Subnet | ip4 | number | quoted | word
  deriving DecidableEq, Repr

/-- A comparison as written. Without a relation, equality is meant. -/
structure Clause where
  span : Span
  subject : Subject
  relation : Option String
  form : ValueForm
  value : String
  deriving DecidableEq, Repr

/-- Clauses joined by `not`, `and` and `or`. -/
inductive Query where
  | clause (c : Clause)
  | not (q : Query)
  | and (left right : Query)
  | or (left right : Query)
  deriving DecidableEq, Repr

/-- What joins two members of a chain. -/
inductive Connective where
  | and | or
  deriving DecidableEq, Repr

namespace Query

/-- The clauses from left to right. -/
def clauses : Query → List Clause
  | .clause c => [c]
  | .not q => q.clauses
  | .and l r => l.clauses ++ r.clauses
  | .or l r => l.clauses ++ r.clauses

/-- A query under `n` times `not`. -/
def negated : (n : Nat) → Query → Query
  | 0, q => q
  | n + 1, q => .not (negated n q)

/-- Adds a finished `and` run to the runs before it. -/
def addRun : (runs : Option Query) → (run : Query) → Query
  | none, run => run
  | some runs, run => .or runs run

/-- Joins a chain from the left: `run` is the `and` run so far, `runs` are the
finished runs before it. -/
def joinRuns : (runs : Option Query) → (run : Query) → List (Connective × Query) → Query
  | runs, run, [] => addRun runs run
  | runs, run, (.and, q) :: rest => joinRuns runs (.and run q) rest
  | runs, run, (.or, q) :: rest => joinRuns (some (addRun runs run)) q rest

/-- The query of a chain: `and` binds tighter than `or`, and both join from the
left. -/
def ofChain (first : Query) (rest : List (Connective × Query)) : Query :=
  joinRuns none first rest

end Query

end FlowSelect
