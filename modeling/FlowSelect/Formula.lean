/-
# Positive Boolean formulas

A compiled filter is a tree of comparisons joined by `AND` and `OR`. There is
no negation node: a complement is pushed into the atoms (`negate`), so the tree
and its text stay within the form a query engine accepts.

Key definitions: `eval` (truth under a valuation), `negate` (De Morgan),
`relax` (the part of the formula that only uses some atoms), `render` (engine
text).
-/

namespace FlowSelect

/-- A tree of atoms joined by `AND` and `OR`. -/
inductive Formula (α : Type) where
  | atom (a : α)
  | and (left right : Formula α)
  | or (left right : Formula α)
  deriving DecidableEq, Repr

namespace Formula

variable {α : Type}

/-- Truth of a formula when each atom has the truth `v` gives it. -/
def eval (v : α → Bool) : Formula α → Bool
  | .atom a => v a
  | .and l r => l.eval v && r.eval v
  | .or l r => l.eval v || r.eval v

/-- The atoms from left to right. -/
def atoms : Formula α → List α
  | .atom a => [a]
  | .and l r => l.atoms ++ r.atoms
  | .or l r => l.atoms ++ r.atoms

/-- The complement by De Morgan's laws, where `complement` negates an atom. -/
def negate (complement : α → α) : Formula α → Formula α
  | .atom a => .atom (complement a)
  | .and l r => .or (l.negate complement) (r.negate complement)
  | .or l r => .and (l.negate complement) (r.negate complement)

/-- `OR` over a list, joined from the left; nothing for the empty list. -/
def disjoin? : List (Formula α) → Option (Formula α)
  | [] => none
  | f :: fs => some (fs.foldl .or f)

/-- `AND` over a list, joined from the left; nothing for the empty list. -/
def conjoin? : List (Formula α) → Option (Formula α)
  | [] => none
  | f :: fs => some (fs.foldl .and f)

/-- The conjunction of two formulas of which either may be absent; an absent
formula constrains nothing. -/
def meet? : Option (Formula α) → Option (Formula α) → Option (Formula α)
  | some l, some r => some (.and l r)
  | some l, none => some l
  | none, r => r

/-- The formula with every atom outside `exact` read as true. `none` means that
nothing is left to constrain: an `AND` loses the side that vanishes, an `OR`
vanishes with either side. -/
def relax (exact : α → Bool) : Formula α → Option (Formula α)
  | .atom a => if exact a then some (.atom a) else none
  | .and l r => meet? (l.relax exact) (r.relax exact)
  | .or l r =>
    match l.relax exact, r.relax exact with
    | some l', some r' => some (.or l' r')
    | _, _ => none

/-- Whether the outermost connective is `AND`. -/
def isAnd : Formula α → Bool
  | .and _ _ => true
  | _ => false

/-- Whether the outermost connective is `OR`. -/
def isOr : Formula α → Bool
  | .or _ _ => true
  | _ => false

/-- Text in round brackets when `wrap` holds. -/
def bracket (wrap : Bool) (text : String) : String :=
  if wrap then "(" ++ text ++ ")" else text

/-- Engine text. A child with the other connective is put in brackets, so the
text reads the same whichever connective binds tighter. -/
def render (atomText : α → String) : Formula α → String
  | .atom a => atomText a
  | .and l r =>
    bracket l.isOr (l.render atomText) ++ " AND " ++ bracket r.isOr (r.render atomText)
  | .or l r =>
    bracket l.isAnd (l.render atomText) ++ " OR " ++ bracket r.isAnd (r.render atomText)

end Formula

end FlowSelect
