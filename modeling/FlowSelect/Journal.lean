/-
# The journal

What is reported about the work while a filter is compiled. The journal of a step
is a function of the step's input, beside its result: every clause of a query is
worked on from left to right, also after a fault, so the journal of a query is that
of its clauses in order.

Key definitions: `Side.compareJournal`, `Clause.journal`, `Filter.journal`.
-/
import FlowSelect.Filter
import FlowSelect.Text.Shown

namespace FlowSelect

/-- How important an entry is. -/
inductive Level where
  | error | info | debug
  deriving DecidableEq, Repr

namespace Level

/-- The name of a level. -/
def name : Level → String
  | .error => "ERROR"
  | .info => "INFO"
  | .debug => "DEBUG"

/-- The rank of a level; more detail ranks higher. -/
def rank : Level → Nat
  | .error => 1
  | .info => 2
  | .debug => 3

end Level

/-- Which part of the work an entry is about. -/
inductive Topic where
  | columns | comparisons | reading | filter | program
  deriving DecidableEq, Repr

/-- The name of a topic. -/
def Topic.name : Topic → String
  | .columns => "columns"
  | .comparisons => "comparisons"
  | .reading => "reading"
  | .filter => "filter"
  | .program => "program"

/-- An entry of the journal. -/
structure Entry where
  level : Level
  topic : Topic
  message : String
  deriving DecidableEq, Repr

/-- Entries in the order in which they were made. -/
abbrev Journal := List Entry

/-! ### Columns -/

namespace Schema

/-- The journal of looking up a column. -/
def columnJournal (s : Schema) (name : String) : Journal :=
  match s.column? name with
  | some spec =>
    [⟨.debug, .columns, "column " ++ name ++ " resolved to " ++ Text.shownList spec.parts⟩]
  | none => []

/-- The journal of looking up columns up to the first unknown one. -/
def columnsJournal (s : Schema) : List String → Journal
  | [] => []
  | name :: names =>
    match s.column? name with
    | some _ => s.columnJournal name ++ s.columnsJournal names
    | none => []

/-- The journal of looking up a group. -/
def groupJournal (s : Schema) (name : String) (aggregate : Bool) : Journal :=
  match s.group? name with
  | none => []
  | some spec =>
    let done : Journal :=
      match s.resolveColumns spec.members with
      | .ok members =>
        [⟨.debug, .columns, "group " ++ name ++ " expanded to " ++ toString members.length
          ++ " members (aggregate: " ++ (if aggregate then "true" else "false") ++ ")"⟩]
      | .error _ => []
    s.columnsJournal spec.members ++ done

/-- The journal of looking up an alias. -/
def resolveJournal (s : Schema) (name : String) : Journal :=
  match s.column? name with
  | some _ => s.columnJournal name
  | none =>
    match s.group? name with
    | some spec => s.groupJournal name spec.aggregate
    | none => []

end Schema

/-! ### Comparisons -/

/-- The journal of compiling for each target: the targets passed over, up to the
first fault that ends the work. -/
def eachJournal (compile : Target → Except Fault Predicate) : List Target → Journal
  | [] => []
  | t :: ts =>
    match compile t with
    | .ok _ => eachJournal compile ts
    | .error fault =>
      if fault.isMismatch then
        ⟨.debug, .comparisons, "skipping " ++ t.column.name ++ ": " ++ fault.message⟩
          :: eachJournal compile ts
      else []

/-- The journal of compiling for every target of a left side. -/
def broadcastJournal (left : Side) (compile : Target → Except Fault Predicate) : Journal :=
  match left.targets with
  | .ok ts => if 1 < ts.length then eachJournal compile ts else []
  | .error _ => []

namespace Side

/-- The entry on a comparison that was compiled. -/
def compiledEntry (left : Side) (how : String) (right : Side) :
    Except Fault Predicate → Journal
  | .ok p =>
    [⟨.debug, .comparisons, "compiled " ++ left.describe ++ " " ++ how ++ " " ++ right.describe
      ++ ": " ++ p.engineText⟩]
  | .error _ => []

/-- The journal of testing whether a left side lies in a right side. -/
def withinJournal (left right : Side) : Journal :=
  broadcastJournal left (left.targetWithin right)
    ++ compiledEntry left "in" right (left.within right)

/-- The journal of a comparison. -/
def compareJournal (left : Side) (r : Relation) (right : Side) : Journal :=
  match right with
  | .network _ => if r.isOrdering then [] else left.withinJournal right
  | _ =>
    broadcastJournal left (targetCompare r right)
      ++ compiledEntry left r.symbol right (left.compare r right)

end Side

/-! ### Queries -/

/-- The journal of looking up a column as written. -/
def ColumnName.journal (s : Schema) : ColumnName → Journal
  | .registered name => s.resolveJournal name
  | .raw _ => []

/-- The journal of a left side as written. -/
def Subject.journal (s : Schema) : Subject → Journal
  | .column c => c.journal s
  | .masked c _ _ => c.journal s

/-- The entry on a fault at a place of the filter text. -/
def faultEntry (place : Location) (message : String) : Entry :=
  ⟨.error, .reading, "filter error at line " ++ toString place.line ++ ", column "
    ++ toString place.column ++ ": " ++ message⟩

/-- The journal of a clause of a filter text. -/
def Clause.journal (s : Schema) (text : String) (c : Clause) : Journal :=
  let comparing : Journal :=
    match c.sides s with
    | .ok (left, r, right) => left.compareJournal r right
    | .error _ => []
  let fault : Journal :=
    match c.compile s with
    | .ok _ => []
    | .error fault => [faultEntry (Text.locate text c.span.offset) fault.message]
  c.subject.journal s ++ comparing ++ fault

/-- The journal of compiling a filter text. -/
def textJournal (s : Schema) (text : String) : Journal :=
  match Query.ofText text with
  | .error rejection =>
    match rejection.cause with
    | .unreadable u => [faultEntry u.location u.expectation]
    | fault => [⟨.error, .reading, "filter error: " ++ fault.message⟩]
  | .ok none => []
  | .ok (some query) => query.clauses.flatMap (Clause.journal s text)

/-- The journal of compiling a configuration. -/
def Filter.journal (c : Configuration) : Journal :=
  if Text.isAllBlank c.filter then [⟨.debug, .filter, "empty filter, matching all rows"⟩]
  else
    let done : Journal :=
      match Filter.compile c with
      | .ok f =>
        [⟨.info, .filter, "compiled filter '" ++ Text.trim c.filter ++ "' into '"
          ++ f.predicateText ++ "'"⟩]
      | .error _ => []
    textJournal c.schema c.filter ++ done

end FlowSelect
