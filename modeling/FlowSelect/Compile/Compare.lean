/-
# Compiling comparisons

Compiles a left side, a relation and a right side into a predicate. Literals are
checked against the kind of each target, and bare words get their meaning from
the target's semantics. Subnets become ranges of addresses.

An IPv6 address is stored in two columns, its upper and its lower half.

Key definitions: `Target.compareLiteral`, `Target.inNetwork`, `Side.compare`,
`Side.within`.
-/
import FlowSelect.Compile.Target
import FlowSelect.Net.Protocol
import FlowSelect.Net.TcpFlags

namespace FlowSelect

/-- A comparison as a predicate. -/
def comparison (operand : Operand) (r : Relation) (constant : Constant) : Predicate :=
  .atom ⟨operand, r, constant⟩

/-- Whether an operand lies between two constants, both included. -/
def inRange (operand : Operand) (low high : Constant) : Predicate :=
  .and (comparison operand .ge low) (comparison operand .le high)

/-- The strict order that a relation implies for the upper half of an address. -/
def strictOrder : Relation → Relation
  | .lt | .le => .lt
  | _ => .gt

/-- Compares an address stored in two halves, the upper one first. -/
def compareHalves (high low : Operand) (r : Relation) (a : Ip6) : Predicate :=
  match r with
  | .eq => .and (comparison high .eq (.uint a.high)) (comparison low .eq (.uint a.low))
  | .ne => .or (comparison high .ne (.uint a.high)) (comparison low .ne (.uint a.low))
  | r =>
    .or (comparison high (strictOrder r) (.uint a.high))
      (.and (comparison high .eq (.uint a.high)) (comparison low r (.uint a.low)))

/-- Whether an address stored in two halves lies in a subnet. The lower half is
looked at only if the subnet constrains it. -/
def halvesInSubnet (high low : Operand) (s : Subnet 128) : Predicate :=
  let upper := inRange high (.uint (Ip6.high s.low)) (.uint (Ip6.high s.high))
  if Ip6.low s.low = 0 ∧ Ip6.low s.high = 0xffffffffffffffff then upper
  else .and upper (inRange low (.uint (Ip6.low s.low)) (.uint (Ip6.low s.high)))

/-- The constant of an IPv4 address. -/
def Ip4.constant (a : Ip4) : Constant := .int (Int64.ofNat a.toNat)

namespace Target

/-- The parts that hold the halves of an IPv6 address. -/
def halves (t : Target) (right : Side) : Except Fault (String × String) :=
  if t.mask.isSome then .error (t.mismatch right .ip6Masked)
  else
    match t.column.kind, t.column.parts with
    | some .ip6, [high, low] => .ok (high, low)
    | _, _ => .error (t.mismatch right .notIp6)

/-- How a column's text is decoded before it is compared, if it is. -/
def decoding : Option Semantics → Option Semantics
  | some .dns => some .dns
  | some .url => some .url
  | _ => none

/-- A literal text in the form that decoded texts are compared in. -/
def textConstant (t : Target) (text : String) : Except Fault String :=
  match t.column.semantics with
  | some .dns => .ok (Dns.normalize text)
  | some .url =>
    match Url.decode? text with
    | some s => .ok s
    | none => .error (.format .url text .percentEncoding)
  | _ => .ok text

/-- The operand for one part of a column that holds text. -/
def textOperand (t : Target) (part : String) : Operand :=
  match decoding t.column.semantics with
  | some semantics => .decoded semantics part
  | none => .column part

/-- Compares a column with a text; `right` is the literal the text came from. -/
def compareText (t : Target) (r : Relation) (right : Side) (text : String) :
    Except Fault Predicate :=
  if !t.accepts [.text] then .error (t.mismatch right .notText)
  else if r.isOrdering then .error (t.mismatch right (.equalityOnly r))
  else if t.mask.isSome || t.aggregate then .error (t.mismatch right .textWithOperator)
  else
    match t.textConstant text with
    | .error fault => .error fault
    | .ok s =>
      match t.eachPart? fun part => comparison (t.textOperand part) r (.text s) with
      | some p => .ok p
      | none => .error (.internal .columnWithoutParts)

/-- Compares a column of TCP flags with a set of flags: all of them are set. -/
def compareFlags (t : Target) (r : Relation) (word : String) : Except Fault Predicate :=
  let right := Side.literal (.word word)
  if r.isOrdering then .error (t.mismatch right (.equalityOnly r))
  else if t.mask.isSome then .error (t.mismatch right .flagsMasked)
  else
    match TcpFlags.parse word with
    | .error fault => .error fault
    | .ok flags => { t with mask := some (.and, flags) }.compareParts r (.int flags)

/-- Compares a column with a bare word. -/
def compareWord (t : Target) (r : Relation) (word : String) : Except Fault Predicate :=
  match t.column.semantics with
  | some .protocol =>
    match Protocol.parse word with
    | .error fault => .error fault
    | .ok n => t.compareParts r (.int n)
  | some .flags => t.compareFlags r word
  | _ => t.compareText r (.literal (.word word)) word

/-- Compares a column with a literal. -/
def compareLiteral (t : Target) (r : Relation) (l : Literal) : Except Fault Predicate :=
  match l with
  | .number n =>
    if t.accepts [.number, .ip4, .timestamp] then t.compareParts r (.int n)
    else .error (t.mismatch (.literal l) .notNumeric)
  | .timestamp n =>
    if t.accepts [.timestamp, .number] then t.compareParts r (.int n)
    else .error (t.mismatch (.literal l) .notTime)
  | .ip4 a =>
    if t.accepts [.ip4] then t.compareParts r a.constant
    else .error (t.mismatch (.literal l) .notIp4)
  | .ip6 a =>
    match t.halves (.literal l) with
    | .error fault => .error fault
    | .ok (high, low) => .ok (compareHalves (t.operand high) (t.operand low) r a)
  | .quoted s => t.compareText r (.literal l) s
  | .word s => t.compareWord r s

/-- Tests whether a column lies in a network. -/
def inNetwork (t : Target) (n : Network) : Except Fault Predicate :=
  if t.mask.isSome then .error (t.mismatch (.network n) .subnetMasked)
  else
    match n with
    | .ip4 s =>
      if t.accepts [.ip4] then
        match t.eachPart? fun part =>
          inRange (t.operand part) (Ip4.constant s.low) (Ip4.constant s.high) with
        | some p => .ok p
        | none => .error (.internal .columnWithoutParts)
      else .error (t.mismatch (.network n) .notIp4)
    | .ip6 s =>
      match t.halves (.network n) with
      | .error fault => .error fault
      | .ok (high, low) => .ok (halvesInSubnet (t.operand high) (t.operand low) s)

end Target

namespace Side

/-- Tests whether one target of a left side lies in a right side, which has to be
a network. -/
def targetWithin (left right : Side) (t : Target) : Except Fault Predicate :=
  match right with
  | .network n => t.inNetwork n
  | _ =>
    if t.mask.isSome then .error (t.mismatch right .subnetMasked)
    else .error (.mismatch left.describe right.describe .subnetExpected)

/-- Tests whether a left side lies in a right side. -/
def within (left right : Side) : Except Fault Predicate :=
  broadcast left (left.targetWithin right)

/-- Compares one target with a right side, which has to be a literal. -/
def targetCompare (r : Relation) (right : Side) (t : Target) : Except Fault Predicate :=
  match right with
  | .literal l => t.compareLiteral r l
  | _ => .error (t.mismatch right .rightNotLiteral)

/-- Compares a left side with a right side. A network is tested for membership,
so it has no order. -/
def compare (left : Side) (r : Relation) (right : Side) : Except Fault Predicate :=
  match right with
  | .network _ =>
    match r with
    | .eq => left.within right
    | .ne => (left.within right).map Predicate.complement
    | r => .error (.mismatch left.describe right.describe (.subnetOrdered r))
  | _ => broadcast left (targetCompare r right)

end Side

end FlowSelect
