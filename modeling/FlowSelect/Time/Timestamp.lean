/-
# Timestamps

A timestamp is written `YYYY/MM/DD.hh:mm:ss` and read as UTC. Its value is the
number of seconds since 1970/01/01. Second 60 may be written in any minute and
counts as second 59.
-/
import FlowSelect.Fault
import FlowSelect.Text.Digits
import FlowSelect.Time.Calendar

namespace FlowSelect

/-- A date and a time of day as written, not necessarily real. -/
structure CivilTime where
  year : Nat
  month : Nat
  day : Nat
  hour : Nat
  minute : Nat
  second : Nat
  deriving DecidableEq, Repr

namespace CivilTime

/-- Whether the date exists and the time is one of a day. -/
def isReal (t : CivilTime) : Bool :=
  Calendar.isDate t.year t.month t.day && t.hour ≤ 23 && t.minute ≤ 59 && t.second ≤ 60

/-- Seconds since 1970/01/01; a leap second is the second before it. -/
def seconds (t : CivilTime) : Int :=
  86400 * Calendar.dayNumber t.year t.month t.day
    + ((3600 * t.hour + 60 * t.minute + min t.second 59 : Nat) : Int)

end CivilTime

namespace Timestamp

/-- The form of a timestamp: `d` stands for a digit, all else for itself. -/
def form : List Char := "dddd/dd/dd.dd:dd:dd".toList

/-- Whether characters follow a form. -/
def follows : List Char → List Char → Bool
  | [], [] => true
  | 'd' :: form, c :: cs => c.isDigit && follows form cs
  | f :: form, c :: cs => c == f && follows form cs
  | _, _ => false

/-- The number written by `n` digits from a place on. -/
def field (cs : List Char) (start n : Nat) : Nat := Digits.decimal ((cs.drop start).take n)

/-- The date and time that characters of the right form write. -/
def civilTime (cs : List Char) : CivilTime :=
  { year := field cs 0 4
    month := field cs 5 2
    day := field cs 8 2
    hour := field cs 11 2
    minute := field cs 14 2
    second := field cs 17 2 }

/-- The value of a timestamp's characters. -/
def value (cs : List Char) : Except FormatFault Int :=
  if follows form cs then
    if (civilTime cs).isReal then .ok (civilTime cs).seconds else .error .timeRange
  else .error .timeForm

/-- Reads a timestamp. -/
def parse (text : String) : Except Fault Int64 :=
  match value text.toList with
  | .ok n => .ok (Int64.ofInt n)
  | .error reason => .error (.format .timestamp text reason)

end Timestamp

end FlowSelect
