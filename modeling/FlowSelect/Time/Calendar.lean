/-
# The calendar

Days of the proleptic Gregorian calendar, counted from 1970/01/01. Years start
at zero.

Key definitions: `isLeapYear`, `daysInMonth`, `dayNumber`.
-/

namespace FlowSelect
namespace Calendar

/-- Every fourth year is a leap year, except centuries not divisible by 400. -/
def isLeapYear (year : Nat) : Bool :=
  year % 4 == 0 && (year % 100 != 0 || year % 400 == 0)

/-- The length of a month; a number that is no month has no days. -/
def daysInMonth (year month : Nat) : Nat :=
  match month with
  | 1 | 3 | 5 | 7 | 8 | 10 | 12 => 31
  | 4 | 6 | 9 | 11 => 30
  | 2 => if isLeapYear year then 29 else 28
  | _ => 0

/-- The number of leap years before a year. -/
def leapYearsBefore (year : Nat) : Nat :=
  (year + 3) / 4 - (year + 99) / 100 + (year + 399) / 400

/-- The number of days in all years before a year. -/
def daysBeforeYear (year : Nat) : Nat := 365 * year + leapYearsBefore year

/-- The number of days of a year before a month. -/
def daysBeforeMonth (year : Nat) : (month : Nat) → Nat
  | 0 => 0
  | month + 1 => daysBeforeMonth year month + daysInMonth year month

/-- Whether a year, month and day name a day. -/
def isDate (year month day : Nat) : Bool := 1 ≤ day && day ≤ daysInMonth year month

/-- Days from 1970/01/01 to the given day, negative before it. -/
def dayNumber (year month day : Nat) : Int :=
  ((daysBeforeYear year + daysBeforeMonth year month + day : Nat) : Int)
    - ((daysBeforeYear 1970 + 1 : Nat) : Int)

end Calendar
end FlowSelect
