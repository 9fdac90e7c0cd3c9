import RecordCoercion.Calendar.Date

/-!
# Weeks

Weekdays are numbered from Monday, which is zero. Three ways of counting weeks are in use: weeks of
a year that start on a given weekday, the days before the first such day being week zero, and the
ISO weeks, which start on Monday and belong to the year of their Thursday.
-/

set_option autoImplicit false

namespace RecordCoercion.Calendar

/-- A weekday; zero is Monday. -/
abbrev Weekday := Fin 7

/-- Monday. -/
def monday : Weekday := ⟨0, by decide⟩

/-- Sunday. -/
def sunday : Weekday := ⟨6, by decide⟩

/-- The weekday at a position counted from a Monday on, which may lie weeks ahead. -/
def Weekday.ofPosition (n : Nat) : Weekday := ⟨n % 7, Nat.mod_lt n (by decide)⟩

/-- The number of days from the last `start` to a weekday. -/
def Weekday.daysSince (weekday start : Weekday) : Nat := (weekday - start).val

/-- The weekday of a day; 1970-01-01 was a Thursday. -/
def weekdayOfDay (n : Int) : Weekday := .ofPosition ((n + 3) % 7).toNat

/-- The week of its year that a day lies in, for weeks that start on `start`. -/
def weekOfDay (start : Weekday) (n : Int) : Nat :=
  (ordinalOfDay n + 6 - (weekdayOfDay n).daysSince start) / 7

/-- The ordinal of a weekday in a week of a year, for weeks that start on `start`; it need not lie
in the year. -/
def ordinalInWeek (start : Weekday) (year : Int) (week : Nat) (weekday : Weekday) : Int :=
  let firstWeekStart := 1 + start.daysSince (weekdayOfDay (daysBeforeYear year))
  (firstWeekStart : Int) + ((week : Int) - 1) * 7 + weekday.daysSince start

/-- The Thursday of the ISO week of a day. -/
def isoThursday (n : Int) : Int := n - (weekdayOfDay n).val + 3

/-- The year that the ISO week of a day belongs to. -/
def isoYearOfDay (n : Int) : Int := yearOfDay (isoThursday n)

/-- The number of the ISO week of a day, from 1. -/
def isoWeekOfDay (n : Int) : Nat := (ordinalOfDay (isoThursday n) - 1) / 7 + 1

/-- The day with an ISO year, week and weekday, if the year has that week. -/
def dayOfIsoWeek? (year : Int) (week : Nat) (weekday : Weekday) : Option Int :=
  let fourthOfJanuary := daysBeforeYear year + 3
  let firstMonday := fourthOfJanuary - (weekdayOfDay fourthOfJanuary).val
  let day := firstMonday + 7 * ((week : Int) - 1) + weekday.val
  if isoYearOfDay day = year && isoWeekOfDay day = week then some day else none

end RecordCoercion.Calendar
