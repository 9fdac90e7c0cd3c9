import RecordCoercion.Calendar.Week

/-!
# Instants

An `Instant` is a point in time, counted in milliseconds from the start of 1970 in UTC. Its reading
on the calendar is a `Moment`, a day and a millisecond of that day; only the years `firstYear` to
`lastYear` have one.
-/

set_option autoImplicit false

namespace RecordCoercion

/-- A point in time, in milliseconds since the start of 1970. -/
structure Instant where
  epochMillis : Int64
  deriving DecidableEq

/-- The first year of the calendar. -/
def firstYear : Int := -262143

/-- The last year of the calendar. -/
def lastYear : Int := 262142

/-- The number of milliseconds of a day. -/
def millisPerDay : Nat := 86400000

/-- A point in time on the calendar: a day counted from 1970-01-01 and a millisecond of it. -/
structure Moment where
  day : Int
  millis : Nat
  deriving DecidableEq

namespace Moment

/-- The date. -/
def date (m : Moment) : Calendar.Date := .ofDayNumber m.day

/-- The hour of the day, from 0 to 23. -/
def hour (m : Moment) : Nat := m.millis / 3600000

/-- The minute of the hour. -/
def minute (m : Moment) : Nat := m.millis / 60000 % 60

/-- The second of the minute. -/
def second (m : Moment) : Nat := m.millis / 1000 % 60

/-- The milliseconds of the second. -/
def millisOfSecond (m : Moment) : Nat := m.millis % 1000

/-- The whole seconds since the start of 1970. -/
def epochSeconds (m : Moment) : Int := m.day * 86400 + m.millis / 1000

end Moment

namespace Instant

/-- The reading of a count of milliseconds on an unbounded calendar. -/
def momentOfMillis (millis : Int) : Moment :=
  ⟨millis / millisPerDay, (millis % millisPerDay).toNat⟩

/-- The reading of an instant on the calendar, if the calendar reaches that far. -/
def moment? (i : Instant) : Option Moment :=
  let m := momentOfMillis i.epochMillis.toInt
  let year := Calendar.yearOfDay m.day
  if firstYear ≤ year && year ≤ lastYear then some m else none

end Instant

end RecordCoercion
