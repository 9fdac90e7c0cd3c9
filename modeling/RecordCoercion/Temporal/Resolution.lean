import RecordCoercion.Temporal.Scan

/-!
# From fields to a point in time

The fields of a text are resolved in two halves. A date needs a year with a month and a day, with an
ordinal, or with a week and a weekday; all other date fields that were given must then agree with
it. A time needs both halves of its hour and its minute. Seconds since 1970 give both. A failed
resolution is `insufficient` if more fields could have mended it and `contradictory` if not; only
the first kind is mended by `TemporalFields.withDefaults`: what a format leaves out takes its value
from the start of 1970. `TemporalFormat.read?` reads a text in a format.
-/

set_option autoImplicit false

namespace RecordCoercion

/-- Why fields do not give a point in time. -/
inductive ResolutionError
  | insufficient
  | contradictory
  deriving DecidableEq

/-- A day, counted from 1970-01-01, and a time of that day. The nanoseconds reach beyond a second in
a leap second. -/
structure LocalTime where
  day : Int
  seconds : Nat
  nanoseconds : Nat
  deriving DecidableEq

namespace LocalTime

/-- The whole seconds since the start of 1970. -/
def epochSeconds (t : LocalTime) : Int := t.day * 86400 + t.seconds

/-- The milliseconds since the start of 1970. -/
def epochMillis (t : LocalTime) : Int := t.epochSeconds * 1000 + (t.nanoseconds / 1000000 : Nat)

end LocalTime

/-- Whether a day lies on the calendar. -/
def isCalendarDay (day : Int) : Bool :=
  firstYear ≤ Calendar.yearOfDay day && Calendar.yearOfDay day ≤ lastYear

/-- A full year from its parts. A year given in full must agree with its other parts and must not be
negative if there are any; two digits alone stand for the years 1970 to 2069. -/
def resolveYear (year : Option Int) (century yearOfCentury : Option Nat) :
    Except ResolutionError (Option Int) :=
  match year, century, yearOfCentury with
  | year, none, none => .ok year
  | some year, century, yearOfCentury =>
    if 0 ≤ year && century.all (fun c => year / 100 == (c : Int)) &&
        yearOfCentury.all (fun y => year % 100 == (y : Int)) then .ok (some year)
    else .error .contradictory
  | none, some century, some yearOfCentury => .ok (some (century * 100 + yearOfCentury : Nat))
  | none, none, some yearOfCentury =>
    .ok (some (yearOfCentury + if yearOfCentury < 70 then 2000 else 1900 : Nat))
  | none, some _, none => .error .insufficient

namespace TemporalFields

/-- Whether every date field that was given is that of a day. -/
def agreesWith (fields : TemporalFields) (day : Int) : Bool :=
  let date := Calendar.Date.ofDayNumber day
  let isoYear := Calendar.isoYearOfDay day
  fields.year.all (· == date.year) &&
    fields.century.all (fun c => 0 ≤ date.year && date.year / 100 == (c : Int)) &&
    fields.yearOfCentury.all (fun y => 0 ≤ date.year && date.year % 100 == (y : Int)) &&
    fields.isoYear.all (· == isoYear) &&
    fields.isoYearOfCentury.all (fun y => 0 ≤ isoYear && isoYear % 100 == (y : Int)) &&
    fields.quarter.all (· == date.quarter) &&
    fields.month.all (· == date.month) &&
    fields.day.all (· == date.day) &&
    fields.weekFromSunday.all (· == Calendar.weekOfDay Calendar.sunday day) &&
    fields.weekFromMonday.all (· == Calendar.weekOfDay Calendar.monday day) &&
    fields.isoWeek.all (· == Calendar.isoWeekOfDay day) &&
    fields.weekday.all (· == Calendar.weekdayOfDay day) &&
    fields.ordinal.all (· == Calendar.ordinalOfDay day)

/-- The day that a year and an ISO year determine with the other date fields, by the first rule
whose fields are all given: `none` if no rule applies, `some none` if there is no such day. -/
def candidateDay (fields : TemporalFields) (year isoYear : Option Int) : Option (Option Int) :=
  match year, fields.month, fields.day with
  | some year, some month, some day =>
    some ((Calendar.Date.ofParts? year month day).map (·.dayNumber))
  | _, _, _ =>
    match year, fields.ordinal with
    | some year, some ordinal => some (Calendar.dayOfOrdinal? year ordinal)
    | _, _ =>
      match year, fields.weekFromSunday, fields.weekday with
      | some year, some week, some weekday =>
        some (Calendar.dayOfOrdinal? year
          (Calendar.ordinalInWeek Calendar.sunday year week weekday))
      | _, _, _ =>
        match year, fields.weekFromMonday, fields.weekday with
        | some year, some week, some weekday =>
          some (Calendar.dayOfOrdinal? year
            (Calendar.ordinalInWeek Calendar.monday year week weekday))
        | _, _, _ =>
          match isoYear, fields.isoWeek, fields.weekday with
          | some isoYear, some week, some weekday =>
            some (Calendar.dayOfIsoWeek? isoYear week weekday)
          | _, _, _ => none

/-- The day that the date fields determine. -/
def resolveDay (fields : TemporalFields) : Except ResolutionError Int :=
  match resolveYear fields.year fields.century fields.yearOfCentury with
  | .error e => .error e
  | .ok year =>
    match resolveYear fields.isoYear none fields.isoYearOfCentury with
    | .error e => .error e
    | .ok isoYear =>
      match fields.candidateDay year isoYear with
      | none => .error .insufficient
      | some none => .error .contradictory
      | some (some day) =>
        if isCalendarDay day && fields.agreesWith day then .ok day else .error .contradictory

/-- The seconds and nanoseconds of the day that the time fields determine, `none` if they are not
enough. A missing second is zero, but a fraction needs a second. Second 60 is the last one of its
minute, a whole second longer. -/
def resolveClock (fields : TemporalFields) : Option (Nat × Nat) :=
  match fields.afternoon, fields.hourOfHalf, fields.minute with
  | some afternoon, some hour, some minute =>
    let minutes := (hour + if afternoon then 12 else 0) * 60 + minute
    match fields.second, fields.nanosecond with
    | none, none => some (minutes * 60, 0)
    | none, some _ => none
    | some second, nanosecond =>
      if second = 60 then some (minutes * 60 + 59, 1000000000 + nanosecond.getD 0)
      else some (minutes * 60 + second, nanosecond.getD 0)
  | _, _, _ => none

/-- The point in local time of a day and a time, if both are known. -/
def resolveParts (fields : TemporalFields) : Except ResolutionError LocalTime :=
  match fields.resolveDay with
  | .error e => .error e
  | .ok day =>
    match fields.resolveClock with
    | none => .error .insufficient
    | some (seconds, nanoseconds) => .ok ⟨day, seconds, nanoseconds⟩

/-- The fields after those of a second since 1970 in local time were added. Of a leap second the
seconds since 1970 count the second before it or the one after it. -/
def withEpochSecond? (fields : TemporalFields) (epochSecond : Int) : Option TemporalFields := do
  let secondOfMinute := epochSecond % 60
  let start ←
    if fields.second = some 60 then
      if secondOfMinute = 59 then some epochSecond
      else if secondOfMinute = 0 then some (epochSecond - 1)
      else none
    else some epochSecond
  let fields ← if fields.second = some 60 then some fields else fields.set? .second secondOfMinute
  let day := start / 86400
  let fields ← fields.set? .year (Calendar.yearOfDay day)
  let fields ← fields.set? .ordinal (Calendar.ordinalOfDay day)
  let fields ← fields.set? .hour (start / 3600 % 24)
  fields.set? .minute (start / 60 % 60)

/-- The point in local time that fields with a timestamp determine, `offset` seconds ahead of UTC.
-/
def resolveTimestamp (fields : TemporalFields) (timestamp offset : Int) :
    Except ResolutionError LocalTime :=
  if !isCalendarDay ((timestamp + offset) / 86400) then .error .contradictory
  else match fields.withEpochSecond? (timestamp + offset) with
    | none => .error .contradictory
    | some fields => fields.resolveParts

/-- Whether a timestamp, if there is one, is that of a point in local time. -/
def timestampAgrees (fields : TemporalFields) (offset : Int) (t : LocalTime) : Bool :=
  fields.timestamp.all fun timestamp =>
    let seconds := t.epochSeconds - offset
    timestamp == seconds || (1000000000 ≤ t.nanoseconds && timestamp == seconds + 1)

/-- The point in local time that the fields determine, `offset` seconds ahead of UTC. -/
def resolve (fields : TemporalFields) (offset : Int) : Except ResolutionError LocalTime :=
  match fields.resolveParts, fields.timestamp with
  | .ok t, _ => if fields.timestampAgrees offset t then .ok t else .error .contradictory
  | .error .insufficient, some timestamp => fields.resolveTimestamp timestamp offset
  | .error e, _ => .error e

/-- The offset that is applied: one of a day or more is taken as none. -/
def effectiveOffset (fields : TemporalFields) : Int :=
  match fields.offset with
  | some seconds => if seconds.natAbs < 86400 then seconds else 0
  | none => 0

/-- The fields with 1970-01-01 for the date fields that are absent. -/
def withDefaultDate (fields : TemporalFields) : TemporalFields :=
  { fields with
    year := fields.year.or (some 1970)
    month := fields.month.or (some 1)
    day := fields.day.or (some 1) }

/-- The fields with midnight for the time fields that are absent. Midnight says nothing about the
hour of an afternoon. -/
def withDefaultClock (fields : TemporalFields) : TemporalFields :=
  let fields := { fields with
    minute := fields.minute.or (some 0)
    second := fields.second.or (some 0) }
  match fields.afternoon with
  | some true => fields
  | _ => { fields with
      afternoon := some false
      hourOfHalf := fields.hourOfHalf.or (some 0) }

/-- The fields with defaults for the half of them, date or time, that is not enough. -/
def withDefaults (fields : TemporalFields) : TemporalFields :=
  let dated := match fields.resolveDay with
    | .error .insufficient => fields.withDefaultDate
    | _ => fields
  if fields.resolveClock.isNone then dated.withDefaultClock else dated

/-- The milliseconds since 1970 in UTC that the fields determine. -/
def epochMillis? (fields : TemporalFields) : Option Int :=
  let offset := fields.effectiveOffset
  let utc (t : LocalTime) : Int := t.epochMillis - offset * 1000
  match fields.resolve offset with
  | .ok t => some (utc t)
  | .error .insufficient => ((fields.withDefaults.resolve offset).toOption).map utc
  | .error .contradictory => none

end TemporalFields

namespace TemporalFormat

/-- The milliseconds since 1970 of a text in a format. -/
def readMillis? (format : TemporalFormat) (text : List Char) : Option Int :=
  (scanText? format.items text).bind TemporalFields.epochMillis?

/-- The instant of a text in a format. -/
def read? (format : TemporalFormat) (text : List Char) : Option Instant :=
  (format.readMillis? text).map fun millis => ⟨Int64.ofInt millis⟩

end TemporalFormat

end RecordCoercion
