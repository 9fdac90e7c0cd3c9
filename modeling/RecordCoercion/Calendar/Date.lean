/-!
# Years and dates of the proleptic Gregorian calendar

Days are numbered from 1970-01-01, which is day zero, and years by integers, the year zero included.
`daysBeforeYear` is the number of the first day of a year and `yearOfDay` the year of a day;
`daysBeforeYear_yearOfDay_le` and `lt_daysBeforeYear_yearOfDay_succ` say that a day lies in its
year. A `Date` is a year, a month from 1 and a day of the month from 1. `Date.dayNumber` numbers a
date and `Date.ofDayNumber` finds the date of a day; both work through the ordinal, the position of
the day in its year. `Date.ofParts?` and `dayOfOrdinal?` check what they are given.
-/

set_option autoImplicit false

namespace RecordCoercion.Calendar

/-! ## Years -/

/-- Every fourth year is a leap year, every hundredth is not, every four-hundredth is. -/
def isLeap (year : Int) : Bool := year % 4 == 0 && (year % 100 != 0 || year % 400 == 0)

/-- The number of days of a year. -/
def yearLength (year : Int) : Nat := if isLeap year then 366 else 365

/-- The number of the first day of a year. -/
def daysBeforeYear (year : Int) : Int :=
  365 * (year - 1970) + (year - 1) / 4 - (year - 1) / 100 + (year - 1) / 400 - 477

/-- The year that a day lies in. Four hundred years have 146097 days, and a year taken from that
mean length is at most one year away from the right one. -/
def yearOfDay (day : Int) : Int :=
  let guess := 1970 + 400 * day / 146097
  if day < daysBeforeYear guess then guess - 1
  else if daysBeforeYear (guess + 1) ≤ day then guess + 1
  else guess

/-- The next year starts one year length later. -/
theorem daysBeforeYear_succ (year : Int) :
    daysBeforeYear (year + 1) = daysBeforeYear year + yearLength year := by
  simp only [daysBeforeYear, yearLength, isLeap, Bool.and_eq_true, Bool.or_eq_true, beq_iff_eq,
    bne_iff_ne]
  split <;> omega

/-- A year starts at or before each of its days. -/
theorem daysBeforeYear_yearOfDay_le (day : Int) : daysBeforeYear (yearOfDay day) ≤ day := by
  unfold yearOfDay
  dsimp only
  split
  · simp only [daysBeforeYear] at *
    omega
  · split <;> simp only [daysBeforeYear] at * <;> omega

/-- The next year starts after each day of a year. -/
theorem lt_daysBeforeYear_yearOfDay_succ (day : Int) :
    day < daysBeforeYear (yearOfDay day + 1) := by
  unfold yearOfDay
  dsimp only
  split
  · next h =>
    rw [Int.sub_add_cancel]
    exact h
  · split <;> simp only [daysBeforeYear] at * <;> omega

/-! ## Dates -/

/-- The lengths of the months of a year. -/
def monthLengths (year : Int) : List Nat :=
  [31, if isLeap year then 29 else 28, 31, 30, 31, 30, 31, 31, 30, 31, 30, 31]

/-- The number of days of months with the given lengths. -/
def totalLength : List Nat → Nat
  | [] => 0
  | length :: rest => length + totalLength rest

/-- The twelve months make up the year. -/
theorem totalLength_monthLengths (year : Int) :
    totalLength (monthLengths year) = yearLength year := by
  unfold monthLengths yearLength
  split <;> rfl

/-- The month, from zero, and the day in it, from zero, of a day of the year. -/
def placeInMonths : List Nat → Nat → Nat × Nat
  | [], offset => (0, offset)
  | length :: rest, offset =>
    if offset < length then (0, offset)
    else
      let (month, day) := placeInMonths rest (offset - length)
      (month + 1, day)

/-- A date; `Date.ofParts?` builds those that exist. -/
structure Date where
  year : Int
  month : Nat
  day : Nat
  deriving DecidableEq

namespace Date

/-- The date with the given parts, if there is one. -/
def ofParts? (year : Int) (month day : Nat) : Option Date :=
  match month with
  | 0 => none
  | index + 1 =>
    match (monthLengths year)[index]? with
    | some length => if 1 ≤ day && day ≤ length then some ⟨year, month, day⟩ else none
    | none => none

/-- The number of the day, counted from 1970-01-01. -/
def dayNumber (d : Date) : Int :=
  daysBeforeYear d.year + totalLength ((monthLengths d.year).take (d.month - 1)) + d.day - 1

/-- The date of a day. -/
def ofDayNumber (n : Int) : Date :=
  let year := yearOfDay n
  let (month, day) := placeInMonths (monthLengths year) (n - daysBeforeYear year).toNat
  ⟨year, month + 1, day + 1⟩

/-- The quarter of the year, from 1. -/
def quarter (d : Date) : Nat := (d.month - 1) / 3 + 1

end Date

/-- The position of a day in its year, from 1. -/
def ordinalOfDay (n : Int) : Nat := (n - daysBeforeYear (yearOfDay n)).toNat + 1

/-- The day at a position of a year, if the year has that many days. -/
def dayOfOrdinal? (year : Int) (ordinal : Int) : Option Int :=
  if 1 ≤ ordinal && ordinal ≤ yearLength year then some (daysBeforeYear year + ordinal - 1)
  else none

end RecordCoercion.Calendar
