import RecordCoercion.Calendar.Week
import RecordCoercion.Numeric.IntRange
import RecordCoercion.Temporal.Item

/-!
# Fields read from temporal text

`TemporalFields` collects what a text says about a point in time, one optional field for each part.
A field takes a value only from its range, and a value given twice must be the same both times
(`settle?_some_iff`), so the order in which a text names its parts does not matter.
-/

set_option autoImplicit false

namespace RecordCoercion

/-- A field after a value was read for it, unless another value is already known. -/
def settle? {α : Type} [DecidableEq α] (known : Option α) (value : α) : Option (Option α) :=
  if known = none || known = some value then some (some value) else none

/-- A field settles exactly on values that do not contradict what is known. -/
theorem settle?_some_iff {α : Type} [DecidableEq α] (known : Option α) (value : α)
    (result : Option α) :
    settle? known value = some result ↔
      (known = none ∨ known = some value) ∧ result = some value := by
  cases known <;> simp [settle?, eq_comm]

/-- The parts of a point in time that a text has given. -/
structure TemporalFields where
  year : Option Int
  century : Option Nat
  yearOfCentury : Option Nat
  isoYear : Option Int
  isoYearOfCentury : Option Nat
  quarter : Option Nat
  month : Option Nat
  day : Option Nat
  weekFromSunday : Option Nat
  weekFromMonday : Option Nat
  isoWeek : Option Nat
  weekday : Option Calendar.Weekday
  ordinal : Option Nat
  afternoon : Option Bool
  /-- The hour within its half of the day, from 0 to 11. -/
  hourOfHalf : Option Nat
  minute : Option Nat
  /-- The second of the minute; 60 is a leap second. -/
  second : Option Nat
  nanosecond : Option Nat
  /-- Seconds since the start of 1970. -/
  timestamp : Option Int
  /-- Seconds that local time is ahead of UTC. -/
  offset : Option Int
  deriving DecidableEq

namespace TemporalFields

/-- Nothing read yet. -/
def empty : TemporalFields where
  year := none
  century := none
  yearOfCentury := none
  isoYear := none
  isoYearOfCentury := none
  quarter := none
  month := none
  day := none
  weekFromSunday := none
  weekFromMonday := none
  isoWeek := none
  weekday := none
  ordinal := none
  afternoon := none
  hourOfHalf := none
  minute := none
  second := none
  nanosecond := none
  timestamp := none
  offset := none

end TemporalFields

namespace NumericField

/-- The values of a number; years fit 32 bits and timestamps 64. -/
def range : NumericField → IntRange
  | .year | .isoYear => .bits32
  | .century | .yearOfCentury | .isoYearOfCentury => ⟨0, 99⟩
  | .quarter => ⟨1, 4⟩
  | .month => ⟨1, 12⟩
  | .day => ⟨1, 31⟩
  | .weekFromSunday | .weekFromMonday => ⟨0, 53⟩
  | .isoWeek => ⟨1, 53⟩
  | .weekdayFromSunday => ⟨0, 6⟩
  | .weekdayFromMonday => ⟨1, 7⟩
  | .ordinal => ⟨1, 366⟩
  | .hour => ⟨0, 23⟩
  | .hour12 => ⟨1, 12⟩
  | .minute => ⟨0, 59⟩
  | .second => ⟨0, 60⟩
  | .nanosecond => ⟨0, 999999999⟩
  | .timestamp => .bits64

end NumericField

namespace TemporalFields

/-- The fields after the half of the day was read. -/
def setAfternoon? (fields : TemporalFields) (afternoon : Bool) : Option TemporalFields :=
  (settle? fields.afternoon afternoon).map ({ fields with afternoon := · })

/-- The fields after the hour within its half of the day was read. -/
def setHourOfHalf? (fields : TemporalFields) (hour : Nat) : Option TemporalFields :=
  (settle? fields.hourOfHalf hour).map ({ fields with hourOfHalf := · })

/-- The fields after a weekday was read. -/
def setWeekday? (fields : TemporalFields) (weekday : Calendar.Weekday) :
    Option TemporalFields :=
  (settle? fields.weekday weekday).map ({ fields with weekday := · })

/-- The fields after an offset was read. -/
def setOffset? (fields : TemporalFields) (seconds : Int) : Option TemporalFields :=
  (settle? fields.offset seconds).map ({ fields with offset := · })

/-- The fields after a number was read, if it is in range and contradicts nothing. -/
def set? (fields : TemporalFields) (field : NumericField) (n : Int) : Option TemporalFields :=
  if !field.range.contains n then none
  else match field with
    | .year => (settle? fields.year n).map ({ fields with year := · })
    | .century => (settle? fields.century n.toNat).map ({ fields with century := · })
    | .yearOfCentury =>
      (settle? fields.yearOfCentury n.toNat).map ({ fields with yearOfCentury := · })
    | .isoYear => (settle? fields.isoYear n).map ({ fields with isoYear := · })
    | .isoYearOfCentury =>
      (settle? fields.isoYearOfCentury n.toNat).map ({ fields with isoYearOfCentury := · })
    | .quarter => (settle? fields.quarter n.toNat).map ({ fields with quarter := · })
    | .month => (settle? fields.month n.toNat).map ({ fields with month := · })
    | .day => (settle? fields.day n.toNat).map ({ fields with day := · })
    | .weekFromSunday =>
      (settle? fields.weekFromSunday n.toNat).map ({ fields with weekFromSunday := · })
    | .weekFromMonday =>
      (settle? fields.weekFromMonday n.toNat).map ({ fields with weekFromMonday := · })
    | .isoWeek => (settle? fields.isoWeek n.toNat).map ({ fields with isoWeek := · })
    | .weekdayFromSunday => fields.setWeekday? (.ofPosition (n.toNat + 6))
    | .weekdayFromMonday => fields.setWeekday? (.ofPosition (n.toNat + 6))
    | .ordinal => (settle? fields.ordinal n.toNat).map ({ fields with ordinal := · })
    | .hour =>
      (fields.setAfternoon? (decide (12 ≤ n))).bind (·.setHourOfHalf? (n.toNat % 12))
    | .hour12 => fields.setHourOfHalf? (n.toNat % 12)
    | .minute => (settle? fields.minute n.toNat).map ({ fields with minute := · })
    | .second => (settle? fields.second n.toNat).map ({ fields with second := · })
    | .nanosecond => (settle? fields.nanosecond n.toNat).map ({ fields with nanosecond := · })
    | .timestamp => (settle? fields.timestamp n).map ({ fields with timestamp := · })

end TemporalFields

end RecordCoercion
