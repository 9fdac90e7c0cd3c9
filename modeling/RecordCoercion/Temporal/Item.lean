/-!
# Items of a temporal pattern

A pattern is a text in which `%` starts a specifier; every other character stands for itself.
`patternItems?` splits a pattern into its items and fails on an unknown or unfinished specifier. A
single number may have its padding changed by `-`, `_` or `0` after the `%`; a specifier that stands
for several items, such as `%F`, may not. Outside specifiers each character is an item of its own,
so the items of two joined patterns without `%` at the seam are the joined items.
-/

set_option autoImplicit false

namespace RecordCoercion

/-- How a written number is filled up to its width. -/
inductive Padding
  | zeros
  | spaces
  | absent
  deriving DecidableEq

/-- The numbers that a pattern can ask for. -/
inductive NumericField
  | year
  | century
  | yearOfCentury
  | isoYear
  | isoYearOfCentury
  | quarter
  | month
  | day
  /-- The week of the year, weeks starting on Sunday. -/
  | weekFromSunday
  /-- The week of the year, weeks starting on Monday. -/
  | weekFromMonday
  | isoWeek
  /-- The weekday, Sunday being 0. -/
  | weekdayFromSunday
  /-- The weekday, Monday being 1. -/
  | weekdayFromMonday
  | ordinal
  | hour
  | hour12
  | minute
  | second
  | nanosecond
  /-- Seconds since 1970-01-01. -/
  | timestamp
  deriving DecidableEq

/-- How a fraction of a second is written. -/
inductive FractionStyle
  /-- A point and three, six or nine digits, or nothing for a whole second. -/
  | fitting
  /-- A point and the given number of digits. -/
  | dotted (digits : Nat)
  /-- The given number of digits. -/
  | bare (digits : Nat)
  deriving DecidableEq

/-- How an offset from UTC is written. -/
inductive OffsetStyle
  /-- As in `+0000`. -/
  | plain
  /-- As in `+00:00`. -/
  | colon
  /-- As in `+00:00:00`. -/
  | seconds
  /-- As in `+00`. -/
  | hours
  /-- With optional minutes, or `Z`; this one can be read and not written. -/
  | permissive
  deriving DecidableEq

/-- One item of a pattern. -/
inductive Item
  | literal (c : Char)
  | blank (c : Char)
  | number (field : NumericField) (padding : Padding)
  | monthName (long : Bool)
  | weekdayName (long : Bool)
  | meridiem (capital : Bool)
  | fraction (style : FractionStyle)
  | zoneName
  | offset (style : OffsetStyle)
  /-- A date-time as in RFC 3339. -/
  | dateTime
  deriving DecidableEq

namespace Item

/-- The number that a specifier letter asks for, with its usual padding. -/
def numberOf? : Char → Option (NumericField × Padding)
  | 'Y' => some (.year, .zeros)
  | 'C' => some (.century, .zeros)
  | 'y' => some (.yearOfCentury, .zeros)
  | 'q' => some (.quarter, .absent)
  | 'm' => some (.month, .zeros)
  | 'd' => some (.day, .zeros)
  | 'e' => some (.day, .spaces)
  | 'w' => some (.weekdayFromSunday, .absent)
  | 'u' => some (.weekdayFromMonday, .absent)
  | 'U' => some (.weekFromSunday, .zeros)
  | 'W' => some (.weekFromMonday, .zeros)
  | 'G' => some (.isoYear, .zeros)
  | 'g' => some (.isoYearOfCentury, .zeros)
  | 'V' => some (.isoWeek, .zeros)
  | 'j' => some (.ordinal, .zeros)
  | 'H' => some (.hour, .zeros)
  | 'k' => some (.hour, .spaces)
  | 'I' => some (.hour12, .zeros)
  | 'l' => some (.hour12, .spaces)
  | 'M' => some (.minute, .zeros)
  | 'S' => some (.second, .zeros)
  | 'f' => some (.nanosecond, .zeros)
  | 's' => some (.timestamp, .absent)
  | _ => none

/-- The year in full, with zeros. -/
private def year : Item := .number .year .zeros
/-- The month in two places, with zeros. -/
private def month : Item := .number .month .zeros
/-- The day of the month in two places, with zeros. -/
private def day : Item := .number .day .zeros
/-- The day of the month in two places, with spaces. -/
private def dayInSpaces : Item := .number .day .spaces
/-- The hour of the day in two places, with zeros. -/
private def hour : Item := .number .hour .zeros
/-- The minute in two places, with zeros. -/
private def minute : Item := .number .minute .zeros
/-- The second in two places, with zeros. -/
private def second : Item := .number .second .zeros
/-- Hour, minute and second with colons between them. -/
private def clock : List Item := [hour, .literal ':', minute, .literal ':', second]

/-- The items that the other specifier letters stand for. -/
def itemsOf? : Char → Option (List Item)
  | 'b' | 'h' => some [.monthName false]
  | 'B' => some [.monthName true]
  | 'a' => some [.weekdayName false]
  | 'A' => some [.weekdayName true]
  | 'P' => some [.meridiem false]
  | 'p' => some [.meridiem true]
  | 'D' | 'x' => some [month, .literal '/', day, .literal '/', .number .yearOfCentury .zeros]
  | 'F' => some [year, .literal '-', month, .literal '-', day]
  | 'v' => some [dayInSpaces, .literal '-', .monthName false, .literal '-', year]
  | 'R' => some [hour, .literal ':', minute]
  | 'T' | 'X' => some clock
  | 'r' => some [.number .hour12 .zeros, .literal ':', minute, .literal ':', second, .blank ' ',
      .meridiem true]
  | 'c' => some ([.weekdayName false, .blank ' ', .monthName false, .blank ' ', dayInSpaces,
      .blank ' '] ++ clock ++ [.blank ' ', year])
  | 'Z' => some [.zoneName]
  | 'z' => some [.offset .plain]
  | '+' => some [.dateTime]
  | 't' => some [.blank '\t']
  | 'n' => some [.blank '\n']
  | '%' => some [.literal '%']
  | _ => none

/-- The padding that a character after `%` asks for. -/
def paddingOf? : Char → Option Padding
  | '-' => some .absent
  | '_' => some .spaces
  | '0' => some .zeros
  | _ => none

/-- The number of fraction digits that a digit stands for. -/
def fractionDigits? : Char → Option Nat
  | '3' => some 3
  | '6' => some 6
  | '9' => some 9
  | _ => none

/-- A specifier whose first character is not a letter of its own, read from what follows `%`. -/
def specialSpecifier? : List Char → Option (List Item × Nat)
  | ':' :: 'z' :: _ => some ([.offset .colon], 2)
  | ':' :: ':' :: 'z' :: _ => some ([.offset .seconds], 3)
  | ':' :: ':' :: ':' :: 'z' :: _ => some ([.offset .hours], 4)
  | '#' :: 'z' :: _ => some ([.offset .permissive], 2)
  | '.' :: 'f' :: _ => some ([.fraction .fitting], 2)
  | '.' :: c :: 'f' :: _ => (fractionDigits? c).map fun digits => ([.fraction (.dotted digits)], 3)
  | c :: 'f' :: _ => (fractionDigits? c).map fun digits => ([.fraction (.bare digits)], 2)
  | _ => none

/-- The items of the specifier at the front of what follows `%`, and its length. -/
def specifier? : List Char → Option (List Item × Nat)
  | [] => none
  | c :: rest =>
    match numberOf? c, itemsOf? c, paddingOf? c with
    | some (field, padding), _, _ => some ([.number field padding], 1)
    | none, some items, _ => some (items, 1)
    | none, none, some padding =>
      (rest.head?.bind numberOf?).map fun (field, _) => ([.number field padding], 2)
    | none, none, none => specialSpecifier? (c :: rest)

/-- The item of a character outside specifiers. -/
def ofChar (blank : Char → Bool) (c : Char) : Item :=
  if blank c then .blank c else .literal c

end Item

end RecordCoercion
