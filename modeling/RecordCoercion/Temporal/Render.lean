import RecordCoercion.Text.Characters
import RecordCoercion.Temporal.Instant
import RecordCoercion.Temporal.Pattern

/-!
# Writing instants with a format

Each item of a format writes one part of a moment in UTC, and the text of the moment is their
concatenation. The permissive offset `%#z` is for reading only: a format that holds one cannot
write, and `TemporalFormat.render` reports it as `unrenderable` whatever the moment. Without a
format an instant is displayed as an RFC 3339 date-time with milliseconds, or as its plain count
where the calendar ends.
-/

set_option autoImplicit false

namespace RecordCoercion

namespace Padding

/-- Digits filled up to a width. -/
def fill (padding : Padding) (width : Nat) (digits : List Char) : List Char :=
  match padding with
  | .zeros => padLeft '0' width digits
  | .spaces => padLeft ' ' width digits
  | .absent => digits

/-- A number filled up to a width; zeros stand after its sign, spaces before it. -/
def fillSigned (padding : Padding) (width : Nat) (sign digits : List Char) : List Char :=
  match padding with
  | .zeros => sign ++ padLeft '0' (width - sign.length) digits
  | .spaces => padLeft ' ' width (sign ++ digits)
  | .absent => sign ++ digits

end Padding

/-- The names of the months. -/
def monthNames : List String :=
  ["January", "February", "March", "April", "May", "June", "July", "August", "September", "October",
    "November", "December"]

/-- The names of the weekdays, from Monday. -/
def weekdayNames : List String :=
  ["Monday", "Tuesday", "Wednesday", "Thursday", "Friday", "Saturday", "Sunday"]

/-- The name at a position of a list, cut to three letters unless the long form is asked for. -/
def nameText (names : List String) (index : Nat) (long : Bool) : List Char :=
  let name := ((names[index]?).getD "").toList
  if long then name else name.take 3

namespace NumericField

/-- A year: four digits from 0 to 9999, otherwise a sign and at least four digits. -/
def yearText (padding : Padding) (year : Int) : List Char :=
  let digits := numeral year.natAbs
  if year < 0 then padding.fillSigned 5 ['-'] digits
  else if year ≤ 9999 then padding.fill 4 digits
  else padding.fillSigned 5 ['+'] digits

/-- A number below 256 in two places; the tens are the character that stands that many places after
`0`, a digit for every number below one hundred. -/
def twoPlaces (padding : Padding) (n : Nat) : List Char :=
  let ones := Char.ofNat (48 + n % 10)
  match n / 10, padding with
  | 0, .absent => [ones]
  | 0, .spaces => [' ', ones]
  | tens, _ => [Char.ofNat (48 + tens), ones]

/-- The written form of a number of a moment. A century is kept in one byte. -/
def text (field : NumericField) (padding : Padding) (m : Moment) : List Char :=
  let date := m.date
  let isoYear := Calendar.isoYearOfDay m.day
  let weekday := (Calendar.weekdayOfDay m.day).val
  match field with
  | .year => yearText padding date.year
  | .century => twoPlaces padding (date.year / 100 % 256).toNat
  | .yearOfCentury => twoPlaces padding (date.year % 100).toNat
  | .isoYear => yearText padding isoYear
  | .isoYearOfCentury => twoPlaces padding (isoYear % 100).toNat
  | .quarter => numeral date.quarter
  | .month => twoPlaces padding date.month
  | .day => twoPlaces padding date.day
  | .weekFromSunday => twoPlaces padding (Calendar.weekOfDay Calendar.sunday m.day)
  | .weekFromMonday => twoPlaces padding (Calendar.weekOfDay Calendar.monday m.day)
  | .isoWeek => twoPlaces padding (Calendar.isoWeekOfDay m.day)
  | .weekdayFromSunday => numeral ((weekday + 1) % 7)
  | .weekdayFromMonday => numeral (weekday + 1)
  | .ordinal => padding.fill 3 (numeral (Calendar.ordinalOfDay m.day))
  | .hour => twoPlaces padding m.hour
  | .hour12 => twoPlaces padding ((m.hour + 11) % 12 + 1)
  | .minute => twoPlaces padding m.minute
  | .second => twoPlaces padding m.second
  | .nanosecond => padding.fill 9 (numeral (m.millisOfSecond * 1000000))
  | .timestamp =>
    let sign := if m.epochSeconds < 0 then ['-'] else []
    padding.fillSigned 9 sign (numeral m.epochSeconds.natAbs)

end NumericField

namespace FractionStyle

/-- The first digits of the fraction of a second, of which only three can differ from zero. -/
def digits (m : Moment) (count : Nat) : List Char :=
  (padLeft '0' 3 (numeral m.millisOfSecond) ++ List.replicate 6 '0').take count

/-- The written fraction of a second. -/
def text (style : FractionStyle) (m : Moment) : List Char :=
  match style with
  | .fitting => if m.millisOfSecond = 0 then [] else '.' :: digits m 3
  | .dotted count => '.' :: digits m count
  | .bare count => digits m count

end FractionStyle

namespace OffsetStyle

/-- The written offset of UTC; the permissive form has none. -/
def text? : OffsetStyle → Option (List Char)
  | .plain => some "+0000".toList
  | .colon => some "+00:00".toList
  | .seconds => some "+00:00:00".toList
  | .hours => some "+00".toList
  | .permissive => none

end OffsetStyle

namespace Moment

/-- The date of a moment, as in `1970-01-01`. -/
def dateText (m : Moment) : List Char :=
  NumericField.year.text .zeros m ++ '-' :: NumericField.month.text .zeros m ++
    '-' :: NumericField.day.text .zeros m

/-- The time of day of a moment in whole seconds, as in `00:00:00`. -/
def clockText (m : Moment) : List Char :=
  NumericField.hour.text .zeros m ++ ':' :: NumericField.minute.text .zeros m ++
    ':' :: NumericField.second.text .zeros m

/-- The date-time of a moment with a style of fraction, without an offset. -/
def dateTimeText (style : FractionStyle) (m : Moment) : List Char :=
  m.dateText ++ 'T' :: m.clockText ++ style.text m

end Moment

/-- The displayed text of an instant. -/
def Instant.display (i : Instant) : List Char :=
  match i.moment? with
  | some m => m.dateTimeText (.dotted 3) ++ ['Z']
  | none => signedNumeral i.epochMillis.toInt

namespace Item

/-- What an item writes of a moment, if it can write at all. -/
def text? (m : Moment) : Item → Option (List Char)
  | .literal c => some [c]
  | .blank c => some [c]
  | .number field padding => some (field.text padding m)
  | .monthName long => some (nameText monthNames (m.date.month - 1) long)
  | .weekdayName long => some (nameText weekdayNames (Calendar.weekdayOfDay m.day).val long)
  | .meridiem capital =>
    let half := if m.hour < 12 then "am" else "pm"
    some (if capital then half.toList.map Char.toUpper else half.toList)
  | .fraction style => some (style.text m)
  | .zoneName => some "UTC".toList
  | .offset style => style.text?
  | .dateTime => some (m.dateTimeText .fitting ++ "+00:00".toList)

end Item

/-- Why an instant has no text in a format. -/
inductive RenderError
  /-- The calendar does not reach the instant. -/
  | outOfRange
  /-- The format holds an item that can only be read. -/
  | unrenderable
  deriving DecidableEq

namespace TemporalFormat

/-- What the items of a format write of a moment. -/
def textOfItems? (m : Moment) (items : List Item) : Option (List Char) :=
  (items.mapM (Item.text? m)).map List.flatten

/-- The text of an instant in a format. -/
def render (format : TemporalFormat) (i : Instant) : Except RenderError (List Char) :=
  match i.moment? with
  | none => .error .outOfRange
  | some m =>
    match textOfItems? m format.items with
    | some text => .ok text
    | none => .error .unrenderable

/-- Whether a format can write. -/
def isRenderable (format : TemporalFormat) : Bool :=
  !format.items.contains (.offset .permissive)

end TemporalFormat

end RecordCoercion
