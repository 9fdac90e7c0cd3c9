import RecordCoercion.Text.Characters
import RecordCoercion.Temporal.Fields
import RecordCoercion.Temporal.Render

/-!
# Reading the fields of temporal text

The items of a format read a text from left to right. Each takes what it can from the front of the
text, records the fields it has read and leaves the rest; `scanText?` succeeds if all items do and
nothing is left. Numbers are greedy up to their width, blanks in a pattern match any run of blanks,
and names are read without regard to case.
-/

set_option autoImplicit false

namespace RecordCoercion

/-- What an item has recorded, and what it has left of the text. -/
abbrev Scanned := TemporalFields × List Char

/-- The digits at the front of a text, at most `width` of them if it is given, and the rest. -/
def takeDigits (width : Option Nat) (text : List Char) : List Char × List Char :=
  match width with
  | none => splitDigits text
  | some width =>
    let digits := (text.take width).takeWhile Char.isDigit
    (digits, text.drop digits.length)

/-- The number at the front of a text, of at least one digit, and the rest. -/
def scanDigits? (width : Option Nat) (text : List Char) : Option (Nat × List Char) :=
  match takeDigits width text with
  | ([], _) => none
  | (digits, rest) => some (numeralValue digits, rest)

/-- The fraction in exactly `count` digits at the front of a text, in nanoseconds, and the rest. -/
def scanFixedFraction? (count : Nat) (text : List Char) : Option (Nat × List Char) :=
  match takeDigits (some count) text with
  | (digits, rest) =>
    if digits.length = count then some (numeralValue digits * Nat.pow 10 (9 - count), rest)
    else none

/-- The fraction in one or more digits at the front of a text, in nanoseconds, and the rest. Digits
beyond the ninth are dropped. -/
def scanFraction? (text : List Char) : Option (Nat × List Char) :=
  match splitDigits text with
  | ([], _) => none
  | (digits, rest) =>
    let kept := digits.take 9
    some (numeralValue kept * Nat.pow 10 (9 - kept.length), rest)

/-- The position in a list of names of the name at the front of a text, and the rest. Three letters
are enough; the remaining letters are taken only if the long form is asked for. -/
def scanName? (names : List String) (long : Bool) (text : List Char) : Option (Nat × List Char) :=
  names.zipIdx.findSome? fun (name, index) =>
    (dropLetters? (name.toList.take 3) text).map fun rest =>
      (index, if long then (dropLetters? (name.toList.drop 3) rest).getD rest else rest)

/-- The sign of an offset at the front of a text: whether it is a minus, and the rest. The minus may
also be the mathematical one. -/
def scanOffsetSign? : List Char → Option (Bool × List Char)
  | '+' :: rest => some (false, rest)
  | '-' :: rest => some (true, rest)
  | '\u2212' :: rest => some (true, rest)
  | _ => none

/-- Two digits at the front of a text, and the rest. -/
def scanTwoDigits? (text : List Char) : Option (Nat × List Char) :=
  match takeDigits (some 2) text with
  | ([a, b], rest) => some (numeralValue [a, b], rest)
  | _ => none

/-- A signed offset at the front of a text, in seconds, and the rest: two digits of hours, colons
and blanks, two digits of minutes below 60. At the end of the text the minutes may be left out if
`hoursSuffice`. -/
def scanSignedOffset? (hoursSuffice : Bool) (text : List Char) : Option (Int × List Char) :=
  match scanOffsetSign? text with
  | none => none
  | some (negative, unsigned) =>
    match scanTwoDigits? unsigned with
    | none => none
    | some (hours, afterHours) =>
      let signed (seconds : Nat) : Int := if negative then -(seconds : Int) else seconds
      let minutesText := afterHours.dropWhile fun c => c == ':' || isBlank c
      if minutesText.isEmpty && hoursSuffice then some (signed (hours * 3600), [])
      else match scanTwoDigits? minutesText with
        | none => none
        | some (minutes, rest) =>
          if minutes < 60 then some (signed (hours * 3600 + minutes * 60), rest) else none

/-- An offset or the letter `Z` for none, in seconds, and the rest. -/
def scanZuluOffset? (hoursSuffice : Bool) (text : List Char) : Option (Int × List Char) :=
  match text with
  | 'Z' :: rest => some (0, rest)
  | 'z' :: rest => some (0, rest)
  | _ => scanSignedOffset? hoursSuffice text

namespace NumericField

/-- The greatest number of digits that are read; `none` is unlimited. -/
def width : NumericField → Option Nat
  | .year | .isoYear => some 4
  | .quarter | .weekdayFromSunday | .weekdayFromMonday => some 1
  | .ordinal => some 3
  | .nanosecond => some 9
  | .timestamp => none
  | _ => some 2

/-- Whether a number may be written with a sign, which also lifts the limit on its digits. -/
def isSigned : NumericField → Bool
  | .year | .isoYear => true
  | _ => false

/-- The number at the front of a text after blanks, and the rest. -/
def scanValue? (field : NumericField) (text : List Char) : Option (Int × List Char) :=
  match field.isSigned, trimStart text with
  | true, '-' :: rest => (scanDigits? none rest).map fun (n, rest) => (-(n : Int), rest)
  | true, '+' :: rest => (scanDigits? none rest).map fun (n, rest) => ((n : Int), rest)
  | _, text => (scanDigits? field.width text).map fun (n, rest) => ((n : Int), rest)

/-- Reads a number from the front of a text. -/
def scan? (field : NumericField) (fields : TemporalFields) (text : List Char) : Option Scanned :=
  match field.scanValue? text with
  | none => none
  | some (n, rest) => (fields.set? field n).map (·, rest)

end NumericField

namespace FractionStyle

/-- The nanoseconds at the front of a text, if any are given, and the rest. A fraction that starts
with a point may be missing as a whole. -/
def scan? (style : FractionStyle) (text : List Char) : Option (Option Nat × List Char) :=
  match style, text with
  | .fitting, '.' :: rest => (scanFraction? rest).map fun (n, rest) => (some n, rest)
  | .dotted count, '.' :: rest =>
    (scanFixedFraction? count rest).map fun (n, rest) => (some n, rest)
  | .bare count, text => (scanFixedFraction? count text).map fun (n, rest) => (some n, rest)
  | _, text => some (none, text)

end FractionStyle

/-- Reads a fraction of a second from the front of a text. -/
def TemporalFields.scanFraction? (style : FractionStyle) (fields : TemporalFields)
    (text : List Char) : Option Scanned :=
  match style.scan? text with
  | none => none
  | some (none, rest) => some (fields, rest)
  | some (some n, rest) => (fields.set? .nanosecond n).map (·, rest)

/-- Reads one character from the front of a text. -/
def scanChar? (c : Char) (fields : TemporalFields) : List Char → Option Scanned
  | [] => none
  | d :: rest => if d = c then some (fields, rest) else none

/-- The offset at the end of a date-time: `UTC` in any case, `Z`, or a signed offset. -/
def scanDateTimeOffset? (text : List Char) : Option (Int × List Char) :=
  match dropLetters? "UTC".toList text with
  | some rest => some (0, rest)
  | none => scanZuluOffset? false text

/-- Reads a number, blanks and a separator from the front of a text. -/
def scanSeparated? (field : NumericField) (separator : Char) (fields : TemporalFields)
    (text : List Char) : Option Scanned :=
  match field.scan? fields text with
  | none => none
  | some (fields, rest) => scanChar? separator fields (trimStart rest)

/-- Reads a date-time as in RFC 3339 from the front of a text; blanks may stand between its parts,
and a blank in place of the `T`. -/
def scanDateTime? (fields : TemporalFields) (text : List Char) : Option Scanned := do
  let (fields, text) ← scanSeparated? .year '-' fields text
  let (fields, text) ← scanSeparated? .month '-' fields text
  let (fields, text) ← NumericField.day.scan? fields text
  let text ← match text with
    | c :: rest => if c = 'T' || c = 't' || c = ' ' then some rest else none
    | [] => none
  let (fields, text) ← scanSeparated? .hour ':' fields text
  let (fields, text) ← scanSeparated? .minute ':' fields text
  let (fields, text) ← NumericField.second.scan? fields text
  let (fields, text) ← fields.scanFraction? .fitting text
  let (seconds, rest) ← scanDateTimeOffset? (trimStart text)
  let fields ← fields.setOffset? seconds
  return (fields, rest)

namespace Item

/-- What an item reads from the front of a text. -/
def scan? (fields : TemporalFields) (text : List Char) : Item → Option Scanned
  | .literal c => scanChar? c fields text
  | .blank _ => some (fields, trimStart text)
  | .number field _ => field.scan? fields text
  | .monthName long =>
    match scanName? monthNames long text with
    | none => none
    | some (index, rest) => (fields.set? .month (index + 1 : Nat)).map (·, rest)
  | .weekdayName long =>
    match scanName? weekdayNames long text with
    | none => none
    | some (index, rest) => (fields.setWeekday? (.ofPosition index)).map (·, rest)
  | .meridiem _ =>
    match dropLetters? "am".toList text, dropLetters? "pm".toList text with
    | some rest, _ => (fields.setAfternoon? false).map (·, rest)
    | none, some rest => (fields.setAfternoon? true).map (·, rest)
    | none, none => none
  | .fraction style => fields.scanFraction? style text
  | .zoneName => some (fields, text.dropWhile (!isBlank ·))
  | .offset style =>
    let scanned := match style with
      | .permissive => scanZuluOffset? true (trimStart text)
      | _ => scanSignedOffset? false (trimStart text)
    match scanned with
    | none => none
    | some (seconds, rest) => (fields.setOffset? seconds).map (·, rest)
  | .dateTime => scanDateTime? fields text

end Item

/-- What a list of items reads from the front of a text. -/
def scanItems? : List Item → TemporalFields → List Char → Option Scanned
  | [], fields, text => some (fields, text)
  | item :: items, fields, text =>
    match item.scan? fields text with
    | none => none
    | some (fields, rest) => scanItems? items fields rest

/-- The fields of a text that a list of items reads to its end. -/
def scanText? (items : List Item) (text : List Char) : Option TemporalFields :=
  match scanItems? items .empty text with
  | some (fields, []) => some fields
  | _ => none

end RecordCoercion
