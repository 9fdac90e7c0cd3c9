import RecordCoercion.Catalog.Form

/-!
# Default formats

`FormatDefaults` holds the formats of the three temporal kinds that are used where a declared type
has none of its own. Strings have no default format. As JSON the defaults are an object with the
members `date_format`, `time_format` and `timestamp_format`, any of which may be missing or null, or
an array with the three in this order, whose tail may be missing. Other members are of no interest
and need not even be readable.
-/

set_option autoImplicit false

namespace RecordCoercion

/-- The formats of temporal kinds where a type has none. -/
structure FormatDefaults where
  date : Option TemporalFormat
  time : Option TemporalFormat
  timestamp : Option TemporalFormat
  deriving DecidableEq

namespace FormatDefaults

/-- No default formats: temporal text is then a count of milliseconds. -/
def empty : FormatDefaults := ⟨none, none, none⟩

/-- The conventional formats of all temporal kinds. -/
def standard : FormatDefaults :=
  ⟨FieldKind.date.defaultFormat?, FieldKind.time.defaultFormat?, FieldKind.timestamp.defaultFormat?⟩

/-- The default format of a kind. -/
def format? (defaults : FormatDefaults) : FieldKind → Option TemporalFormat
  | .date => defaults.date
  | .time => defaults.time
  | .timestamp => defaults.timestamp
  | _ => none

/-- The format that is used for a type: its own, or the default of its kind. -/
def effective? (defaults : FormatDefaults) (type : DeclaredType) : Option TemporalFormat :=
  type.format?.or (defaults.format? type.kind)

/-- The form of the defaults. -/
def toForm (defaults : FormatDefaults) : Json :=
  .object [
    ("date_format", Json.ofOption TemporalFormat.toForm defaults.date),
    ("time_format", Json.ofOption TemporalFormat.toForm defaults.time),
    ("timestamp_format", Json.ofOption TemporalFormat.toForm defaults.timestamp)]

/-- The defaults with a form. -/
def ofForm : Json → Except FormError FormatDefaults
  | .object members => do
    let date ← TemporalFormat.ofMember? "date_format" members
    let time ← TemporalFormat.ofMember? "time_format" members
    let timestamp ← TemporalFormat.ofMember? "timestamp_format" members
    return ⟨date, time, timestamp⟩
  | .array formats => do
    match ← formats.mapM TemporalFormat.ofForm? with
    | [] => return empty
    | [date] => return ⟨date, none, none⟩
    | [date, time] => return ⟨date, time, none⟩
    | [date, time, timestamp] => return ⟨date, time, timestamp⟩
    | _ => .error .malformed
  | _ => .error .malformed

/-- The defaults with a written form. -/
def ofText (text : String) : Except FormError FormatDefaults := Json.readAs ofForm text

end FormatDefaults

end RecordCoercion
