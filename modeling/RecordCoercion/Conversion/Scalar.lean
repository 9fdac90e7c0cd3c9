import RecordCoercion.Conversion.Defaults
import RecordCoercion.Conversion.Failure
import RecordCoercion.Conversion.Number
import RecordCoercion.Temporal.Resolution
import RecordCoercion.Text.Characters
import RecordCoercion.Value.Key

/-!
# Conversion to the kinds without parts

For each kind that is not made of other types there is one function that converts a value to it,
giving the reason where it cannot, and one that tells whether it can without building the result.
Null is dealt with before these are asked.
-/

set_option autoImplicit false

namespace RecordCoercion

/-- The truth value of the texts `true` and `false` in any case. -/
def readBoolean? (text : List Char) : Option Bool :=
  if sameLetters text "true".toList then some true
  else if sameLetters text "false".toList then some false
  else none

/-- Converts to a boolean. -/
def toBoolean : Value → Except Reason Value
  | .boolean b => .ok (.boolean b)
  | .string text =>
    match readBoolean? text.toList with
    | some b => .ok (.boolean b)
    | none => .error (.invalidLiteral .boolean)
  | _ => .error .incompatible

/-- Whether a value can be converted to a boolean. -/
def acceptsBoolean : Value → Bool
  | .boolean _ => true
  | .string text => (readBoolean? text.toList).isSome
  | _ => false

/-- Converts to a character, the first one of a text. -/
def toChar : Value → Except Reason Value
  | .char c => .ok (.char c)
  | .string text =>
    match text.toList with
    | c :: _ => .ok (.char c)
    | [] => .error .emptyText
  | _ => .error .incompatible

/-- Whether a value can be converted to a character. -/
def acceptsChar : Value → Bool
  | .char _ => true
  | .string text => !text.isEmpty
  | _ => false

namespace NumericKind

/-- Converts to a number. A value of the kind itself stays as it is, and a point in time is a 64-bit
integer. -/
def convert (kind : NumericKind) (v : Value) : Except Reason Value :=
  if v.kind? = some kind.kind then .ok v
  else match v with
    | .string text =>
      match kind.read? text.toList with
      | some w => .ok w
      | none => .error (.invalidLiteral kind.kind)
    | v =>
      match v.instant?, Number.ofValue? v with
      | some i, _ => if kind = long then .ok (.long i.epochMillis) else .error .incompatible
      | none, some number =>
        match kind.ofNumber? number with
        | some w => .ok w
        | none => .error .nonFinite
      | none, none => .error .incompatible

/-- Whether a value can be converted to a number. -/
def accepts (kind : NumericKind) : Value → Bool
  | .string text => (kind.read? text.toList).isSome
  | v =>
    if v.isTemporal then kind == long
    else match Number.ofValue? v with
      | some number => kind != bigInt || number.isFinite
      | none => false

end NumericKind

/-- The kinds of points in time. -/
inductive TemporalKind
  | date
  | time
  | timestamp
  deriving DecidableEq

namespace TemporalKind

/-- The kind of fields that hold points in time of a kind. -/
def kind : TemporalKind → FieldKind
  | date => .date
  | time => .time
  | timestamp => .timestamp

/-- The value of a kind at an instant. -/
def value : TemporalKind → Instant → Value
  | date, i => .date i
  | time, i => .time i
  | timestamp, i => .timestamp i

/-- The instant of a text, blanks around it being ignored: none for a blank text, and otherwise by
the format if there is one and as a count of milliseconds if not. -/
def readInstant (format : Option TemporalFormat) (text : List Char) :
    Except Reason (Option Instant) :=
  let text := trim text
  if text.isEmpty then .ok none
  else match format with
    | none =>
      match readSigned? text with
      | some n =>
        if IntRange.bits64.contains n then .ok (some ⟨.ofInt n⟩) else .error .notEpochMillis
      | none => .error .notEpochMillis
    | some format =>
      match format.read? text with
      | some i => .ok (some i)
      | none => .error (.formatMismatch format)

/-- Converts to a point in time with a format for text. A blank text becomes null. -/
def convert (kind : TemporalKind) (format : Option TemporalFormat) (v : Value) :
    Except Reason Value :=
  match v.instant?, Number.ofValue? v, v with
  | some i, _, _ => .ok (kind.value i)
  | none, some number, _ => .ok (kind.value ⟨number.toInt64⟩)
  | none, none, .string text =>
    match readInstant format text.toList with
    | .ok (some i) => .ok (kind.value i)
    | .ok none => .ok .null
    | .error reason => .error reason
  | none, none, _ => .error .incompatible

/-- Whether a value can be converted to a point in time that is not null. -/
def accepts (format : Option TemporalFormat) : Value → Bool
  | .string text =>
    match readInstant format text.toList with
    | .ok (some _) => true
    | _ => false
  | v => v.isTemporal || v.isNumeric

end TemporalKind

/-- Converts to an array, which only arrays are. -/
def toArray : Value → Except Reason Value
  | .array items => .ok (.array items)
  | _ => .error .incompatible

/-- A key as text; null stays null. -/
def textKey (key : Value) : Value :=
  match key.rendered? with
  | some text => .string text
  | none => .null

/-- Entries under their keys as text, a later entry replacing an earlier one of the same text. -/
def textKeyed (entries : Entries) : Entries :=
  Entries.ofList (entries.map fun (key, value) => (textKey key, value))

/-- The fields of a schema with the values that members have for them, null where there is none. -/
def flattened (schema : RecordSchema) (members : Members) : Entries :=
  Entries.ofList (schema.names.map fun name => (.string name, members.get name))

/-- Converts to a map with text keys; a record becomes the map of the fields of its schema. -/
def toMap : Value → Except Reason Value
  | .map entries => .ok (.map (if Entries.hasTextKeys entries then entries else textKeyed entries))
  | .record schema members => .ok (.map (flattened schema members))
  | _ => .error .incompatible

end RecordCoercion
