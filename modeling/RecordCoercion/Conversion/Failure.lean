import RecordCoercion.Value.Display

/-!
# Failed conversions

A failed conversion tells which value could not be turned into which kind, in which field, and why.
The field is a path of names joined by points. Apart from that a conversion can stop because a
format that can only be read was to be written.
-/

set_option autoImplicit false

namespace RecordCoercion

/-- Why a value cannot be converted. -/
inductive Reason
  /-- The kind of the value has no conversion to the kind of the type. -/
  | incompatible
  /-- The text is not a literal of the kind. -/
  | invalidLiteral (kind : FieldKind)
  /-- Without a format the text would have to be a count of milliseconds. -/
  | notEpochMillis
  /-- The text is not in the format. -/
  | formatMismatch (format : TemporalFormat)
  /-- There is no first character. -/
  | emptyText
  /-- Infinities and "not a number" are no integers. -/
  | nonFinite
  /-- A map becomes a record only with a schema. -/
  | missingSchema
  /-- No candidate of a choice, of the displayed types, accepts the value. -/
  | noMatchingCandidate (candidates : List String)
  deriving DecidableEq

/-- The text of a reason. -/
def Reason.message : Reason → String
  | incompatible => "no conversion exists for this kind of value"
  | invalidLiteral kind => "text is not a valid " ++ kind.name ++ " literal"
  | notEpochMillis =>
    "text is not an epoch millisecond value and no format is configured"
  | formatMismatch format => "text is not in the expected format " ++ format.pattern
  | emptyText => "text has a length of 0"
  | nonFinite => "value is not finite"
  | missingSchema => "the value is a map but no record schema was provided"
  | noMatchingCandidate candidates =>
    "no choice candidate accepts it, tried [" ++ ", ".intercalate candidates ++ "]"

/-- A value that could not be converted. -/
structure Failure where
  /-- The value, of which only the text and the kind are told. -/
  value : Value
  /-- The kind the value was to be converted to. -/
  target : FieldKind
  /-- The path of the field. -/
  field : String
  /-- Why there is no conversion. -/
  reason : Reason

namespace Failure

/-- What is told of the value: how it is displayed. -/
def valueText (failure : Failure) : String := failure.value.display

/-- What is told of the kind of the value: its name. -/
def valueKind (failure : Failure) : String := failure.value.kindName

/-- The message of a failure. -/
def message (failure : Failure) : String :=
  "Cannot convert value [" ++ failure.valueText ++ "] of type " ++ failure.valueKind ++ " to " ++
    failure.target.name ++ " for field " ++ failure.field ++ ": " ++ failure.reason.message

end Failure

/-- Why a conversion gives no value. -/
inductive ConversionError
  /-- The value or one inside it cannot be converted. -/
  | failed (failure : Failure)
  /-- A point in time was to be written in a format that can only be read. -/
  | unrenderable (format : TemporalFormat)

/-- The path of a member of a field. -/
def memberPath (field name : String) : String :=
  if field.isEmpty then name else field ++ "." ++ name

end RecordCoercion
