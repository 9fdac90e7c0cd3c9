import RecordCoercion.Catalog.Kind
import RecordCoercion.Catalog.Schema

/-!
# Declared types

A declared type is a kind with what the kind needs to be fully described: text and the temporal
kinds may have a format, a record may have the schema of its fields, and a choice has its candidates
in the order in which they are tried. Two types are the same (`DeclaredType.same`) if they agree in
all of this; the order of the fields of a schema does not count, the order of candidates does.
-/

set_option autoImplicit false

namespace RecordCoercion

/-- The type that a field is declared to have. -/
inductive DeclaredType
  | boolean
  | byte
  | short
  | int
  | long
  | bigInt
  | float
  | double
  | char
  | string (format : Option TemporalFormat)
  | date (format : Option TemporalFormat)
  | time (format : Option TemporalFormat)
  | timestamp (format : Option TemporalFormat)
  | array
  | map
  | record (schema : Option (Schema DeclaredType))
  | choice (candidates : List DeclaredType)

/-- The schema of a record. -/
abbrev RecordSchema := Schema DeclaredType

namespace DeclaredType

/-- The kind of a type. -/
def kind : DeclaredType → FieldKind
  | boolean => .boolean
  | byte => .byte
  | short => .short
  | int => .int
  | long => .long
  | bigInt => .bigInt
  | float => .float
  | double => .double
  | char => .char
  | string _ => .string
  | date _ => .date
  | time _ => .time
  | timestamp _ => .timestamp
  | array => .array
  | map => .map
  | record _ => .record
  | choice _ => .choice

/-- The type of a kind without format, schema or candidates. -/
def bare : FieldKind → DeclaredType
  | .boolean => boolean
  | .byte => byte
  | .short => short
  | .int => int
  | .long => long
  | .bigInt => bigInt
  | .float => float
  | .double => double
  | .char => char
  | .string => string none
  | .date => date none
  | .time => time none
  | .timestamp => timestamp none
  | .array => array
  | .map => map
  | .record => record none
  | .choice => choice []

/-- The format of a type. -/
def format? : DeclaredType → Option TemporalFormat
  | string format | date format | time format | timestamp format => format
  | _ => none

/-- The schema of a record type. -/
def schema? : DeclaredType → Option RecordSchema
  | record schema => schema
  | _ => none

/-- The candidates of a choice type. -/
def candidates : DeclaredType → List DeclaredType
  | choice candidates => candidates
  | _ => []

/-- The type with another format, if its kind has one. -/
def withFormat (type : DeclaredType) (format : TemporalFormat) : DeclaredType :=
  match type with
  | string _ => string (some format)
  | date _ => date (some format)
  | time _ => time (some format)
  | timestamp _ => timestamp (some format)
  | other => other

/-- A kind name with the pattern of a format, if there is one. -/
def textWithFormat (kind : FieldKind) : Option TemporalFormat → List Char
  | none => kind.name.toList
  | some format => kind.name.toList ++ ':' :: format.pattern.toList

/-- Texts with a separator between them. -/
def separated (separator : List Char) : List (List Char) → List Char
  | [] => []
  | [text] => text
  | text :: rest => text ++ separator ++ separated separator rest

mutual

/-- The displayed text of a type. -/
def text : DeclaredType → List Char
  | string format => textWithFormat .string format
  | date format => textWithFormat .date format
  | time format => textWithFormat .time format
  | timestamp format => textWithFormat .timestamp format
  | choice candidates => "Choice[".toList ++ separated ", ".toList (texts candidates) ++ [']']
  | other => other.kind.name.toList

/-- The displayed texts of types. -/
def texts : List DeclaredType → List (List Char)
  | [] => []
  | type :: rest => type.text :: texts rest

end

/-- The displayed text of a type, as a string. -/
def display (type : DeclaredType) : String := String.ofList type.text

mutual

/-- Whether two types are the same. -/
def same : DeclaredType → DeclaredType → Bool
  | record (some ⟨fields⟩), record (some ⟨fields'⟩) =>
    fields.length == fields'.length && fieldsAmong fields fields'
  | record none, record none => true
  | choice candidates, choice candidates' => sameLists candidates candidates'
  | record _, _ => false
  | choice _, _ => false
  | type, other => type.kind == other.kind && (type.format? == other.format?)

/-- Whether each field has the same type as the field of that name in another list. -/
def fieldsAmong : List (String × DeclaredType) → List (String × DeclaredType) → Bool
  | [], _ => true
  | (name, type) :: rest, fields =>
    (match fields.lookup name with
      | some other => type.same other
      | none => false) && fieldsAmong rest fields

/-- Whether two lists hold the same types in the same order. -/
def sameLists : List DeclaredType → List DeclaredType → Bool
  | [], [] => true
  | type :: rest, other :: others => type.same other && sameLists rest others
  | _, _ => false

end

end DeclaredType

/-- Whether two schemas are the same but for the order of their fields. -/
def Schema.same (schema other : RecordSchema) : Bool :=
  schema.size == other.size && DeclaredType.fieldsAmong schema.fields other.fields

end RecordCoercion
