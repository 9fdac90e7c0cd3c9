import RecordCoercion.Temporal.Pattern

/-!
# Kinds of fields

`FieldKind` lists the kinds of data a field can be declared to hold, in their conventional order,
with the families they form. The three temporal kinds have a conventional format.
-/

set_option autoImplicit false

namespace RecordCoercion

/-- What a field can be declared to hold. -/
inductive FieldKind
  | boolean
  | byte
  | short
  | int
  | long
  | bigInt
  | float
  | double
  | char
  | string
  | date
  | time
  | timestamp
  | array
  | map
  | record
  | choice
  deriving DecidableEq

namespace FieldKind

/-- All kinds in order. -/
def all : List FieldKind :=
  [boolean, byte, short, int, long, bigInt, float, double, char, string, date, time, timestamp,
    array, map, record, choice]

/-- The name of a kind. -/
def name : FieldKind → String
  | boolean => "Boolean"
  | byte => "Byte"
  | short => "Short"
  | int => "Int"
  | long => "Long"
  | bigInt => "BigInt"
  | float => "Float"
  | double => "Double"
  | char => "Char"
  | string => "String"
  | date => "Date"
  | time => "Time"
  | timestamp => "Timestamp"
  | array => "Array"
  | map => "Map"
  | record => "Record"
  | choice => "Choice"

/-- The kind with a name. -/
def ofName? (name : String) : Option FieldKind := all.find? fun kind => kind.name == name

/-- The integers, bounded or not. -/
def isIntegral : FieldKind → Bool
  | byte | short | int | long | bigInt => true
  | _ => false

/-- The floating-point numbers. -/
def isFloating : FieldKind → Bool
  | float | double => true
  | _ => false

/-- All numbers. -/
def isNumeric (kind : FieldKind) : Bool := kind.isIntegral || kind.isFloating

/-- The points in time. -/
def isTemporal : FieldKind → Bool
  | date | time | timestamp => true
  | _ => false

/-- The kinds that are made of other values or types. -/
def isComposite : FieldKind → Bool
  | array | map | record | choice => true
  | _ => false

/-- The conventional format of a temporal kind. -/
def defaultFormat? : FieldKind → Option TemporalFormat
  | date => some .isoDate
  | time => some .isoTime
  | timestamp => some .isoDateTime
  | _ => none

/-- A kind is found by its name. -/
theorem ofName?_name (kind : FieldKind) : ofName? kind.name = some kind := by
  cases kind <;> decide

end FieldKind

end RecordCoercion
