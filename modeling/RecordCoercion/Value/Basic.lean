import RecordCoercion.Catalog.DeclaredType
import RecordCoercion.Numeric.Binary
import RecordCoercion.Temporal.Instant

/-!
# Values

A `Value` is a piece of data with the kind it has at run time. Integers come in four bounded widths
and one unbounded, floating-point numbers in two formats, and the three temporal kinds share the
instants. Maps and records hold their entries in the order of insertion; a record also carries the
schema it is bound to, and fields that it does not hold read as null.
-/

set_option autoImplicit false

namespace RecordCoercion

/-- A value with its run-time kind. -/
inductive Value
  | null
  | boolean (b : Bool)
  | byte (n : Int8)
  | short (n : Int16)
  | int (n : Int32)
  | long (n : Int64)
  | bigInt (n : Int)
  | float (x : Binary binary32)
  | double (x : Binary binary64)
  | char (c : Char)
  | string (s : String)
  | date (i : Instant)
  | time (i : Instant)
  | timestamp (i : Instant)
  | array (items : List Value)
  | map (entries : List (Value × Value))
  | record (schema : RecordSchema) (members : List (String × Value))

namespace Value

/-- The kind of a value; null has none. -/
def kind? : Value → Option FieldKind
  | null => none
  | boolean _ => some .boolean
  | byte _ => some .byte
  | short _ => some .short
  | int _ => some .int
  | long _ => some .long
  | bigInt _ => some .bigInt
  | float _ => some .float
  | double _ => some .double
  | char _ => some .char
  | string _ => some .string
  | date _ => some .date
  | time _ => some .time
  | timestamp _ => some .timestamp
  | array _ => some .array
  | map _ => some .map
  | record _ _ => some .record

/-- The name of the kind of a value. -/
def kindName (v : Value) : String :=
  match v.kind? with
  | some kind => kind.name
  | none => "Null"

/-- Whether a value is null. -/
def isNull : Value → Bool
  | null => true
  | _ => false

/-- Whether a value is a number. -/
def isNumeric (v : Value) : Bool := v.kind?.any (·.isNumeric)

/-- Whether a value is a point in time. -/
def isTemporal (v : Value) : Bool := v.kind?.any (·.isTemporal)

/-- The truth value of a boolean. -/
def boolean? : Value → Option Bool
  | boolean b => some b
  | _ => none

/-- The text of a string. -/
def string? : Value → Option String
  | string s => some s
  | _ => none

/-- The instant of a point in time. -/
def instant? : Value → Option Instant
  | date i | time i | timestamp i => some i
  | _ => none

/-- The items of an array. -/
def items? : Value → Option (List Value)
  | array items => some items
  | _ => none

/-- The entries of a map. -/
def entries? : Value → Option (List (Value × Value))
  | map entries => some entries
  | _ => none

/-- The members of a record. -/
def members? : Value → Option (List (String × Value))
  | record _ members => some members
  | _ => none

end Value

end RecordCoercion
