import RecordCoercion.Numeric.Binary
import RecordCoercion.Numeric.IntRange

/-!
# JSON documents

A document keeps the members of its objects as they were written, in order and with repetitions. A
number is an integer if it was written as one and lies in the range `Json.integers`, and a
double-precision number otherwise. A document that is to be written may hold single-precision numbers
as well, which have fewer digits.

Some parts of a text keep to the rules of JSON and yet stand for nothing: a number beyond all
doubles, a string with half a surrogate pair, an object with such a key, and an array or object
inside too many others. A document has `Json.unreadable` in their place, so that they do no harm
where a reader has no use for them.
-/

set_option autoImplicit false

namespace RecordCoercion

/-- A JSON document. -/
inductive Json
  | null
  | bool (b : Bool)
  | integer (n : Int)
  | float (x : Binary binary64)
  /-- A number that is written in single precision; what is read is never one. -/
  | single (x : Binary binary32)
  | string (s : String)
  | array (items : List Json)
  | object (members : List (String × Json))
  /-- A part that is well written and has no value. -/
  | unreadable

/-- The document null. -/
instance : Inhabited Json := ⟨.null⟩

namespace Json

/-- The integers of a document, which fit 64 bits with or without a sign. -/
def integers : IntRange := ⟨-9223372036854775808, 18446744073709551615⟩

mutual

/-- Whether all parts of a document have a value. -/
def isReadable : Json → Bool
  | .unreadable => false
  | .array items => areReadable items
  | .object members => areReadableMembers members
  | _ => true

/-- Whether all parts of the items of an array have a value. -/
def areReadable : List Json → Bool
  | [] => true
  | item :: rest => item.isReadable && areReadable rest

/-- Whether all parts of the members of an object have a value. -/
def areReadableMembers : List (String × Json) → Bool
  | [] => true
  | (_, value) :: rest => value.isReadable && areReadableMembers rest

end

end Json

end RecordCoercion
