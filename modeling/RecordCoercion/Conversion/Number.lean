import RecordCoercion.Numeric.FloatLiteral
import RecordCoercion.Numeric.WideInteger
import RecordCoercion.Value.Basic

/-!
# Numbers of all kinds

`NumericKind` lists the kinds of numbers and `Number` is the number that a value holds: a 64-bit integer
for the bounded kinds, an integer of any width, or a floating-point number. `NumericKind.ofNumber?`
narrows a number to a kind. Integers are cut at the width of a bounded kind, wide ones after their low 64
bits were taken; floating-point numbers lose their fraction and stop at the bounds; and what becomes a
floating-point number is rounded, wide integers by their leading bits. `NumericKind.read?` reads the
literals of a kind.
-/

set_option autoImplicit false

namespace RecordCoercion

/-- The kinds of numbers. -/
inductive NumericKind
  | byte
  | short
  | int
  | long
  | bigInt
  | float
  | double
  deriving DecidableEq

/-- The number that a value holds; single precision is widened to double, which loses nothing. -/
inductive Number
  | integral (n : Int64)
  | big (n : Int)
  | floating (x : Binary binary64)

/-- The low 64 bits of an integer in two's complement. -/
def lowBits (n : Int) : Int64 :=
  let magnitude := UInt64.ofNat n.natAbs
  (if n < 0 then -magnitude else magnitude).toInt64

namespace Number

/-- The number of a value that is one. -/
def ofValue? : Value → Option Number
  | .byte n => some (.integral n.toInt64)
  | .short n => some (.integral n.toInt64)
  | .int n => some (.integral n.toInt64)
  | .long n => some (.integral n)
  | .bigInt n => some (.big n)
  | .float x => some (.floating (x.convert binary64))
  | .double x => some (.floating x)
  | _ => none

/-- Whether the number is an integer or a finite floating-point number. -/
def isFinite : Number → Bool
  | .integral _ | .big _ => true
  | .floating x => x.isFinite

/-- An integer of a bounded kind, which is cut off 64 bits or made of a floating-point number. -/
def cast {α : Type} (cut : Int64 → α) (ofFloating : Binary binary64 → α) : Number → α
  | .integral n => cut n
  | .big n => cut (lowBits n)
  | .floating x => ofFloating x

/-- The number as a signed 64-bit integer. -/
def toInt64 (number : Number) : Int64 := number.cast id fun x => .ofInt (x.saturate .bits64)

end Number

namespace NumericKind

/-- The kind of fields that hold numbers of a kind. -/
def kind : NumericKind → FieldKind
  | byte => .byte
  | short => .short
  | int => .int
  | long => .long
  | bigInt => .bigInt
  | float => .float
  | double => .double

/-- The value of a kind for a number. Only an unbounded integer may have none, which is the case for
what is not finite. -/
def ofNumber? (kind : NumericKind) (number : Number) : Option Value :=
  match kind with
  | byte => some (.byte (number.cast Int64.toInt8 fun x => .ofInt (x.saturate .bits8)))
  | short => some (.short (number.cast Int64.toInt16 fun x => .ofInt (x.saturate .bits16)))
  | int => some (.int (number.cast Int64.toInt32 fun x => .ofInt (x.saturate .bits32)))
  | long => some (.long number.toInt64)
  | bigInt =>
    match number with
    | .integral n => some (.bigInt n.toInt)
    | .big n => some (.bigInt n)
    | .floating x => x.truncate?.map .bigInt
  | float =>
    match number with
    | .integral n => some (.float (.ofInt binary32 n.toInt))
    | .big n => some (.float (.ofWideInt binary32 n))
    | .floating x => some (.float (x.convert binary32))
  | double =>
    match number with
    | .integral n => some (.double (.ofInt binary64 n.toInt))
    | .big n => some (.double (.ofWideInt binary64 n))
    | .floating x => some (.double x)

/-- The value of an integer literal of a range. -/
def readBounded? (range : IntRange) (make : Int → Value) (text : List Char) : Option Value :=
  (readSigned? text).bind fun n => if range.contains n then some (make n) else none

/-- The value of a literal of a kind. Integer kinds take a signed numeral in their range and no
blanks. -/
def read? (kind : NumericKind) (text : List Char) : Option Value :=
  match kind with
  | byte => readBounded? .bits8 (fun n => .byte (.ofInt n)) text
  | short => readBounded? .bits16 (fun n => .short (.ofInt n)) text
  | int => readBounded? .bits32 (fun n => .int (.ofInt n)) text
  | long => readBounded? .bits64 (fun n => .long (.ofInt n)) text
  | bigInt => (readSigned? text).map .bigInt
  | float => (readFloat? binary32 text).map .float
  | double => (readFloat? binary64 text).map .double

end NumericKind

end RecordCoercion
