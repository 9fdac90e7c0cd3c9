import RecordCoercion.Numeric.Shortest
import RecordCoercion.Text.Characters

/-!
# Reading floating-point text

The grammar of floating-point text is a sign, if any, followed by `NaN`, by `Infinity`, or by a
decimal: digits with at most one point and at least one digit, and then, if any, `e` or `E` with a
signed exponent. Blanks around the text are ignored. A decimal denotes the number of the format
nearest to its exact value.
-/

set_option autoImplicit false

namespace RecordCoercion

namespace Binary

/-- The zero of a sign. -/
def zero {f : BinaryFormat} (negative : Bool) : Binary f :=
  ⟨negative, 0, Nat.lt_of_le_of_lt (Nat.zero_le _) f.infinityCode_lt_codeCount⟩

/-- The number of a format nearest to a decimal.

A decimal below `10 ^ top` with `top ≤ -(scale + 1)` is less than half a unit, and one that is at
least `10 ^ (top - 1)` with `2 ^ (exponentBits - 1) < top` lies beyond every finite number;
neither needs its power of ten. -/
def ofDecimal (f : BinaryFormat) (negative : Bool) (d : Decimal) : Binary f :=
  let top := Decimal.width d.coefficient + d.exponent
  if d.coefficient = 0 || top ≤ -(f.scale + 1 : Nat) then zero negative
  else if Nat.pow 2 (f.exponentBits - 1) < top then infinity negative
  else ofRatio f negative (d.coefficient * Nat.pow 10 d.exponent.toNat)
    (Nat.pow 10 (-d.exponent).toNat)

end Binary

/-- The value of a text that is an exponent part: empty, or a mark and a signed numeral. -/
def readExponent? : List Char → Option Int
  | [] => some 0
  | 'e' :: text => readSigned? text
  | 'E' :: text => readSigned? text
  | _ :: _ => none

/-- The digits of a fraction after its point, if any, and the rest. -/
def splitFraction : List Char → List Char × List Char
  | '.' :: text => splitDigits text
  | text => ([], text)

/-- The value of a text that is an unsigned decimal. -/
def readDecimal? (text : List Char) : Option Decimal :=
  let (whole, afterWhole) := splitDigits text
  let (fraction, afterFraction) := splitFraction afterWhole
  if whole.isEmpty && fraction.isEmpty then none
  else (readExponent? afterFraction).map fun exponent =>
    ⟨numeralValue (whole ++ fraction), exponent - fraction.length⟩

/-- The value of floating-point text. -/
def readFloat? (f : BinaryFormat) (text : List Char) : Option (Binary f) :=
  let (negative, unsigned) := splitSign (trim text)
  if unsigned = "NaN".toList then some (.nan negative)
  else if unsigned = "Infinity".toList then some (.infinity negative)
  else (readDecimal? unsigned).map (Binary.ofDecimal f negative)

end RecordCoercion
