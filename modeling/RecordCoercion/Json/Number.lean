import RecordCoercion.Json.Basic
import RecordCoercion.Text.Characters

/-!
# Numbers of JSON documents

The grammar of a number is a minus sign, if any, digits without a superfluous leading zero, a
fraction and an exponent. A number without fraction and exponent is an integer if it is in range;
minus zero is not an integer. Every other number becomes a double by a fast rule: as many digits as
fit a 64-bit significand are kept, the significand is rounded to a double, and that is multiplied or
divided by a power of ten, each step being rounded. The result is close to the written number and
not always the nearest double.
-/

set_option autoImplicit false

namespace RecordCoercion.Json

/-- The parts of a written number. -/
structure NumberParts where
  negative : Bool
  whole : List Char
  fraction : Option (List Char)
  exponent : Option Int
  deriving DecidableEq

/-- One or more digits at the front of a text, and the rest. -/
def scanDigits? (text : List Char) : Option (List Char × List Char) :=
  match splitDigits text with
  | ([], _) => none
  | scanned => some scanned

/-- Digits without a superfluous leading zero at the front of a text, and the rest. -/
def scanWhole? (text : List Char) : Option (List Char × List Char) :=
  match scanDigits? text with
  | some ('0' :: _ :: _, _) => none
  | scanned => scanned

/-- The digits of a fraction at the front of a text, if there is one, and the rest. -/
def scanFraction? : List Char → Option (Option (List Char) × List Char)
  | '.' :: text => (scanDigits? text).map fun (digits, rest) => (some digits, rest)
  | text => some (none, text)

/-- A signed exponent at the front of a text after its mark, and the rest. -/
def scanSignedExponent? (text : List Char) : Option (Option Int × List Char) :=
  let (negative, unsigned) := splitSign text
  (scanDigits? unsigned).map fun (digits, rest) =>
    let n : Int := numeralValue digits
    (some (if negative then -n else n), rest)

/-- An exponent at the front of a text, if there is one, and the rest. -/
def scanExponent? : List Char → Option (Option Int × List Char)
  | 'e' :: text => scanSignedExponent? text
  | 'E' :: text => scanSignedExponent? text
  | text => some (none, text)

/-- The minus sign at the front of a text, if there is one, and the rest. -/
def splitMinus : List Char → Bool × List Char
  | '-' :: text => (true, text)
  | text => (false, text)

/-- The number at the front of a text, and the rest. -/
def scanNumber? (text : List Char) : Option (NumberParts × List Char) := do
  let (negative, text) := splitMinus text
  let (whole, text) ← scanWhole? text
  let (fraction, text) ← scanFraction? text
  let (exponent, text) ← scanExponent? text
  return (⟨negative, whole, fraction, exponent⟩, text)

/-- The significand after further digits, of which it takes as many as fit 64 bits, and the digits
that it leaves. -/
def fillSignificand (significand : Nat) : List Char → Nat × List Char
  | [] => (significand, [])
  | c :: digits =>
    let next := numeralValue [c] + 10 * significand
    if next < UInt64.size then fillSignificand next digits else (significand, c :: digits)

/-- The double nearest to a power of ten. -/
def powerOfTen (exponent : Nat) : Binary binary64 := .ofInt binary64 (Nat.pow 10 exponent)

/-- A double times a power of ten. Powers below `10 ^ (-308)` are applied in several steps; what
grows beyond the largest finite number is refused. -/
def timesPowerOfTen? (x : Binary binary64) (exponent : Int) : Option (Binary binary64) :=
  if h : exponent < -308 then
    if x.isZero then some x
    else timesPowerOfTen? (x.scaleDown (powerOfTen 308)) (exponent + 308)
  else if 308 < exponent then
    if x.isZero then some x else none
  else
    let scaled :=
      if 0 ≤ exponent then x.scaleUp (powerOfTen exponent.toNat)
      else x.scaleDown (powerOfTen (-exponent).toNat)
    if scaled.isInfinite then none else some scaled
termination_by (-exponent).toNat
decreasing_by omega

/-- The double of a significand and an exponent. -/
def floatOf? (negative : Bool) (significand : Nat) (exponent : Int) : Option Json :=
  (timesPowerOfTen? (.ofInt binary64 significand) exponent).map fun x =>
    .float (if negative then x.neg else x)

/-- The value of a number written without fraction and exponent, all of whose digits fit. -/
def integerOf (negative : Bool) (n : Nat) : Json :=
  if !negative then .integer n
  else if 0 < n && integers.contains (-(n : Int)) then .integer (-(n : Int))
  else .float (Binary.ofInt binary64 n).neg

namespace NumberParts

/-- The value of a written number; it has none beyond the range of doubles. -/
def value? (parts : NumberParts) : Option Json :=
  let (significand, dropped) := fillSignificand 0 parts.whole
  match parts.fraction, parts.exponent, dropped with
  | none, none, [] => some (integerOf parts.negative significand)
  | fraction, exponent, dropped =>
    let digits := fraction.getD []
    let (significand, ignored) := fillSignificand significand digits
    let used : Int := digits.length - ignored.length
    floatOf? parts.negative significand (dropped.length - used + exponent.getD 0)

end NumberParts

end RecordCoercion.Json
