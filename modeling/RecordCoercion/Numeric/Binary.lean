import RecordCoercion.Numeric.IntRange

/-!
# Binary floating-point numbers

A `BinaryFormat` fixes the number of significand bits and of exponent bits; `binary32` and
`binary64` are the two interchange formats of the library. A number of a format is a sign and a
*code*, the bit pattern without its sign: the exponent field followed by the fraction. Codes are
ordered like the magnitudes they stand for, which is why rounding, neighbours and comparison are all
computed on codes.

Every magnitude is a natural number of *units*, a unit being the smallest positive number of the
format, so all arithmetic below is exact integer arithmetic followed by one rounding
(`BinaryFormat.nearestCode`) of a quotient to an integer (`roundHalfEven`).
-/

set_option autoImplicit false

namespace RecordCoercion

/-- The integer nearest to `num / den`; a half goes to the even neighbour. -/
def roundHalfEven (num den : Nat) : Nat :=
  let quotient := num / den
  let twice := 2 * (num % den)
  if twice < den then quotient
  else if den < twice then quotient + 1
  else if quotient % 2 = 0 then quotient
  else quotient + 1

/-- The result is the integer part of the quotient or the integer after it. -/
theorem roundHalfEven_eq_or_eq (num den : Nat) :
    roundHalfEven num den = num / den ∨ roundHalfEven num den = num / den + 1 := by
  unfold roundHalfEven
  dsimp only
  split
  · exact Or.inl rfl
  · split
    · exact Or.inr rfl
    · split
      · exact Or.inl rfl
      · exact Or.inr rfl

/-- A binary interchange format: its significand and its exponent field, in bits. -/
structure BinaryFormat where
  /-- Bits of the significand, the leading bit included. -/
  precision : Nat
  /-- Bits of the exponent field. -/
  exponentBits : Nat
  two_le_precision : 2 ≤ precision := by decide
  two_le_exponentBits : 2 ≤ exponentBits := by decide
  deriving DecidableEq

/-- Single precision. -/
def binary32 : BinaryFormat := ⟨24, 8, by decide, by decide⟩

/-- Double precision. -/
def binary64 : BinaryFormat := ⟨53, 11, by decide, by decide⟩

namespace BinaryFormat

/-- The number of fractions that share an exponent field. -/
def fractionCount (f : BinaryFormat) : Nat := Nat.pow 2 (f.precision - 1)

/-- A unit of the format is `2 ^ (-scale)`. -/
def scale (f : BinaryFormat) : Nat := Nat.pow 2 (f.exponentBits - 1) + f.precision - 3

/-- The number of units in the number one. -/
def one (f : BinaryFormat) : Nat := Nat.pow 2 f.scale

/-- The code of infinity; larger codes are not numbers. -/
def infinityCode (f : BinaryFormat) : Nat := (Nat.pow 2 f.exponentBits - 1) * f.fractionCount

/-- The number of codes. -/
def codeCount (f : BinaryFormat) : Nat := Nat.pow 2 f.exponentBits * f.fractionCount

/-- Every exponent field has a fraction. -/
theorem fractionCount_pos (f : BinaryFormat) : 0 < f.fractionCount :=
  Nat.two_pow_pos _

/-- Infinity has a code. -/
theorem infinityCode_lt_codeCount (f : BinaryFormat) : f.infinityCode < f.codeCount :=
  Nat.mul_lt_mul_of_pos_right (Nat.sub_lt (Nat.two_pow_pos _) Nat.one_pos) f.fractionCount_pos

/-- A fraction has at least one bit. -/
theorem two_le_fractionCount (f : BinaryFormat) : 2 ≤ f.fractionCount := by
  have h := f.two_le_precision
  exact Nat.pow_le_pow_right (n := 2) (by decide) (show 1 ≤ f.precision - 1 by omega)

/-- Behind infinity there is a code for which the leading bit of the fraction is set. -/
theorem infinityCode_add_lt_codeCount (f : BinaryFormat) :
    f.infinityCode + f.fractionCount / 2 < f.codeCount := by
  have hfractions := f.two_le_fractionCount
  have hexponents : 0 < Nat.pow 2 f.exponentBits := Nat.two_pow_pos _
  have hmul : f.infinityCode + f.fractionCount = f.codeCount := by
    unfold infinityCode codeCount
    rw [← Nat.succ_mul]
    congr 1
    omega
  omega

/-- The units that a code stands for, continued past the largest finite number. -/
def magnitude (f : BinaryFormat) (code : Nat) : Nat :=
  let exponentField := code / f.fractionCount
  let fraction := code % f.fractionCount
  if exponentField = 0 then fraction
  else (f.fractionCount + fraction) * Nat.pow 2 (exponentField - 1)

/-- The code nearest to `num / den` units, ties to the even code, infinity for what is too large.

The shift leaves exactly `precision` bits before the rounding, none when the number is subnormal. A
rounding that carries into the next power of two yields the first code of that power, because codes
are consecutive there. -/
def nearestCode (f : BinaryFormat) (num den : Nat) : Nat :=
  let shift := (num / den).log2 + 1 - f.precision
  min f.infinityCode (shift * f.fractionCount + roundHalfEven num (den * Nat.pow 2 shift))

/-- Rounding never yields more than infinity. -/
theorem nearestCode_le_infinityCode (f : BinaryFormat) (num den : Nat) :
    f.nearestCode num den ≤ f.infinityCode :=
  Nat.min_le_left _ _

end BinaryFormat

/-- A number of a binary format, given by its sign and its code. -/
structure Binary (f : BinaryFormat) where
  negative : Bool
  code : Nat
  code_lt : code < f.codeCount
  deriving DecidableEq

namespace Binary

variable {f : BinaryFormat}

/-- The canonical "not a number" of a sign: it is quiet, so the leading bit of its fraction is set, and
it carries no payload. -/
def nan (negative : Bool) : Binary f :=
  ⟨negative, f.infinityCode + f.fractionCount / 2, f.infinityCode_add_lt_codeCount⟩

/-- The infinity of a sign. -/
def infinity (negative : Bool) : Binary f :=
  ⟨negative, f.infinityCode, f.infinityCode_lt_codeCount⟩

/-- The number with the interchange bit pattern `bits`, whose top bit is the sign. -/
def ofBits (bits : Nat) : Binary f :=
  ⟨bits / f.codeCount % 2 = 1, bits % f.codeCount,
    Nat.mod_lt _ (Nat.lt_of_le_of_lt (Nat.zero_le _) f.infinityCode_lt_codeCount)⟩

/-- The interchange bit pattern. -/
def toBits (x : Binary f) : Nat :=
  (if x.negative then f.codeCount else 0) + x.code

/-- Whether this is "not a number". -/
def isNaN (x : Binary f) : Bool := f.infinityCode < x.code

/-- The canonical "not a number" is none. -/
theorem isNaN_nan (negative : Bool) : (nan negative : Binary f).isNaN = true := by
  have hfractions := f.two_le_fractionCount
  exact decide_eq_true (show f.infinityCode < f.infinityCode + f.fractionCount / 2 by omega)

/-- Whether this is one of the two infinities. -/
def isInfinite (x : Binary f) : Bool := x.code = f.infinityCode

/-- Whether this is neither an infinity nor "not a number". -/
def isFinite (x : Binary f) : Bool := x.code < f.infinityCode

/-- Whether this is one of the two zeros. -/
def isZero (x : Binary f) : Bool := x.code = 0

/-- The magnitude in units of the format. -/
def units (x : Binary f) : Nat := f.magnitude x.code

/-- The number with the other sign. -/
def neg (x : Binary f) : Binary f := { x with negative := !x.negative }

/-- Numeric equality: "not a number" differs from everything and the two zeros are equal. -/
def numericEq (x y : Binary f) : Bool :=
  !x.isNaN && !y.isNaN && x.code == y.code && (x.negative == y.negative || x.code == 0)

/-- The number of the format nearest to `num / den`, with the given sign. -/
def ofRatio (f : BinaryFormat) (negative : Bool) (num den : Nat) : Binary f :=
  ⟨negative, f.nearestCode (num * f.one) den,
    Nat.lt_of_le_of_lt (f.nearestCode_le_infinityCode _ _) f.infinityCode_lt_codeCount⟩

/-- The number of the format nearest to an integer. -/
def ofInt (f : BinaryFormat) (n : Int) : Binary f :=
  ofRatio f (decide (n < 0)) n.natAbs 1

/-- The integer part of the magnitude. -/
def wholePart (x : Binary f) : Nat := x.units / f.one

/-- The integer part of a finite number, without its fraction; `none` for the others. -/
def truncate? (x : Binary f) : Option Int :=
  if x.isFinite then some (if x.negative then -(x.wholePart : Int) else x.wholePart) else none

/-- The integer part, clamped to a range; infinities reach its ends and "not a number" is zero. -/
def saturate (range : IntRange) (x : Binary f) : Int :=
  if x.isNaN then 0
  else match x.truncate? with
    | some n => range.clamp n
    | none => if x.negative then range.lo else range.hi

/-- The nearest number of another format, with the same sign. "Not a number" keeps its sign only. -/
def convert (g : BinaryFormat) (x : Binary f) : Binary g :=
  if x.isNaN then nan x.negative
  else if x.isInfinite then infinity x.negative
  else ofRatio g x.negative x.units f.one

/-- The product of two finite magnitudes, rounded once; its sign is that of `x`. -/
def scaleUp (x y : Binary f) : Binary f :=
  ofRatio f x.negative (x.units * y.units) (f.one * f.one)

/-- The quotient of two finite magnitudes, rounded once; its sign is that of `x`. -/
def scaleDown (x y : Binary f) : Binary f :=
  ofRatio f x.negative x.units y.units

end Binary

end RecordCoercion
