import RecordCoercion.Numeric.Binary
import RecordCoercion.Text.Characters

/-!
# The shortest decimal that identifies a binary number

The reals that round to a finite number `x` form an interval around it. `Binary.shortest` returns
the decimal of that interval with the fewest digits, and among those the one nearest to `x`. It
walks over the decimal grids `10 ^ q` from coarse to fine and tests the two points of a grid around
`x`; if any point of a grid lies in the interval, one of those two does.
-/

set_option autoImplicit false

namespace RecordCoercion

/-- The decimal number `coefficient * 10 ^ exponent`. -/
structure Decimal where
  coefficient : Nat
  exponent : Int
  deriving DecidableEq

namespace Decimal

/-- The number of digits of a natural number. -/
def width (n : Nat) : Nat := (numeral n).length

/-- The exponent `e` with `10 ^ e ≤ num / den < 10 ^ (e + 1)`, for a positive quotient. -/
def leadingExponent (num den : Nat) : Int :=
  if den ≤ num then (width (num / den) : Int) - 1
  else -(width ((den - 1) / num) : Int)

end Decimal

/-- Which of two decimals at the same distance is taken. -/
inductive TieRule
  /-- The larger magnitude. -/
  | up
  /-- The even coefficient. -/
  | even
  deriving DecidableEq

namespace Binary

variable {f : BinaryFormat}

/-- Twice the ends of the interval of reals that round to a number, in units. -/
def roundingEnds (x : Binary f) : Nat × Nat :=
  (f.magnitude (x.code - 1) + x.units, x.units + f.magnitude (x.code + 1))

/-- Whether `num / den` units round to the magnitude of `x`: the ends count for an even code. -/
def covers (x : Binary f) (num den : Nat) : Bool :=
  let (lo, hi) := x.roundingEnds
  if x.code % 2 = 0 then lo * den ≤ 2 * num && 2 * num ≤ hi * den
  else lo * den < 2 * num && 2 * num < hi * den

/-- The point of the grid `10 ^ q` that is nearest to a number and rounds to it, if there is one. -/
def onGrid? (tie : TieRule) (x : Binary f) (q : Int) : Option Decimal :=
  let den := Nat.pow 10 (-q).toNat
  let step := f.one * Nat.pow 10 q.toNat
  let below := x.units * den / step
  let twice := 2 * (x.units * den % step)
  let takeBelow :=
    twice < step || (twice == step && tie == .even && below % 2 == 0)
  match x.covers (below * step) den, x.covers ((below + 1) * step) den with
  | true, true => some ⟨if takeBelow then below else below + 1, q⟩
  | true, false => some ⟨below, q⟩
  | false, true => some ⟨below + 1, q⟩
  | false, false => none

/-- The decimal expansion of a number, which is always finite. -/
def exactDecimal (x : Binary f) : Decimal := ⟨x.units * Nat.pow 5 f.scale, -f.scale⟩

/-- The decimal with the fewest digits that identifies a finite non-zero number, and of those the
nearest one. No more than `precision` digits are ever needed. -/
def shortest (tie : TieRule) (x : Binary f) : Decimal :=
  let top := Decimal.leadingExponent x.units f.one
  let found := (List.range f.precision).findSome? fun (digit : Nat) => x.onGrid? tie (top - digit)
  found.getD x.exactDecimal

end Binary

end RecordCoercion
