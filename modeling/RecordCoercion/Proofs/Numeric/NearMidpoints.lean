import Mathlib.Tactic.LinearCombination
import RecordCoercion.Proofs.Numeric.DoubleRounding

/-!
# Shortest decimals near midpoints

The shortest decimal of a number is no farther away from it than a step of the decimal's grid, so a
midpoint beside the number that is near to the decimal is a multiple of a power of two that is not larger
than twice this step. Which multiples of the two steps are near to one another is told by a fraction that
is near to the quotient of the steps (`mul_eq_mul_of_isNear`), and for every exponent of a
single-precision number such a fraction is among the convergents of the quotient
(`Decimal.exists_settles`). Near to a midpoint are those decimals that are midpoints themselves, and the
three of `Decimal.nearMidpoints` (`Binary.shortest_of_near_midpoint`).
-/

set_option autoImplicit false

namespace RecordCoercion

/-! ## Multiples of two steps -/

/-- Two numbers are no farther apart than one of so many parts of the second. -/
def IsNear (parts a b : Int) : Prop := parts * |a - b| ≤ b

/-- Multiples of two steps that are near to one another are in the proportion of a fraction that is near
to the quotient of the steps, unless they are too many for it. -/
theorem mul_eq_mul_of_isNear {parts limit a b n w p q : Int} (hparts : 0 ≤ parts) (ha : 0 ≤ a)
    (hb : 0 < b) (hp : 0 < p) (hw : 0 ≤ w) (hlimit : w < limit) (hnear : IsNear parts (n * a) (w * b))
    (hfraction : limit * (parts * |q * a - p * b| + p * b) ≤ parts * a) : n * p = w * q := by
  have hidentity : a * (n * p - w * q) = p * (n * a - w * b) - w * (q * a - p * b) := by ring
  have hdistance : a * |n * p - w * q| ≤ p * |n * a - w * b| + w * |q * a - p * b| := by
    calc a * |n * p - w * q| = |p * (n * a - w * b) - w * (q * a - p * b)| := by
          rw [← hidentity, abs_mul, abs_of_nonneg ha]
      _ ≤ |p * (n * a - w * b)| + |w * (q * a - p * b)| := abs_sub _ _
      _ = p * |n * a - w * b| + w * |q * a - p * b| := by
          rw [abs_mul, abs_mul, abs_of_pos hp, abs_of_nonneg hw]
  have hpositive : 0 < parts * |q * a - p * b| + p * b :=
    add_pos_of_nonneg_of_pos (mul_nonneg hparts (abs_nonneg _)) (mul_pos hp hb)
  have hless : parts * a * |n * p - w * q| < parts * a * 1 := by
    calc parts * a * |n * p - w * q| = parts * (a * |n * p - w * q|) := mul_assoc _ _ _
      _ ≤ parts * (p * |n * a - w * b| + w * |q * a - p * b|) :=
          mul_le_mul_of_nonneg_left hdistance hparts
      _ = p * (parts * |n * a - w * b|) + w * (parts * |q * a - p * b|) := by ring
      _ ≤ p * (w * b) + w * (parts * |q * a - p * b|) :=
          add_le_add_left (mul_le_mul_of_nonneg_left hnear hp.le) _
      _ = w * (parts * |q * a - p * b| + p * b) := by ring
      _ < limit * (parts * |q * a - p * b| + p * b) := mul_lt_mul_of_pos_right hlimit hpositive
      _ ≤ parts * a * 1 := hfraction.trans_eq (mul_one _).symm
  have hone := lt_of_mul_lt_mul_left hless (mul_nonneg hparts ha)
  exact sub_eq_zero.mp (Int.abs_lt_one_iff.mp hone)

/-- Multiples of two steps in the proportion of a fraction are no nearer to one another than those that
the fraction itself is made of. -/
theorem isNear_of_mul_eq_mul {parts a b n w p q : Int} (hp : 0 < p) (hw : 0 < w)
    (heq : n * p = w * q) (hnear : IsNear parts (n * a) (w * b)) : IsNear parts (q * a) (p * b) := by
  have hscaled : p * |n * a - w * b| = w * |q * a - p * b| := by
    calc p * |n * a - w * b| = |p * (n * a - w * b)| := by rw [abs_mul, abs_of_pos hp]
      _ = |w * (q * a - p * b)| := by
          congr 1
          linear_combination a * heq
      _ = w * |q * a - p * b| := by rw [abs_mul, abs_of_pos hw]
  refine le_of_mul_le_mul_left ?_ hw
  calc w * (parts * |q * a - p * b|) = parts * (w * |q * a - p * b|) := mul_left_comm _ _ _
    _ = p * (parts * |n * a - w * b|) := by rw [← hscaled, mul_left_comm]
    _ ≤ p * (w * b) := mul_le_mul_of_nonneg_left hnear hp.le
    _ = w * (p * b) := mul_left_comm _ _ _

/-- Numerators and denominators of the convergents of `a / b`, given the last two of them. -/
def convergents : Nat → Nat → Nat → Nat × Nat → Nat × Nat → List (Nat × Nat)
  | 0, _, _, _, _ => []
  | fuel + 1, a, b, before, last =>
    if b = 0 then [last]
    else last :: convergents fuel b (a % b) last
      (a / b * last.1 + before.1, a / b * last.2 + before.2)

/-! ## Decimals and powers of two -/

namespace Decimal

/-- Twice a step of the grid `10 ^ exponent` in units of single precision, times `gridScale`. -/
def gridStep (exponent : Int) : Nat := Nat.pow 10 exponent.toNat * (2 * binary32.one)

/-- What makes the step of a fine grid an integer. -/
def gridScale (exponent : Int) : Nat := Nat.pow 10 (-exponent).toNat

/-- The greatest power of two that is not larger than twice a step. -/
def gridShift (exponent : Int) : Nat := (gridStep exponent / gridScale exponent).log2

/-- This power of two, times `gridScale`. -/
def binaryStep (exponent : Int) : Nat := Nat.pow 2 (gridShift exponent) * gridScale exponent

/-- The scale of a grid is positive. -/
theorem gridScale_pos (exponent : Int) : 0 < gridScale exponent := Nat.pow_pos (by decide)

/-- The step of the binary grid is positive. -/
theorem binaryStep_pos (exponent : Int) : 0 < binaryStep exponent :=
  Nat.mul_pos (Nat.two_pow_pos _) (gridScale_pos exponent)

/-- Twice the value of a decimal in units is its coefficient in steps of the grid. -/
theorem two_mul_value (d : Decimal) :
    2 * (d.value * binary32.one) * gridScale d.exponent = d.coefficient * gridStep d.exponent := by
  have hscale : (0 : ℚ) < (10 ^ (-d.exponent).toNat : Nat) := by
    exact_mod_cast Nat.pow_pos (by decide)
  rw [value_mul_eq_div, gridScale, gridStep, Nat.pow_eq, Nat.pow_eq, mul_assoc,
    div_mul_cancel₀ _ hscale.ne']
  push_cast
  ring

/-- The decimals beside a midpoint of single-precision numbers. -/
def nearMidpoints : List Decimal := [⟨14077062, -32⟩, ⟨7038531, -32⟩, ⟨25645849, -15⟩]

/-- Two factors of double precision change a number by no more than one of so many parts. -/
def errorParts : Nat := 2 ^ 52 - 1

/-- How far apart those multiples of the steps are that a fraction is made of. -/
def fractionError (exponent : Int) (fraction : Nat × Nat) : Nat :=
  Int.natAbs (fraction.2 * gridStep exponent - fraction.1 * binaryStep exponent)

/-- All multiples of the steps that are near to one another are in the proportion of a fraction, and
these are not near, or none of them is a midpoint, or they are equal, or the decimal is in the list. -/
@[mk_iff] structure Settles (exponent : Int) (fraction : Nat × Nat) : Prop where
  pos : 0 < fraction.1
  pos_denominator : 0 < fraction.2
  coprime : fraction.1.Coprime fraction.2
  best : 2 ^ 25 * (errorParts * fractionError exponent fraction + fraction.1 * binaryStep exponent) ≤
    errorParts * gridStep exponent
  settled : fraction.1 * binaryStep exponent < errorParts * fractionError exponent fraction ∨
    fraction.1 % 2 = 0 ∨ 2 ^ 25 ≤ fraction.1 ∨
    fractionError exponent fraction = 0 ∧ 0 ≤ exponent ∧ exponent ≤ 10 ∨
    2 ^ 25 ≤ 3 * fraction.1 ∧ ∀ zeros ≤ fraction.2.log2, fraction.2 % 2 ^ zeros = 0 →
      ⟨fraction.2 / 2 ^ zeros, exponent⟩ ∈ nearMidpoints

/-- Whether a fraction settles an exponent can be computed. -/
instance (exponent : Int) (fraction : Nat × Nat) : Decidable (Settles exponent fraction) :=
  decidable_of_iff' _ (settles_iff _ _)

/-- A convergent settles each of the exponents that single-precision numbers have. -/
theorem exists_settles : ∀ place : Nat, place < 84 →
    ∃ fraction ∈ convergents 40 (gridStep (place - 45)) (binaryStep (place - 45)) (0, 1) (1, 0),
      Settles (place - 45) fraction := by
  decide +kernel

/-- Twice the step of a grid is not nearly the next power of two. -/
theorem gridStep_lt : ∀ place : Nat, place < 84 →
    2 ^ 26 * gridStep (place - 45) < (2 ^ 26 - 1) * (2 * binaryStep (place - 45)) := by
  decide +kernel

variable {exponent : Int} {fraction : Nat × Nat} {n shift w : Nat}

/-- An odd multiple of the power of two that is near to a multiple of the decimal step. -/
theorem Settles.of_isNear (h : Settles exponent fraction) (hodd : w % 2 = 1) (hw : w < 2 ^ 25)
    (hnear : IsNear errorParts (n * 2 ^ shift * gridStep exponent : Nat) (w * binaryStep exponent : Nat)) :
    n * 2 ^ shift * gridStep exponent = w * binaryStep exponent ∧ 0 ≤ exponent ∧ exponent ≤ 10 ∨
      ⟨n, exponent⟩ ∈ nearMidpoints := by
  obtain ⟨p, q⟩ := fraction
  obtain ⟨hpos, hposq, hcoprime, hbest, hsettled⟩ := h
  dsimp only at hpos hposq hcoprime hbest hsettled
  have herror : |(q * gridStep exponent - p * binaryStep exponent : Int)| =
      fractionError exponent (p, q) := (Int.natCast_natAbs _).symm
  have hposInt : (0 : Int) < p := Int.natCast_pos.mpr hpos
  have hwInt : (0 : Int) < w := by omega
  have hstep : (0 : Int) < binaryStep exponent := Int.natCast_pos.mpr (binaryStep_pos exponent)
  rw [Nat.cast_mul, Nat.cast_mul w] at hnear
  have heq : ((n * 2 ^ shift : Nat) * p : Int) = w * q := by
    have hlimit : (w : Int) < 2 ^ 25 := by exact_mod_cast hw
    refine mul_eq_mul_of_isNear (Int.natCast_nonneg _) (Int.natCast_nonneg _) hstep hposInt hwInt.le
      hlimit hnear ?_
    rw [herror]
    exact_mod_cast hbest
  have hfraction := isNear_of_mul_eq_mul hposInt hwInt heq hnear
  rw [IsNear, herror] at hfraction
  obtain ⟨factor, rfl⟩ : p ∣ w :=
    hcoprime.dvd_of_dvd_mul_right (Dvd.intro_left (n * 2 ^ shift) (by exact_mod_cast heq))
  have hcount : n * 2 ^ shift = factor * q := by
    refine Nat.eq_of_mul_eq_mul_right hpos ?_
    calc n * 2 ^ shift * p = p * factor * q := by exact_mod_cast heq
      _ = factor * q * p := by ring
  obtain ⟨hoddp, hoddFactor⟩ := Nat.odd_mul.mp (Nat.odd_iff.mpr hodd)
  rw [Nat.odd_iff] at hoddp hoddFactor
  rcases hsettled with hfar | heven | hmany | ⟨hexact, hrange⟩ | ⟨honly, hlisted⟩
  · exact absurd hfar (not_lt.mpr (by exact_mod_cast hfraction))
  · omega
  · exact absurd hw (not_lt.mpr (hmany.trans (Nat.le_mul_of_pos_right p (by omega))))
  · refine .inl ⟨?_, hrange⟩
    have hsteps : q * gridStep exponent = p * binaryStep exponent := by
      rw [hexact, Nat.cast_zero, abs_eq_zero, sub_eq_zero] at herror
      exact_mod_cast herror
    rw [hcount, Nat.mul_assoc, hsteps]
    ring
  · have hfactor : factor < 3 := Nat.lt_of_mul_lt_mul_left (a := p) (by omega)
    obtain rfl : factor = 1 := by omega
    rw [Nat.one_mul] at hcount
    have hmember := hlisted shift
      ((Nat.le_log2 hposq.ne').mpr (Nat.le_of_dvd hposq (Dvd.intro_left n hcount)))
      (by rw [← hcount, Nat.mul_mod_left])
    rw [← hcount, Nat.mul_div_cancel _ (Nat.two_pow_pos shift)] at hmember
    exact .inr hmember

/-- Numbers that are two factors of double precision apart. -/
theorem distance_of_within {a b : ℚ} (h : binary64.Within 2 a b) (ha : 0 ≤ a) (hb : 0 ≤ b) :
    errorParts * |b - a| ≤ a := by
  have hparts : (errorParts : ℚ) = 2 ^ 52 - 1 := by norm_num [errorParts]
  have hshrink : (2 ^ 52 - 1 : ℚ) ≤ 2 ^ 52 * binary64.shrink ^ 2 := by
    rw [BinaryFormat.shrink_binary64]
    norm_num
  have hleft : (2 ^ 52 - 1) * a ≤ 2 ^ 52 * b :=
    calc (2 ^ 52 - 1) * a ≤ 2 ^ 52 * binary64.shrink ^ 2 * a := mul_le_mul_of_nonneg_right hshrink ha
      _ = 2 ^ 52 * (binary64.shrink ^ 2 * a) := mul_assoc _ _ _
      _ ≤ 2 ^ 52 * b := mul_le_mul_of_nonneg_left h.left (by positivity)
  have hright : (2 ^ 52 - 1) * b ≤ 2 ^ 52 * a :=
    calc (2 ^ 52 - 1) * b ≤ 2 ^ 52 * binary64.shrink ^ 2 * b := mul_le_mul_of_nonneg_right hshrink hb
      _ = 2 ^ 52 * (binary64.shrink ^ 2 * b) := mul_assoc _ _ _
      _ ≤ 2 ^ 52 * a := mul_le_mul_of_nonneg_left h.right (by positivity)
  rw [hparts]
  rcases abs_cases (b - a) with ⟨habs, -⟩ | ⟨habs, -⟩ <;> rw [habs] <;> linarith

/-- The step of a midpoint that is not much larger than twice the step of a grid is a power of two that
is not larger than this. -/
theorem shift_le_gridShift (hlow : -45 ≤ exponent) (hhigh : exponent ≤ 38)
    (h : (2 ^ 26 - 1) * (2 ^ shift * gridScale exponent) ≤ 2 ^ 26 * gridStep exponent) :
    shift ≤ gridShift exponent := by
  have hlt := gridStep_lt (exponent + 45).toNat (by omega)
  rw [show ((exponent + 45).toNat - 45 : Int) = exponent by omega] at hlt
  have hless := Nat.lt_of_mul_lt_mul_left (h.trans_lt hlt)
  rw [binaryStep, ← Nat.mul_assoc, Nat.pow_eq, ← Nat.pow_succ'] at hless
  have hpow := Nat.lt_of_mul_lt_mul_right hless
  exact Nat.le_of_lt_succ ((Nat.pow_lt_pow_iff_right (by decide)).mp hpow)

/-- A grid with a step that is not too small for a coefficient has an exponent of `-45` at least. -/
theorem exponent_ge_of_gridScale
    (h : (2 ^ 26 - 1) * (2 ^ shift * gridScale exponent) ≤ 2 ^ 26 * gridStep exponent) :
    -45 ≤ exponent := by
  refine le_of_not_gt fun hlt => ?_
  have hscale : 10 ^ 46 ≤ gridScale exponent := Nat.pow_le_pow_right (by decide) (by omega)
  have hstep : gridStep exponent = 2 ^ 150 := by
    rw [gridStep, Int.toNat_of_nonpos (by omega)]
    decide +kernel
  have hle : gridScale exponent ≤ 2 ^ shift * gridScale exponent :=
    Nat.le_mul_of_pos_left _ (Nat.two_pow_pos shift)
  rw [hstep] at h
  omega

variable {d : Decimal}

/-- A midpoint whose distance to its number is hardly larger than the step of a grid. -/
theorem gridStep_ge_of_distance (hw : w < 2 ^ 25)
    (hdistance : errorParts * |2 * (d.value * binary32.one) - w * 2 ^ shift| ≤ w * 2 ^ shift)
    (hstep : (2 ^ shift : ℚ) ≤ 2 * (10 ^ d.exponent * binary32.one) +
      |2 * (d.value * binary32.one) - w * 2 ^ shift|) :
    (2 ^ 26 - 1) * (2 ^ shift * gridScale d.exponent) ≤ 2 ^ 26 * gridStep d.exponent := by
  have hgrid := two_mul_value ⟨1, d.exponent⟩
  rw [value, Nat.cast_one, one_mul, one_mul] at hgrid
  have hparts : (2 ^ 51 : ℚ) ≤ errorParts := by exact_mod_cast (by decide : 2 ^ 51 ≤ errorParts)
  have hwide : (w * 2 ^ shift : ℚ) ≤ 2 ^ 25 * 2 ^ shift := by
    exact_mod_cast Nat.mul_le_mul_right (2 ^ shift) hw.le
  have hsmall := mul_le_mul_of_nonneg_right hparts
    (abs_nonneg (2 * (d.value * binary32.one) - w * 2 ^ shift))
  have hle : (2 ^ 26 - 1) * 2 ^ shift ≤ 2 ^ 26 * (2 * (10 ^ d.exponent * (binary32.one : ℚ))) := by
    linarith
  have hscaled := mul_le_mul_of_nonneg_right hle (Nat.cast_nonneg (gridScale d.exponent))
  rw [mul_assoc, mul_assoc, hgrid] at hscaled
  have hconstant : ((2 ^ 26 - 1 : Nat) : ℚ) = 2 ^ 26 - 1 := by norm_num
  rw [← hconstant] at hscaled
  exact_mod_cast hscaled

/-- A decimal with a midpoint of single-precision numbers near to it whose distance to its number is
hardly larger than the step of the decimal's grid. -/
theorem of_near_midpoint (hodd : w % 2 = 1) (hw : w < 2 ^ 25) (hhigh : d.exponent ≤ 38)
    (hnear : binary64.Within 2 (w * 2 ^ shift) (2 * (d.value * binary32.one)))
    (hstep : (2 ^ shift : ℚ) ≤ 2 * (10 ^ d.exponent * binary32.one) +
      |2 * (d.value * binary32.one) - w * 2 ^ shift|) :
    2 * (d.value * binary32.one) = w * 2 ^ shift ∧ 0 ≤ d.exponent ∧ d.exponent ≤ 10 ∨
      d ∈ nearMidpoints := by
  have hvalue := d.two_mul_value
  have hunits : 0 ≤ 2 * (d.value * binary32.one) :=
    mul_nonneg two_pos.le (mul_nonneg (mul_nonneg (Nat.cast_nonneg _) (ten_zpow_pos _).le)
      binary32.cast_one_pos.le)
  have hdistance := distance_of_within hnear (by positivity) hunits
  have hcoarse := gridStep_ge_of_distance hw hdistance hstep
  have hlow := exponent_ge_of_gridScale hcoarse
  obtain ⟨rest, hrest⟩ := Nat.exists_eq_add_of_le (shift_le_gridShift hlow hhigh hcoarse)
  obtain ⟨fraction, -, hsettles⟩ := exists_settles (d.exponent + 45).toNat (by omega)
  rw [show ((d.exponent + 45).toNat - 45 : Int) = d.exponent by omega] at hsettles
  -- both are multiples of the two steps if counted in their common parts
  generalize 2 * (d.value * binary32.one) = units at hvalue hdistance ⊢
  have hscale : (0 : ℚ) < gridScale d.exponent := by exact_mod_cast gridScale_pos d.exponent
  have hfactor : (0 : ℚ) < gridScale d.exponent * 2 ^ rest := by positivity
  have hdecimal : units * (gridScale d.exponent * 2 ^ rest) =
      (d.coefficient * 2 ^ rest * gridStep d.exponent : Nat) := by
    rw [← mul_assoc, hvalue]
    push_cast
    ring
  have hmidpoint : w * 2 ^ shift * (gridScale d.exponent * 2 ^ rest) =
      ((w * binaryStep d.exponent : Nat) : ℚ) := by
    rw [binaryStep, hrest, Nat.pow_eq, Nat.pow_add]
    push_cast
    ring
  have hmultiples : IsNear errorParts (d.coefficient * 2 ^ rest * gridStep d.exponent : Nat)
      (w * binaryStep d.exponent : Nat) := by
    rw [IsNear, ← Int.cast_le (R := ℚ), Int.cast_mul, Int.cast_abs, Int.cast_sub]
    simp only [Int.cast_natCast]
    rw [← hdecimal, ← hmidpoint, ← sub_mul, abs_mul, abs_of_pos hfactor, ← mul_assoc]
    exact mul_le_mul_of_nonneg_right hdistance hfactor.le
  refine (hsettles.of_isNear hodd hw hmultiples).imp_left fun ⟨hexact, hrange⟩ => ⟨?_, hrange⟩
  refine mul_right_cancel₀ hfactor.ne' ?_
  rw [hdecimal, hmidpoint, hexact]

end Decimal

namespace BinaryFormat

/-- The midpoint between two neighbours, counted twice, is an odd number of the step between them. -/
theorem exists_midpoint (f : BinaryFormat) (code : Nat) :
    ∃ odd shift, odd % 2 = 1 ∧ odd < 4 * f.fractionCount ∧
      f.magnitude code + f.magnitude (code + 1) = odd * 2 ^ shift ∧
      f.magnitude (code + 1) = f.magnitude code + 2 ^ shift := by
  obtain ⟨shift, significand, hsplit⟩ := exists_split (f := f) code
  have hlt := hsplit.lt
  refine ⟨2 * significand + 1, shift, by omega, by omega, ?_, ?_⟩ <;>
    rw [hsplit.magnitude, hsplit.magnitude_succ] <;> ring

end BinaryFormat

namespace Binary

open BinaryFormat

variable {y : Binary binary32} {tie : TieRule}

/-- The exponent of a shortest decimal of single precision is `38` at most. -/
theorem exponent_shortest_le (hy : y.IsRegular) : (y.shortest tie).exponent ≤ 38 := by
  have hrounds := roundsTo_shortest tie hy
  have hlt := hrounds.lt_infinity hy.2
  have hcoefficient : (1 : ℚ) ≤ (y.shortest tie).coefficient := by
    exact_mod_cast Nat.one_le_iff_ne_zero.mpr (hrounds.coefficient_ne_zero hy.1)
  have hone := binary32.cast_one_pos
  refine Int.lt_add_one_iff.mp (lt_of_not_ge fun hle => ?_)
  have hlimit : binary32.magnitude binary32.infinityCode ≤ Nat.pow 10 39 * binary32.one := by
    decide +kernel
  have hpower : (10 ^ 39 : ℚ) ≤ 10 ^ (y.shortest tie).exponent := by
    rw [← zpow_natCast]
    exact Decimal.ten_zpow_le hle
  have hvalue : (10 ^ 39 : ℚ) ≤ (y.shortest tie).value :=
    hpower.trans (le_mul_of_one_le_left (Decimal.ten_zpow_pos _).le hcoefficient)
  have hlimitCast : (binary32.magnitude binary32.infinityCode : ℚ) ≤ 10 ^ 39 * binary32.one := by
    exact_mod_cast hlimit
  have hscaled := mul_le_mul_of_nonneg_right hvalue hone.le
  linarith

/-- One of the midpoints around a number is near to its shortest decimal only if it is this decimal, or
the decimal is one of `Decimal.nearMidpoints`. -/
theorem shortest_of_near_midpoint {code : Nat} (hy : y.IsRegular)
    (hcode : y.code = code ∨ y.code = code + 1)
    (hnear : binary64.Within 2 (binary32.magnitude code + binary32.magnitude (code + 1))
      (2 * ((y.shortest tie).value * binary32.one))) :
    2 * ((y.shortest tie).value * binary32.one) =
        binary32.magnitude code + binary32.magnitude (code + 1) ∧
      0 ≤ (y.shortest tie).exponent ∧ (y.shortest tie).exponent ≤ 10 ∨
      y.shortest tie ∈ Decimal.nearMidpoints := by
  obtain ⟨odd, shift, hodd, hlt, hsum, hsucc⟩ := exists_midpoint binary32 code
  have hsumCast : (binary32.magnitude code + binary32.magnitude (code + 1) : ℚ) = odd * 2 ^ shift := by
    exact_mod_cast hsum
  have hsuccCast : (binary32.magnitude (code + 1) : ℚ) = binary32.magnitude code + 2 ^ shift := by
    exact_mod_cast hsucc
  have hdistance := distance_shortest tie y
  have hself : (y.units : ℚ) = binary32.magnitude y.code := rfl
  rw [hsumCast] at hnear ⊢
  refine Decimal.of_near_midpoint hodd hlt (exponent_shortest_le hy) hnear ?_
  -- the number is half a step away from the midpoint
  rw [hself, abs_le] at hdistance
  have hmidpoint := abs_le.mp (le_refl |2 * ((y.shortest tie).value * binary32.one) - odd * 2 ^ shift|)
  rcases hcode with rfl | hcode
  · linarith
  · rw [hcode] at hdistance
    linarith

end Binary

end RecordCoercion
