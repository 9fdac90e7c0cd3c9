import Mathlib.Algebra.Order.Field.Power
import RecordCoercion.Numeric.FloatLiteral
import RecordCoercion.Numeric.FloatText
import RecordCoercion.Proofs.Numeric.Nearest

/-!
# Decimals that identify a number

A decimal identifies a number of a format if its value rounds to the number. The shortest decimal of
a finite number other than zero does (`Binary.roundsTo_shortest`), on whatever grid it is found. The
reader of decimals gives the identified number: neither of the two short cuts by which it avoids
large powers of ten is open to such a decimal (`Binary.ofDecimal_of_roundsTo`).
-/

set_option autoImplicit false

namespace RecordCoercion

namespace Decimal

/-- The number that a decimal denotes. -/
def value (d : Decimal) : ℚ := d.coefficient * 10 ^ d.exponent

/-- A power of ten is positive. -/
theorem ten_zpow_pos (e : Int) : (0 : ℚ) < 10 ^ e := zpow_pos (by norm_num) e

/-- Powers of ten grow with their exponents. -/
theorem ten_zpow_le {e e' : Int} (h : e ≤ e') : (10 : ℚ) ^ e ≤ 10 ^ e' :=
  zpow_le_zpow_right₀ (by norm_num) h

/-- As a quotient of natural numbers, a decimal has a power of ten above or below. -/
theorem value_mul_eq_div (d : Decimal) (unit : Nat) :
    d.value * unit = ((d.coefficient * 10 ^ d.exponent.toNat * unit : Nat) : ℚ) /
      ((10 ^ (-d.exponent).toNat : Nat) : ℚ) := by
  have hexponent : d.exponent = (d.exponent.toNat : Int) - ((-d.exponent).toNat : Int) := by omega
  rw [value, hexponent, zpow_sub₀ (by norm_num), zpow_natCast, zpow_natCast, ← hexponent]
  push_cast
  ring

/-- Zeros behind the digits of a decimal do not change its value. -/
theorem value_shift (coefficient shift : Nat) (exponent : Int) :
    (⟨coefficient * 10 ^ shift, exponent - shift⟩ : Decimal).value =
      (⟨coefficient, exponent⟩ : Decimal).value := by
  simp only [value]
  rw [zpow_sub₀ (by norm_num), zpow_natCast]
  push_cast
  field_simp

/-- The place of a decimal's point, counted from its first digit, bounds its value. -/
theorem value_lt (d : Decimal) : d.value < 10 ^ (width d.coefficient + d.exponent) := by
  have hwidth : d.coefficient < 10 ^ width d.coefficient :=
    (Nat.length_toDigits_le_iff (by decide) Nat.length_toDigits_pos).mp le_rfl
  have hcast : (d.coefficient : ℚ) < 10 ^ width d.coefficient := by exact_mod_cast hwidth
  rw [value, zpow_add₀ (by norm_num), zpow_natCast]
  exact mul_lt_mul_of_pos_right hcast (ten_zpow_pos _)

/-- A decimal is at least the power of ten of its leading digit. -/
theorem le_value {d : Decimal} (h : d.coefficient ≠ 0) :
    10 ^ (width d.coefficient + d.exponent - 1) ≤ d.value := by
  have hpos : 0 < width d.coefficient := Nat.length_toDigits_pos
  obtain ⟨k, hk⟩ : ∃ k, width d.coefficient = k + 1 := ⟨width d.coefficient - 1, by omega⟩
  have hwidth : 10 ^ k ≤ d.coefficient := by
    cases k with
    | zero => exact Nat.one_le_iff_ne_zero.mpr h
    | succ k =>
      refine Nat.le_of_not_lt fun hlt => ?_
      have hle : width d.coefficient ≤ k + 1 :=
        (Nat.length_toDigits_le_iff (by decide) (Nat.succ_pos k)).mpr hlt
      omega
  have hcast : (10 ^ k : ℚ) ≤ d.coefficient := by exact_mod_cast hwidth
  rw [value, hk, show ((k + 1 : Nat) : Int) + d.exponent - 1 = (k : Int) + d.exponent by omega,
    zpow_add₀ (by norm_num), zpow_natCast]
  exact mul_le_mul_of_nonneg_right hcast (ten_zpow_pos _).le

/-- A decimal is below a power of ten exactly if its point does not lie beyond it. -/
theorem value_lt_iff {d : Decimal} (h : d.coefficient ≠ 0) (t : Int) :
    d.value < 10 ^ t ↔ width d.coefficient + d.exponent ≤ t := by
  constructor
  · intro hlt
    refine le_of_not_gt fun htop => ?_
    have hle : (10 : ℚ) ^ t ≤ d.value :=
      (ten_zpow_le (by omega)).trans (le_value h)
    exact absurd hlt (not_lt.mpr hle)
  · intro htop
    exact d.value_lt.trans_le (ten_zpow_le htop)

end Decimal

/-! ## Reading the identified number -/

namespace BinaryFormat

variable {f : BinaryFormat} {code : Nat} {d : Decimal}

/-- Infinity continues the magnitudes with a power of two. -/
theorem magnitude_infinityCode (f : BinaryFormat) :
    f.magnitude f.infinityCode = 2 ^ (f.scale + 2 ^ (f.exponentBits - 1)) := by
  have hp := f.two_le_precision
  have he := f.two_le_exponentBits
  have hhalf : 2 ≤ 2 ^ (f.exponentBits - 1) :=
    Nat.pow_le_pow_right (n := 2) (by decide) (show 1 ≤ f.exponentBits - 1 by omega)
  have hfull : 2 ^ f.exponentBits = 2 * 2 ^ (f.exponentBits - 1) := by
    rw [← Nat.pow_succ']
    congr 1
    omega
  have hcode : f.infinityCode =
      (2 ^ f.exponentBits - 2) * f.fractionCount + f.fractionCount := by
    rw [infinityCode, Nat.pow_eq, ← Nat.succ_mul]
    congr 1
    omega
  rw [hcode, magnitude_eq (by omega) (.inr le_rfl), fractionCount, Nat.pow_eq, ← Nat.pow_add]
  congr 1
  simp only [scale, Nat.pow_eq]
  omega

/-- What rounds to a code other than zero is at least half a unit. -/
theorem RoundsTo.one_le {units : ℚ} (h : f.RoundsTo code units) (hpos : 0 < code) :
    1 ≤ 2 * units := by
  have hmagnitude : (1 : ℚ) ≤ f.magnitude code := by exact_mod_cast magnitude_pos hpos
  have hpred : (0 : ℚ) ≤ f.magnitude (code - 1) := Nat.cast_nonneg _
  have hbelow := h.below
  linarith

/-- What rounds to a finite number is less than infinity. -/
theorem RoundsTo.lt_infinity {units : ℚ} (h : f.RoundsTo code units)
    (hfinite : code < f.infinityCode) : units < f.magnitude f.infinityCode := by
  have hlt : (f.magnitude code : ℚ) < f.magnitude f.infinityCode := by
    exact_mod_cast f.strictMono_magnitude hfinite
  have hsucc : (f.magnitude (code + 1) : ℚ) ≤ f.magnitude f.infinityCode := by
    exact_mod_cast f.strictMono_magnitude.monotone hfinite
  have habove := h.above
  linarith

/-- One in units as a power of two. -/
theorem cast_one (f : BinaryFormat) : (f.one : ℚ) = 2 ^ f.scale := by
  rw [one, Nat.pow_eq]
  push_cast
  rfl

/-- A decimal with its point far to the left is less than half a unit. -/
theorem two_mul_value_lt_one
    (h : (Decimal.width d.coefficient + d.exponent : Int) ≤ -(f.scale + 1 : Nat)) :
    2 * (d.value * f.one) < 1 := by
  have hvalue : d.value < 10 ^ (-(f.scale + 1 : Nat) : Int) :=
    lt_of_lt_of_le d.value_lt (Decimal.ten_zpow_le h)
  -- this power of ten is half a unit at most, as the power of two with its exponent is
  have hsmall : (10 : ℚ) ^ (-(f.scale + 1 : Nat) : Int) * 2 ^ f.scale ≤ 1 / 2 := by
    have hpow : (2 : ℚ) ^ (f.scale + 1) ≤ 10 ^ (f.scale + 1) :=
      pow_le_pow_left₀ (by norm_num) (by norm_num) _
    rw [pow_succ 2] at hpow
    rw [zpow_neg, zpow_natCast, inv_mul_le_iff₀ (by positivity)]
    linarith
  have hscaled : d.value * f.one < 10 ^ (-(f.scale + 1 : Nat) : Int) * 2 ^ f.scale := by
    rw [f.cast_one]
    exact mul_lt_mul_of_pos_right hvalue (by positivity)
  linarith

/-- A decimal with its point far to the right is not below the power of two after the finite numbers. -/
theorem two_pow_le_value (hne : d.coefficient ≠ 0)
    (h : ((2 ^ (f.exponentBits - 1) : Nat) : Int) < Decimal.width d.coefficient + d.exponent) :
    (2 : ℚ) ^ 2 ^ (f.exponentBits - 1) ≤ d.value := by
  have hvalue : (10 : ℚ) ^ 2 ^ (f.exponentBits - 1) ≤ d.value := by
    refine le_trans ?_ (Decimal.le_value hne)
    rw [← zpow_natCast]
    exact Decimal.ten_zpow_le (by omega)
  exact (pow_le_pow_left₀ (by norm_num) (by norm_num) _).trans hvalue

/-- A decimal for a number other than zero is not too small for any. -/
theorem RoundsTo.lt_top (h : f.RoundsTo code (d.value * f.one)) (hpos : 0 < code) :
    -(f.scale + 1 : Nat) < Decimal.width d.coefficient + d.exponent :=
  lt_of_not_ge fun htop => absurd (h.one_le hpos) (not_le.mpr (two_mul_value_lt_one htop))

/-- A decimal that rounds to a positive number has a digit that is not zero. -/
theorem RoundsTo.coefficient_ne_zero (h : f.RoundsTo code (d.value * f.one)) (hpos : 0 < code) :
    d.coefficient ≠ 0 := by
  intro hzero
  have hle := h.one_le hpos
  rw [Decimal.value, hzero, Nat.cast_zero, zero_mul, zero_mul] at hle
  linarith

/-- A decimal for a finite number is not too large for any. -/
theorem RoundsTo.top_le (h : f.RoundsTo code (d.value * f.one)) (hpos : 0 < code)
    (hfinite : code < f.infinityCode) :
    Decimal.width d.coefficient + d.exponent ≤ (2 ^ (f.exponentBits - 1) : Nat) := by
  refine le_of_not_gt fun htop => ?_
  have hvalue := two_pow_le_value (h.coefficient_ne_zero hpos) htop
  have hscaled : (2 : ℚ) ^ 2 ^ (f.exponentBits - 1) * 2 ^ f.scale ≤ d.value * f.one := by
    rw [f.cast_one]
    exact mul_le_mul_of_nonneg_right hvalue (by positivity)
  have hlt := h.lt_infinity hfinite
  rw [f.magnitude_infinityCode, Nat.pow_add, Nat.mul_comm] at hlt
  push_cast at hlt
  linarith

end BinaryFormat

namespace Binary

variable {f : BinaryFormat} {x : Binary f}

/-- A number that is neither zero nor beyond the finite ones. -/
def IsRegular (x : Binary f) : Prop := 0 < x.code ∧ x.code < f.infinityCode

/-- A number with a code above zero is not zero. -/
theorem not_isZero (h : 0 < x.code) : ¬x.isZero = true := by
  simp only [isZero, decide_eq_true_eq]
  omega

/-- The decimals of a number are read as the number. -/
theorem ofDecimal_of_roundsTo {d : Decimal} (hx : x.IsRegular)
    (h : f.RoundsTo x.code (d.value * f.one)) : ofDecimal f x.negative d = x := by
  obtain ⟨hpos, hfinite⟩ := hx
  have hlow : ¬ (d.coefficient = 0 ∨
      (Decimal.width d.coefficient + d.exponent : Int) ≤ -(f.scale + 1 : Nat)) := by
    rintro (hzero | htop)
    · exact h.coefficient_ne_zero hpos hzero
    · exact absurd (h.lt_top hpos) (not_lt.mpr htop)
  have hhigh : ¬ ((Nat.pow 2 (f.exponentBits - 1) : Nat) : Int) <
      Decimal.width d.coefficient + d.exponent :=
    not_lt.mpr (h.top_le hpos hfinite)
  have hden : 0 < 10 ^ (-d.exponent).toNat := Nat.pow_pos (by decide)
  have hcode : f.nearestCode (d.coefficient * 10 ^ d.exponent.toNat * f.one)
      (10 ^ (-d.exponent).toNat) = x.code := by
    refine BinaryFormat.nearestCode_of_between hden hpos hfinite.le ?_
    rw [BinaryFormat.between_iff_roundsTo hden, ← Decimal.value_mul_eq_div]
    exact h
  simp only [ofDecimal, Bool.or_eq_true, decide_eq_true_eq]
  rw [if_neg hlow, if_neg hhigh]
  simp only [ofRatio, Nat.pow_eq, hcode]

/-! ## The shortest decimal -/

/-- A number covers the points of a decimal grid that round to its code. -/
theorem covers_grid_iff (n : Nat) (q : Int) :
    x.covers (n * (f.one * Nat.pow 10 q.toNat)) (Nat.pow 10 (-q).toNat) = true ↔
      f.RoundsTo x.code ((⟨n, q⟩ : Decimal).value * f.one) := by
  rw [Nat.pow_eq, Nat.pow_eq, covers_iff (Nat.pow_pos (by decide)), Decimal.value_mul_eq_div,
    Nat.mul_comm f.one, ← Nat.mul_assoc]

/-- The point of a grid that is taken for a number rounds to it. -/
theorem roundsTo_of_onGrid? {tie : TieRule} {q : Int} {d : Decimal}
    (h : x.onGrid? tie q = some d) : f.RoundsTo x.code (d.value * f.one) := by
  simp only [onGrid?] at h
  split at h
  next hbelow habove =>
    obtain rfl := Option.some.inj h
    split
    · exact (covers_grid_iff _ q).mp hbelow
    · exact (covers_grid_iff _ q).mp habove
  next hbelow _ =>
    obtain rfl := Option.some.inj h
    exact (covers_grid_iff _ q).mp hbelow
  next _ habove =>
    obtain rfl := Option.some.inj h
    exact (covers_grid_iff _ q).mp habove
  next => cases h

/-- The expansion of a number is its exact value. -/
theorem value_exactDecimal (x : Binary f) : x.exactDecimal.value * f.one = x.units := by
  have hten : (10 : ℚ) ^ f.scale = 5 ^ f.scale * 2 ^ f.scale := by
    rw [← mul_pow]
    norm_num
  simp only [Decimal.value, exactDecimal]
  rw [f.cast_one, zpow_neg, zpow_natCast, hten, Nat.pow_eq]
  push_cast
  field_simp

/-- The shortest decimal of a number identifies it. -/
theorem roundsTo_shortest (tie : TieRule) (hx : x.IsRegular) :
    f.RoundsTo x.code ((x.shortest tie).value * f.one) := by
  simp only [shortest]
  cases hfound : (List.range f.precision).findSome? fun (digit : Nat) =>
      x.onGrid? tie (Decimal.leadingExponent x.units f.one - digit) with
  | none =>
    rw [Option.getD_none, value_exactDecimal]
    exact BinaryFormat.roundsTo_magnitude hx.1
  | some d =>
    obtain ⟨digit, -, hgrid⟩ := List.exists_of_findSome?_eq_some hfound
    exact roundsTo_of_onGrid? hgrid

/-- Whatever has the value of the shortest decimal is read as the number. -/
theorem ofDecimal_of_value_eq {d : Decimal} (tie : TieRule) (hx : x.IsRegular)
    (h : d.value = (x.shortest tie).value) : ofDecimal f x.negative d = x := by
  refine ofDecimal_of_roundsTo hx ?_
  rw [h]
  exact roundsTo_shortest tie hx

/-- The sign has no part in the shortest decimal. -/
theorem shortest_congr {x y : Binary f} (tie : TieRule) (h : x.code = y.code) :
    x.shortest tie = y.shortest tie := by
  obtain ⟨_, code, _⟩ := x
  obtain ⟨_, _, _⟩ := y
  cases h
  rfl

/-- Shortest decimals are ordered like the numbers that they identify. -/
theorem value_shortest_lt_iff {x y : Binary f} (tie : TieRule) (hx : x.IsRegular)
    (hy : y.IsRegular) :
    (x.shortest tie).value < (y.shortest tie).value ↔ x.code < y.code := by
  have hone : (0 : ℚ) < f.one := by
    rw [f.cast_one]
    positivity
  have hxr := roundsTo_shortest tie hx
  have hyr := roundsTo_shortest tie hy
  rcases Nat.lt_trichotomy x.code y.code with hlt | heq | hgt
  · exact iff_of_true ((mul_lt_mul_iff_left₀ hone).mp (hxr.lt hyr hlt)) hlt
  · rw [shortest_congr tie heq]
    exact iff_of_false (lt_irrefl _) heq.not_lt
  · have hless := (mul_lt_mul_iff_left₀ hone).mp (hyr.lt hxr hgt)
    exact iff_of_false hless.not_gt (Nat.lt_asymm hgt)

end Binary

end RecordCoercion
