import RecordCoercion.Proofs.Json.RereadNumbers
import RecordCoercion.Proofs.Numeric.NearMidpoints

/-!
# Single-precision numbers that are read from their text

A single-precision number is read as a double, which is narrowed. The double is two rounding factors away
from the digits, and none of the midpoints around the number is as near to them
(`rereadDouble?_of_single`), but for a few that are checked by themselves.
-/

set_option autoImplicit false

namespace RecordCoercion.Json

open BinaryFormat

variable {y : Binary binary32}

/-- The digits of a single-precision number, with the zeros that fill them up, make up `10 ^ 14` at most. -/
theorem coefficient_floatParts_of_single (hfinite : y.isFinite = true) :
    (floatParts singleLayout y).decimal.coefficient ≤ 10 ^ 14 :=
  have hcount : 2 * binary32.fractionCount ≤ 10 ^ 8 := by decide
  coefficient_floatParts_le hfinite hcount (by decide) (by decide) (by decide)

/-- Every finite single-precision number is read as some double. -/
theorem isSome_rereadDouble?_of_single (hfinite : y.isFinite = true) :
    (rereadDouble? singleLayout y).isSome = true := by
  have hfits := coefficient_floatParts_of_single hfinite
  by_cases hzero : y.isZero = true
  · rw [decimal_floatParts_of_isZero singleLayout hzero] at hfits
    rw [rereadDouble?, decimal_floatParts_of_isZero singleLayout hzero]
    refine isSome_fastDouble? y.negative (.inr (by decide)) hfits (by decide) ?_
    rw [Decimal.value, Nat.cast_zero, zero_mul, zero_mul, mul_zero]
    exact add_nonneg (Nat.cast_nonneg _) (Nat.cast_nonneg _)
  have hx := isRegular_of_isFinite hfinite hzero
  have hrounds := Binary.roundsTo_shortest singleLayout.tie hx
  rw [← value_floatParts singleLayout hx] at hrounds
  refine isSome_fastDouble? y.negative (.inl (coefficient_floatParts_pos singleLayout hx)) hfits
    (by decide) ?_
  have hlt := hrounds.lt_infinity hx.2
  have hscale := binary32_le_binary64.one_eq
  have hlimit : 2 * (2 ^ (binary64.scale - binary32.scale) * binary32.magnitude binary32.infinityCode) ≤
      binary64.magnitude (binary64.infinityCode - 3) +
        binary64.magnitude (binary64.infinityCode - 2) := by decide +kernel
  generalize binary64.scale - binary32.scale = shift at hscale hlimit
  have hlimitCast : (2 * (2 ^ shift * binary32.magnitude binary32.infinityCode) : ℚ) ≤
      binary64.magnitude (binary64.infinityCode - 3) +
        binary64.magnitude (binary64.infinityCode - 2) := by exact_mod_cast hlimit
  refine le_trans ?_ hlimitCast
  calc 2 * ((floatParts singleLayout y).decimal.value * binary64.one)
      = 2 * (2 ^ shift * ((floatParts singleLayout y).decimal.value * binary32.one)) := by
        rw [hscale]
        push_cast
        ring
    _ ≤ 2 * (2 ^ shift * binary32.magnitude binary32.infinityCode) := by gcongr

/-- The double that is read is two factors away from the digits of the number. -/
theorem rereadDouble?_within_of_single {z : Binary binary64} (hy : y.IsRegular)
    (h : rereadDouble? singleLayout y = some z) :
    z.isFinite = true ∧ z.negative = y.negative ∧ binary64.Within 2 z.units
      (2 ^ 925 * ((y.shortest singleLayout.tie).value * binary32.one)) := by
  have hrounds := Binary.roundsTo_shortest singleLayout.tie hy
  rw [← value_floatParts singleLayout hy] at hrounds ⊢
  have hcount : 2 * binary32.fractionCount ≤ 10 ^ 8 := by decide
  have hplace : binary32.one < 10 ^ 45 := by decide +kernel
  have hlast := exponent_floatParts_ge singleLayout hy (by decide) hplace hcount (by decide)
  have hfits := coefficient_floatParts_of_single (decide_eq_true hy.2)
  obtain ⟨hfinite, hsign, q, hq, hclose⟩ := fastDouble?_within
    (coefficient_floatParts_pos singleLayout hy) hfits (by decide) (by omega)
    (significand_within_of_exact (hfits.trans (by decide))) powerOfTen_within h
  refine ⟨hfinite, hsign, ?_⟩
  rw [Binary.one_binary64, Nat.cast_mul, Nat.cast_pow, Nat.cast_ofNat, mul_left_comm] at hclose
  have hnormal : (binary64.fractionCount : ℚ) ≤ q := by
    have hhalf := hrounds.one_le hy.1
    generalize (floatParts singleLayout y).decimal.value * binary32.one = units at hhalf hclose
    have hscale : (2 : ℚ) ^ 54 ≤ 2 ^ 925 := pow_le_pow_right₀ (by norm_num) (by norm_num)
    have hunits : 2 ^ 53 ≤ 2 ^ 925 * units := by
      refine le_trans ?_ (mul_le_mul_of_nonneg_right hscale (by linarith))
      linarith
    have hshrink : 1 / 2 ≤ binary64.shrink ^ 1 := by
      rw [shrink_binary64]
      norm_num
    have hcount : (binary64.fractionCount : ℚ) = 1 / 2 * 2 ^ 53 := by
      rw [show binary64.fractionCount = 2 ^ 52 from rfl]
      norm_num
    rw [hcount]
    exact (mul_le_mul hshrink hunits (by positivity) (pow_nonneg binary64.shrink_pos.le 1)).trans
      hclose.right
  exact (hq.within (hq.fractionCount_le hnormal)).trans hclose

/-- A number whose digits are a midpoint beside it is read as this midpoint. -/
theorem rereadDouble?_of_midpoint {code : Nat} (hy : y.IsRegular)
    (hexact : 2 * ((y.shortest singleLayout.tie).value * binary32.one) =
      binary32.magnitude code + binary32.magnitude (code + 1))
    (hlow : 0 ≤ (y.shortest singleLayout.tie).exponent)
    (hhigh : (y.shortest singleLayout.tie).exponent ≤ 10) :
    (rereadDouble? singleLayout y).map (Binary.convert binary32) = some y := by
  have hrounds := Binary.roundsTo_shortest singleLayout.tie hy
  have hfits := coefficient_floatParts_of_single (decide_eq_true hy.2)
  have hexponent := exponent_floatParts singleLayout hy
  obtain ⟨odd, shift, hodd, hlt, hsum, -⟩ := exists_midpoint binary32 code
  obtain ⟨wide, hwide⟩ := exists_magnitude_eq (f := binary64) (shift + 924)
    (hlt.trans_le (by decide : 4 * binary32.fractionCount ≤ 2 * binary64.fractionCount))
  have hunits : 2 ^ 925 * ((y.shortest singleLayout.tie).value * binary32.one) =
      (binary64.magnitude wide : ℚ) := by
    have hshift : ∀ k, ((odd * 2 ^ (shift + k) : Nat) : ℚ) = (odd * 2 ^ shift : Nat) * 2 ^ k := by
      intro k
      rw [Nat.pow_add, ← Nat.mul_assoc]
      push_cast
      rfl
    rw [hwide, hshift, ← hsum, Nat.cast_add, ← hexact, pow_succ _ 924, mul_assoc, mul_comm]
  have hwideRegular : 0 < wide ∧ wide < binary64.infinityCode := by
    constructor
    · refine Nat.pos_of_ne_zero fun hzero => ?_
      have hpos := Nat.mul_pos (show 0 < odd by omega) (Nat.two_pow_pos (shift + 924))
      rw [hzero, magnitude_zero] at hwide
      omega
    · have hlimit : 2 ^ 925 * binary32.magnitude binary32.infinityCode ≤
          binary64.magnitude binary64.infinityCode := by decide +kernel
      have hlimitCast : (2 ^ 925 * binary32.magnitude binary32.infinityCode : ℚ) ≤
          binary64.magnitude binary64.infinityCode := by exact_mod_cast hlimit
      refine binary64.strictMono_magnitude.lt_iff_lt.mp ?_
      rw [← Nat.cast_lt (α := ℚ), ← hunits]
      exact (mul_lt_mul_of_pos_left (hrounds.lt_infinity hy.2) (by positivity)).trans_le hlimitCast
  have hdecimal : (floatParts singleLayout y).decimal.value * binary64.one =
      (binary64.magnitude wide : ℚ) := by
    rw [value_floatParts singleLayout hy, ← hunits, Binary.one_binary64, Nat.cast_mul, Nat.cast_pow,
      Nat.cast_ofNat, mul_left_comm]
  have hread := fastDouble?_of_exact
    (x := ⟨y.negative, wide, hwideRegular.2.trans binary64.infinityCode_lt_codeCount⟩) hwideRegular
    (d := (floatParts singleLayout y).decimal) (hfits.trans (by decide)) (by omega) (by omega)
    (by rw [hdecimal]; exact roundsTo_magnitude hwideRegular.1)
  rw [rereadDouble?, hread, Option.map_some]
  refine congrArg some (Binary.convert_of_roundsTo (decide_eq_true hwideRegular.2) hy rfl ?_)
  have hscale : (2 ^ 925 : ℚ) ≠ 0 := by positivity
  rw [Binary.units, ← hunits, mul_div_cancel_left₀ _ hscale]
  exact hrounds

/-- The decimals beside a midpoint are read as doubles on the right side of it. -/
theorem rereadDouble?_of_nearMidpoints (hy : y.IsRegular)
    (h : y.shortest singleLayout.tie ∈ Decimal.nearMidpoints) :
    (rereadDouble? singleLayout y).map (Binary.convert binary32) = some y := by
  have hread : ∀ d ∈ Decimal.nearMidpoints, d.coefficient ≠ 10 ∧ d.exponent < 0 ∧
      ∀ negative, (fastDouble? negative d).map (Binary.convert binary32) =
        some (.ofDecimal binary32 negative d) := by
    decide +kernel
  obtain ⟨hten, hexponent, hread⟩ := hread _ h
  have hdecimal := decimal_floatParts singleLayout hy hten (.inl hexponent)
  rw [rereadDouble?, hdecimal, hread,
    Binary.ofDecimal_of_roundsTo hy (Binary.roundsTo_shortest singleLayout.tie hy)]

/-- Every finite single-precision number is read and narrowed back. -/
theorem rereadDouble?_of_single (hfinite : y.isFinite = true) :
    (rereadDouble? singleLayout y).map (Binary.convert binary32) = some y := by
  by_cases hzero : y.isZero = true
  · have hzeros : ∀ negative, (fastDouble? negative ⟨0, -1⟩).map (Binary.convert binary32) =
        some ⟨negative, 0, by decide⟩ := by decide +kernel
    rw [rereadDouble?, decimal_floatParts_of_isZero singleLayout hzero]
    obtain ⟨negative, code, hcode⟩ := y
    obtain rfl : code = 0 := by simpa [Binary.isZero] using hzero
    exact hzeros negative
  have hy := isRegular_of_isFinite hfinite hzero
  have hbeside : ∀ code, y.code = code ∨ y.code = code + 1 →
      binary64.Within 2 (binary32.magnitude code + binary32.magnitude (code + 1))
        (2 * ((y.shortest singleLayout.tie).value * binary32.one)) →
      (rereadDouble? singleLayout y).map (Binary.convert binary32) = some y := by
    intro code hcode hnear
    rcases Binary.shortest_of_near_midpoint hy hcode hnear with ⟨hexact, hlow, hhigh⟩ | hlisted
    · exact rereadDouble?_of_midpoint hy hexact hlow hhigh
    · exact rereadDouble?_of_nearMidpoints hy hlisted
  by_cases habove : binary64.Within 2 (binary32.magnitude y.code + binary32.magnitude (y.code + 1))
      (2 * ((y.shortest singleLayout.tie).value * binary32.one))
  · exact hbeside y.code (.inl rfl) habove
  have hpred : y.code - 1 + 1 = y.code := Nat.sub_add_cancel hy.1
  by_cases hbelow : binary64.Within 2 (binary32.magnitude (y.code - 1) + binary32.magnitude y.code)
      (2 * ((y.shortest singleLayout.tie).value * binary32.one))
  · exact hbeside (y.code - 1) (.inr hpred.symm) (by rwa [hpred])
  obtain ⟨z, hz⟩ := Option.isSome_iff_exists.mp (isSome_rereadDouble?_of_single hfinite)
  obtain ⟨hzfinite, hsign, hclose⟩ := rereadDouble?_within_of_single hy hz
  rw [hz, Option.map_some]
  exact congrArg some (Binary.convert_of_within hzfinite hy hsign hclose
    (Binary.roundsTo_shortest singleLayout.tie hy) hbelow habove)

end RecordCoercion.Json
