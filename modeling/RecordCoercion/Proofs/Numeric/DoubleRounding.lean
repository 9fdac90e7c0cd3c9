import RecordCoercion.Proofs.Numeric.RoundingError
import RecordCoercion.Proofs.Numeric.ShortestDigits

/-!
# Rounding twice

A decimal that is read as a double and narrowed then may end beside the single-precision number that it
rounds to at once, but only if the midpoint between the two is as near to the decimal as the double is
(`Binary.convert_of_within`).
-/

set_option autoImplicit false

namespace RecordCoercion

namespace BinaryFormat

variable {f g : BinaryFormat} {n : Nat} {a b c : ℚ}

/-! ## Between two numbers that are near to one another -/

/-- A number between two others is as near to the smaller one as the larger one is. -/
theorem Within.of_le_of_ge (h : f.Within n a b) (hb : 0 ≤ b) (hbc : b ≤ c) (hca : c ≤ a) :
    f.Within n c b where
  left := (mul_le_mul_of_nonneg_left hca (pow_nonneg f.shrink_pos.le n)).trans h.left
  right := (mul_le_of_le_one_left hb (pow_le_one₀ f.shrink_pos.le f.shrink_lt_one.le)).trans hbc

/-- A number between two others is as near to the larger one as the smaller one is. -/
theorem Within.of_ge_of_le (h : f.Within n a b) (hc : 0 ≤ c) (hac : a ≤ c) (hcb : c ≤ b) :
    f.Within n c b where
  left := (mul_le_of_le_one_left hc (pow_le_one₀ f.shrink_pos.le f.shrink_lt_one.le)).trans hcb
  right := h.right.trans hac

/-- The doubles of two numbers are as near as the numbers. -/
theorem Within.two_mul (h : f.Within n a b) : f.Within n (2 * a) (2 * b) where
  left := by
    rw [mul_left_comm]
    exact mul_le_mul_of_nonneg_left h.left two_pos.le
  right := by
    rw [mul_left_comm]
    exact mul_le_mul_of_nonneg_left h.right two_pos.le

/-- A number rounds to the same code as another that it is near to, unless one of the midpoints on both
sides of the code is as near. -/
theorem RoundsTo.of_within {code : Nat} (h : f.RoundsTo code b) (hclose : g.Within n a b)
    (hbelow : ¬g.Within n (f.magnitude (code - 1) + f.magnitude code) (2 * b))
    (habove : ¬g.Within n (f.magnitude code + f.magnitude (code + 1)) (2 * b)) :
    f.RoundsTo code a := by
  have hdouble := hclose.two_mul
  have hself : (0 : ℚ) ≤ f.magnitude (code - 1) + f.magnitude code :=
    add_nonneg (Nat.cast_nonneg _) (Nat.cast_nonneg _)
  have hlower : (f.magnitude (code - 1) + f.magnitude code : ℚ) < 2 * a := lt_of_not_ge fun hle =>
    hbelow (hdouble.of_ge_of_le hself hle h.below)
  have hupper : 2 * a < f.magnitude code + f.magnitude (code + 1) := lt_of_not_ge fun hle =>
    habove (hdouble.of_le_of_ge (hself.trans h.below) h.above hle)
  exact ⟨hlower.le, hupper.le, fun _ => ⟨hlower, hupper⟩⟩

end BinaryFormat

/-! ## Narrowed doubles -/

namespace Binary

variable {x : Binary binary64} {y : Binary binary32}

/-- One in the units of both formats. -/
theorem one_binary64 : binary64.one = 2 ^ 925 * binary32.one := by
  rw [BinaryFormat.binary32_le_binary64.one_eq, show binary64.scale - binary32.scale = 925 from rfl]

/-- A double is narrowed to the single-precision number that it rounds to. -/
theorem convert_of_roundsTo (hx : x.isFinite = true) (hy : y.IsRegular)
    (hsign : x.negative = y.negative) (h : binary32.RoundsTo y.code (x.units / 2 ^ 925)) :
    x.convert binary32 = y := by
  have hquotient : ((x.units * binary32.one : Nat) : ℚ) / binary64.one = x.units / 2 ^ 925 := by
    rw [one_binary64, Nat.cast_mul, Nat.cast_mul, mul_div_mul_right _ _ binary32.cast_one_pos.ne',
      Nat.cast_pow, Nat.cast_ofNat]
  have hcode : binary32.nearestCode (x.units * binary32.one) binary64.one = y.code := by
    refine BinaryFormat.nearestCode_of_between binary64.one_pos hy.1 hy.2.le
      ((BinaryFormat.between_iff_roundsTo binary64.one_pos).mpr ?_)
    rwa [hquotient]
  rw [convert_of_isFinite hx, hsign]
  obtain ⟨negative, code, hlt⟩ := y
  rw [ofRatio, Binary.mk.injEq]
  exact ⟨rfl, hcode⟩

/-- A double near to a number is narrowed to what the number rounds to, unless one of the midpoints
around this is as near. -/
theorem convert_of_within {units : ℚ} {n : Nat} (hx : x.isFinite = true) (hy : y.IsRegular)
    (hsign : x.negative = y.negative) (hclose : binary64.Within n x.units (2 ^ 925 * units))
    (hrounds : binary32.RoundsTo y.code units)
    (hbelow : ¬binary64.Within n (binary32.magnitude (y.code - 1) + binary32.magnitude y.code) (2 * units))
    (habove : ¬binary64.Within n (binary32.magnitude y.code + binary32.magnitude (y.code + 1))
      (2 * units)) : x.convert binary32 = y := by
  have hscale : (0 : ℚ) < 2 ^ 925 := by positivity
  have hunits : 0 ≤ units := by
    have hhalf := hrounds.one_le hy.1
    linarith
  have hdiv := hclose.div (BinaryFormat.Within.refl ((2 : ℚ) ^ 925)) (Nat.cast_nonneg _)
    (mul_nonneg hscale.le hunits) hscale hscale
  rw [mul_div_cancel_left₀ _ hscale.ne'] at hdiv
  exact convert_of_roundsTo hx hy hsign (hrounds.of_within hdiv hbelow habove)

end Binary

end RecordCoercion
