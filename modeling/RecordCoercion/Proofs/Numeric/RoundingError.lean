import RecordCoercion.Proofs.Numeric.Rounded

/-!
# Rounding errors

The rounding of a normal number changes it by a factor between `BinaryFormat.shrink` and its inverse. Two
numbers are `n` such factors apart if `BinaryFormat.Within` holds of them; the factors of a product or a
quotient add up. Neighbouring codes are at least one factor apart, so numbers that are `n` factors apart
are rounded to codes that differ by `n` at most (`BinaryFormat.Within.code_le`).
-/

set_option autoImplicit false

namespace RecordCoercion.BinaryFormat

variable {f : BinaryFormat}

/-- What is at least left of a number in the rounding to a normal one, as a part of it. -/
def shrink (f : BinaryFormat) : ℚ := 1 - 1 / (2 * f.fractionCount)

/-- What is left of a number in a rounding, in half units of the last place. -/
theorem two_mul_fractionCount_mul_shrink (f : BinaryFormat) :
    2 * f.fractionCount * f.shrink = 2 * f.fractionCount - 1 := by
  have hcount : (f.fractionCount : ℚ) ≠ 0 := by exact_mod_cast f.fractionCount_pos.ne'
  rw [shrink]
  field_simp

/-- Something is left of a number in a rounding. -/
theorem shrink_pos (f : BinaryFormat) : 0 < f.shrink := by
  have hcount : (1 : ℚ) ≤ f.fractionCount := by exact_mod_cast f.fractionCount_pos
  have hproduct := f.two_mul_fractionCount_mul_shrink
  refine pos_of_mul_pos_right (a := 2 * (f.fractionCount : ℚ)) ?_ (by linarith)
  linarith

/-- Not all of a number need be left in a rounding. -/
theorem shrink_lt_one (f : BinaryFormat) : f.shrink < 1 := by
  have hcount : (0 : ℚ) < f.fractionCount := by exact_mod_cast f.fractionCount_pos
  rw [shrink, sub_lt_self_iff]
  exact one_div_pos.mpr (mul_pos two_pos hcount)

/-- Two numbers are no more than `n` factors apart. -/
structure Within (f : BinaryFormat) (n : Nat) (a b : ℚ) : Prop where
  left : f.shrink ^ n * a ≤ b
  right : f.shrink ^ n * b ≤ a

namespace Within

variable {m n : Nat} {a b c d : ℚ}

/-- A number is no factors apart from itself. -/
theorem refl (a : ℚ) : f.Within 0 a a :=
  ⟨by rw [pow_zero, one_mul], by rw [pow_zero, one_mul]⟩

/-- Being near is symmetric. -/
theorem symm (h : f.Within n a b) : f.Within n b a := ⟨h.right, h.left⟩

/-- The factors between numbers add up along a chain. -/
theorem trans (h : f.Within m a b) (h' : f.Within n b c) : f.Within (m + n) a c := by
  have hpos : ∀ k, 0 ≤ f.shrink ^ k := fun k => pow_nonneg f.shrink_pos.le k
  constructor
  · calc f.shrink ^ (m + n) * a = f.shrink ^ n * (f.shrink ^ m * a) := by ring
      _ ≤ f.shrink ^ n * b := mul_le_mul_of_nonneg_left h.left (hpos n)
      _ ≤ c := h'.left
  · calc f.shrink ^ (m + n) * c = f.shrink ^ m * (f.shrink ^ n * c) := by ring
      _ ≤ f.shrink ^ m * b := mul_le_mul_of_nonneg_left h'.right (hpos m)
      _ ≤ a := h.right

/-- The factors between two products are those of their factors. -/
theorem mul (h : f.Within m a b) (h' : f.Within n c d) (ha : 0 ≤ a) (hb : 0 ≤ b) (hc : 0 ≤ c)
    (hd : 0 ≤ d) : f.Within (m + n) (a * c) (b * d) := by
  have hpos : ∀ k, 0 ≤ f.shrink ^ k := fun k => pow_nonneg f.shrink_pos.le k
  constructor
  · calc f.shrink ^ (m + n) * (a * c) = (f.shrink ^ m * a) * (f.shrink ^ n * c) := by ring
      _ ≤ b * d := mul_le_mul h.left h'.left (mul_nonneg (hpos n) hc) hb
  · calc f.shrink ^ (m + n) * (b * d) = (f.shrink ^ m * b) * (f.shrink ^ n * d) := by ring
      _ ≤ a * c := mul_le_mul h.right h'.right (mul_nonneg (hpos n) hd) ha

/-- Inverses are as near as the numbers. -/
theorem inv (h : f.Within n a b) (ha : 0 < a) (hb : 0 < b) : f.Within n a⁻¹ b⁻¹ := by
  constructor
  · rw [← div_eq_mul_inv, div_le_iff₀ ha, ← div_eq_inv_mul, le_div_iff₀ hb]
    exact h.right
  · rw [← div_eq_mul_inv, div_le_iff₀ hb, ← div_eq_inv_mul, le_div_iff₀ ha]
    exact h.left

/-- The factors between two quotients are those of dividends and divisors. -/
theorem div (h : f.Within m a b) (h' : f.Within n c d) (ha : 0 ≤ a) (hb : 0 ≤ b) (hc : 0 < c)
    (hd : 0 < d) : f.Within (m + n) (a / c) (b / d) := by
  rw [div_eq_mul_inv, div_eq_mul_inv]
  exact h.mul (h'.inv hc hd) ha hb (inv_nonneg.mpr hc.le) (inv_nonneg.mpr hd.le)

end Within

/-- What is not less than the first normal number is rounded to a normal number. -/
theorem RoundsTo.fractionCount_le {code : Nat} {units : ℚ} (h : f.RoundsTo code units)
    (hunits : f.fractionCount ≤ units) : f.fractionCount ≤ code := by
  refine Nat.le_of_not_lt fun hlt => ?_
  have hself : (f.magnitude code : ℚ) < f.fractionCount := by
    rw [← f.magnitude_fractionCount]
    exact_mod_cast f.strictMono_magnitude hlt
  have hsucc : (f.magnitude (code + 1) : ℚ) ≤ f.fractionCount := by
    rw [← f.magnitude_fractionCount]
    exact_mod_cast f.strictMono_magnitude.monotone hlt
  have habove := h.above
  linarith

/-- The larger the significand, the smaller is the part of a number that its rounding moves it by. -/
theorem RoundsTo.factor_of_significand {code shift significand : Nat} {units parts : ℚ}
    (h : f.RoundsTo code units) (hsplit : f.Split code shift significand) (hpos : 0 < code)
    (hparts : 1 ≤ parts) (hle : parts ≤ 2 * significand) :
    (1 - 1 / parts) * f.magnitude code ≤ units ∧ (1 - 1 / parts) * units ≤ f.magnitude code := by
  have hpartsPos : 0 < parts := by linarith
  obtain ⟨hbelow, habove⟩ := h.distance_le hsplit hpos
  have hstep : (2 ^ shift : ℚ) ≤ 2 * (1 / parts * f.magnitude code) := by
    rw [one_div_mul_eq_div, ← mul_div_assoc, le_div_iff₀ hpartsPos, hsplit.cast_magnitude, mul_comm]
    calc parts * 2 ^ shift ≤ 2 * significand * 2 ^ shift :=
          mul_le_mul_of_nonneg_right hle (by positivity)
      _ = 2 * (significand * 2 ^ shift) := mul_assoc _ _ _
  have hrest : 0 ≤ 1 - 1 / parts := by
    rw [sub_nonneg, div_le_iff₀ hpartsPos, one_mul]
    exact hparts
  refine ⟨by linarith, ?_⟩
  calc (1 - 1 / parts) * units ≤ (1 - 1 / parts) * ((1 + 1 / parts) * f.magnitude code) :=
        mul_le_mul_of_nonneg_left (by linarith) hrest
    _ = (1 - (1 / parts) ^ 2) * f.magnitude code := by ring
    _ ≤ f.magnitude code := by
        refine mul_le_of_le_one_left (Nat.cast_nonneg _) ?_
        linarith [sq_nonneg (1 / parts)]

/-- The rounding to a normal number is one factor. -/
theorem RoundsTo.within {code : Nat} {units : ℚ} (h : f.RoundsTo code units)
    (hnormal : f.fractionCount ≤ code) : f.Within 1 (f.magnitude code) units := by
  have hcount := f.fractionCount_pos
  obtain ⟨shift, significand, hsplit, hle⟩ := exists_split_of_normal hnormal
  have hparts : (1 : ℚ) ≤ 2 * f.fractionCount := by exact_mod_cast (by omega : 1 ≤ 2 * f.fractionCount)
  have hfactor := h.factor_of_significand hsplit (hcount.trans_le hnormal) hparts
    (by exact_mod_cast Nat.mul_le_mul_left 2 hle)
  constructor <;> rw [pow_one, shrink]
  · exact hfactor.1
  · exact hfactor.2

/-- What is at least left of a double, as a fraction. -/
theorem shrink_binary64 : binary64.shrink = 1 - 1 / 2 ^ 53 := by
  rw [shrink, show binary64.fractionCount = 2 ^ 52 from rfl]
  norm_num

/-- The midpoints above a code and above the next one are more than one factor apart. -/
theorem midpoint_lt (f : BinaryFormat) (code : Nat) :
    (f.magnitude code + f.magnitude (code + 1) : ℚ) <
      f.shrink * (f.magnitude (code + 1) + f.magnitude (code + 2)) := by
  have hcount : (0 : ℚ) < f.fractionCount := by exact_mod_cast f.fractionCount_pos
  obtain ⟨shift, m, h⟩ := exists_split (f := f) code
  have hstep : (0 : ℚ) < 2 ^ shift := by positivity
  refine lt_of_mul_lt_mul_left ?_ (by positivity : (0 : ℚ) ≤ 2 * f.fractionCount)
  rw [← mul_assoc, f.two_mul_fractionCount_mul_shrink, h.cast_magnitude,
    h.cast_magnitude_succ]
  by_cases hlast : m + 1 = 2 * f.fractionCount
  · -- the next code begins a power of two, above which the steps are twice as large
    have hnext : f.Split (code + 1) (shift + 1) f.fractionCount :=
      ⟨by rw [h.code_eq, Nat.add_assoc, hlast]; ring, by omega, .inr le_rfl⟩
    have hafter : (f.magnitude (code + 2) : ℚ) = (2 * f.fractionCount + 2) * 2 ^ shift := by
      rw [show code + 2 = code + 1 + 1 from rfl, hnext.cast_magnitude_succ]
      ring
    have hm : (m : ℚ) = 2 * f.fractionCount - 1 := by
      rw [eq_sub_iff_add_eq]
      exact_mod_cast hlast
    rw [hafter, hm]
    refine lt_of_sub_pos ?_
    have hdifference : (2 * f.fractionCount - 1) * ((2 * f.fractionCount - 1 + 1) * 2 ^ shift +
          (2 * f.fractionCount + 2) * 2 ^ shift) -
        2 * f.fractionCount * ((2 * f.fractionCount - 1) * 2 ^ shift +
          (2 * f.fractionCount - 1 + 1) * 2 ^ shift) =
        (2 * f.fractionCount - 2 : ℚ) * 2 ^ shift := by ring
    rw [hdifference]
    have htwo : (2 : ℚ) ≤ f.fractionCount := by
      have heven := f.fractionCount_mod_two
      have hpos := f.fractionCount_pos
      exact_mod_cast (show 2 ≤ f.fractionCount by omega)
    exact mul_pos (by linarith) hstep
  · have hlt : m + 1 < 2 * f.fractionCount := by
      have := h.lt
      omega
    have hnext : f.Split (code + 1) shift (m + 1) :=
      ⟨by rw [h.code_eq, Nat.add_assoc], hlt, h.normal.imp id Nat.le_succ_of_le⟩
    have hafter : (f.magnitude (code + 2) : ℚ) = (m + 1 + 1) * 2 ^ shift := by
      rw [show code + 2 = code + 1 + 1 from rfl, hnext.cast_magnitude_succ]
      push_cast
      rfl
    have hle : (m + 1 + 1 : ℚ) ≤ 2 * f.fractionCount := by exact_mod_cast hlt
    rw [hafter]
    refine lt_of_sub_pos ?_
    have hdifference : (2 * f.fractionCount - 1) * ((m + 1) * 2 ^ shift + (m + 1 + 1) * 2 ^ shift) -
        2 * f.fractionCount * (m * 2 ^ shift + (m + 1) * 2 ^ shift) =
        (4 * f.fractionCount - 2 * m - 3 : ℚ) * 2 ^ shift := by ring
    rw [hdifference]
    exact mul_pos (by linarith) hstep

/-- A midpoint lies more than `n + 1` factors below the one that many codes after it. -/
theorem midpoint_lt_shrink_pow (f : BinaryFormat) (code n : Nat) :
    (f.magnitude code + f.magnitude (code + 1) : ℚ) <
      f.shrink ^ (n + 1) *
        (f.magnitude (code + (n + 1)) + f.magnitude (code + (n + 1) + 1)) := by
  induction n with
  | zero =>
    rw [pow_one]
    exact f.midpoint_lt code
  | succ n ih =>
    refine ih.trans ?_
    rw [pow_succ f.shrink (n + 1), mul_assoc]
    exact mul_lt_mul_of_pos_left (f.midpoint_lt (code + (n + 1))) (pow_pos f.shrink_pos _)

/-- Numbers that are `n` factors apart are rounded to codes that differ by `n` at most. -/
theorem Within.code_le {n code code' : Nat} {a b : ℚ} (h : f.Within n a b)
    (ha : f.RoundsTo code a) (hb : f.RoundsTo code' b) : code' ≤ code + n := by
  refine le_of_not_gt fun hlt => ?_
  rcases Nat.eq_zero_or_pos n with rfl | hn
  · have hle := h.right
    rw [pow_zero, one_mul] at hle
    exact absurd (ha.lt hb hlt) hle.not_gt
  obtain ⟨k, rfl⟩ : ∃ k, n = k + 1 := ⟨n - 1, by omega⟩
  have hpow := pow_pos f.shrink_pos (k + 1)
  have hpred : (f.magnitude (code + (k + 1)) : ℚ) ≤ f.magnitude (code' - 1) := by
    exact_mod_cast f.strictMono_magnitude.monotone (show code + (k + 1) ≤ code' - 1 by omega)
  have hself : (f.magnitude (code + (k + 1) + 1) : ℚ) ≤ f.magnitude code' := by
    exact_mod_cast f.strictMono_magnitude.monotone hlt
  have hmidpoints := f.midpoint_lt_shrink_pow code k
  have hbelow := hb.below
  have habove := ha.above
  have hscaled : f.shrink ^ (k + 1) * (f.magnitude (code + (k + 1)) + f.magnitude (code + (k + 1) + 1)) ≤
      f.shrink ^ (k + 1) * (2 * b) := mul_le_mul_of_nonneg_left (by linarith) hpow.le
  have hright := h.right
  linarith

end RecordCoercion.BinaryFormat
