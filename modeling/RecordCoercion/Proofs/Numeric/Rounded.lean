import RecordCoercion.Proofs.Numeric.Widening

/-!
# What a quotient is rounded to

`BinaryFormat.nearestCode` gives a code to which the quotient rounds
(`BinaryFormat.roundsTo_nearestCode`), and infinity only for quotients that lie at least halfway between
it and the largest finite number (`BinaryFormat.nearestCode_lt_infinityCode`). Rounding moves a quotient
by no more than half the distance of the neighbours of its code (`BinaryFormat.RoundsTo.distance_le`).
-/

set_option autoImplicit false

namespace RecordCoercion

/-- A quotient lies within one half of the integer that it is rounded to, and strictly so if that is
odd. -/
theorem roundHalfEven_spec (num : Nat) {den : Nat} (hden : 0 < den) :
    2 * (roundHalfEven num den * den) ≤ 2 * num + den ∧
      2 * num ≤ 2 * (roundHalfEven num den * den) + den ∧
      (roundHalfEven num den % 2 = 1 → 2 * (roundHalfEven num den * den) < 2 * num + den ∧
        2 * num < 2 * (roundHalfEven num den * den) + den) := by
  have hmod : num % den < den := Nat.mod_lt num hden
  have hnum : num / den * den + num % den = num := by
    rw [Nat.mul_comm]
    exact Nat.div_add_mod num den
  have hsucc : (num / den + 1) * den = num / den * den + den := Nat.succ_mul _ _
  simp only [roundHalfEven]
  split
  · omega
  split
  · rw [hsucc]
    omega
  split
  · omega
  · rw [hsucc]
    omega

namespace BinaryFormat

variable {f : BinaryFormat}

/-! ## Between the midpoints -/

namespace Split

variable {code shift significand num den : Nat}

/-- A quotient within half a step of a significand lies between the midpoints of its code, if the
step below is as large as the one above. -/
theorem between (h : f.Split code shift (significand + 1))
    (hnormal : shift = 0 ∨ f.fractionCount ≤ significand)
    (hbelow : 2 * ((significand + 1) * (den * 2 ^ shift)) ≤ 2 * num + den * 2 ^ shift)
    (habove : 2 * num ≤ 2 * ((significand + 1) * (den * 2 ^ shift)) + den * 2 ^ shift)
    (hodd : (significand + 1) % 2 = 1 →
      2 * ((significand + 1) * (den * 2 ^ shift)) < 2 * num + den * 2 ^ shift ∧
        2 * num < 2 * ((significand + 1) * (den * 2 ^ shift)) + den * 2 ^ shift) :
    f.Between code num den := by
  have hlower : (f.magnitude (code - 1) + f.magnitude code) * den + den * 2 ^ shift =
      2 * ((significand + 1) * (den * 2 ^ shift)) := by
    rw [h.magnitude_pred hnormal, h.magnitude]
    ring
  have hupper : (f.magnitude code + f.magnitude (code + 1)) * den =
      2 * ((significand + 1) * (den * 2 ^ shift)) + den * 2 ^ shift := by
    rw [h.magnitude, h.magnitude_succ]
    ring
  refine ⟨by omega, by omega, fun hcode => ?_⟩
  have hstrict := hodd (h.code_mod_two.symm.trans hcode)
  omega

/-- A quotient that is not less than a power of two lies between the midpoints of its code if it lies
below the upper one, and one that is less if it lies above the lower one. -/
theorem between_of_power (h : f.Split code (shift + 1) f.fractionCount)
    (hbelow : 4 * (f.fractionCount * (den * 2 ^ shift)) ≤ 2 * num + den * 2 ^ shift)
    (habove : 2 * num ≤ 4 * (f.fractionCount * (den * 2 ^ shift)) + 2 * (den * 2 ^ shift)) :
    f.Between code num den := by
  have hlower : (f.magnitude (code - 1) + f.magnitude code) * den + den * 2 ^ shift =
      4 * (f.fractionCount * (den * 2 ^ shift)) := by
    calc (f.magnitude (code - 1) + f.magnitude code) * den + den * 2 ^ shift
        = (f.magnitude (code - 1) + 2 ^ shift) * den + f.magnitude code * den := by ring
      _ = 4 * (f.fractionCount * (den * 2 ^ shift)) := by
          rw [h.magnitude_pred_of_power, h.magnitude]
          ring
  have hupper : (f.magnitude code + f.magnitude (code + 1)) * den =
      4 * (f.fractionCount * (den * 2 ^ shift)) + 2 * (den * 2 ^ shift) := by
    rw [h.magnitude, h.magnitude_succ]
    ring
  refine ⟨by omega, by omega, fun hcode => ?_⟩
  -- a power of two has an even code
  have heven := h.code_mod_two
  rw [f.fractionCount_mod_two] at heven
  omega

end Split

/-- The significand of the rounding is one of those that its shift allows. -/
theorem significand_bounds {num den shift significand : Nat} (hden : 0 < den)
    (hlt : num < 2 * f.fractionCount * 2 ^ shift * den)
    (hge : shift = 0 ∨ f.fractionCount * 2 ^ shift * den ≤ num)
    (hbelow : 2 * (significand * (den * 2 ^ shift)) ≤ 2 * num + den * 2 ^ shift)
    (habove : 2 * num ≤ 2 * (significand * (den * 2 ^ shift)) + den * 2 ^ shift) :
    significand ≤ 2 * f.fractionCount ∧ (shift = 0 ∨ f.fractionCount ≤ significand) := by
  have hunit : 0 < den * 2 ^ shift := Nat.mul_pos hden (Nat.two_pow_pos _)
  have hassoc : ∀ n, n * 2 ^ shift * den = n * (den * 2 ^ shift) := by
    intro n
    ring
  rw [hassoc] at hlt hge
  constructor
  · refine Nat.le_of_lt_succ (Nat.lt_of_mul_lt_mul_right (a := den * 2 ^ shift) ?_)
    rw [Nat.succ_mul]
    omega
  · refine hge.imp_right fun hge => ?_
    refine Nat.le_of_lt_succ (Nat.lt_of_mul_lt_mul_right (a := den * 2 ^ shift) ?_)
    rw [Nat.succ_mul]
    omega

/-- A quotient is rounded to a code whose midpoints it lies between, or to infinity if there is none
such below. Only what is no more than half a unit is rounded to zero. -/
theorem exists_between (f : BinaryFormat) (num : Nat) {den : Nat} (hden : 0 < den) :
    ∃ code, f.nearestCode num den = min f.infinityCode code ∧
      (0 < code → f.Between code num den) ∧ (code = 0 → 2 * num ≤ den) := by
  have hpos := f.fractionCount_pos
  obtain ⟨hlt, hge⟩ := f.log2_shift_bounds (num / den)
  rw [Nat.div_lt_iff_lt_mul hden] at hlt
  rw [Nat.le_div_iff_mul_le hden] at hge
  simp only [nearestCode]
  generalize (num / den).log2 + 1 - f.precision = shift at hlt hge
  obtain ⟨hbelow, habove, hodd⟩ := roundHalfEven_spec num (Nat.mul_pos hden (Nat.two_pow_pos shift))
  rw [Nat.pow_eq]
  generalize roundHalfEven num (den * 2 ^ shift) = significand at hbelow habove hodd
  obtain ⟨hle, hnormal⟩ := significand_bounds hden hlt hge hbelow habove
  refine ⟨_, rfl, fun hcode => ?_, fun hcode => ?zero⟩
  case zero =>
    obtain ⟨hproduct, rfl⟩ := Nat.add_eq_zero_iff.mp hcode
    obtain rfl : shift = 0 := (Nat.mul_eq_zero.mp hproduct).resolve_right (by omega)
    simpa using habove
  by_cases hfull : significand = 2 * f.fractionCount
  · -- the rounding carries into the next power of two
    have hsplit : f.Split (shift * f.fractionCount + significand) (shift + 1) f.fractionCount :=
      ⟨by rw [hfull]; ring, by omega, .inr le_rfl⟩
    rw [hfull, Nat.mul_assoc] at hbelow
    have hnum : num < 2 * (f.fractionCount * (den * 2 ^ shift)) := by
      calc num < 2 * f.fractionCount * 2 ^ shift * den := hlt
        _ = 2 * (f.fractionCount * (den * 2 ^ shift)) := by ring
    exact hsplit.between_of_power (by omega) (by omega)
  · have hsplit : f.Split (shift * f.fractionCount + significand) shift significand :=
      ⟨rfl, by omega, hnormal⟩
    by_cases hpower : 0 < shift ∧ significand = f.fractionCount
    · -- the step below a power of two is only half as large
      obtain ⟨hshift, rfl⟩ := hpower
      obtain ⟨lower, rfl⟩ : ∃ n, shift = n + 1 := ⟨shift - 1, by omega⟩
      have hnum : 2 * (f.fractionCount * (den * 2 ^ lower)) ≤ num := by
        calc 2 * (f.fractionCount * (den * 2 ^ lower))
            = f.fractionCount * 2 ^ (lower + 1) * den := by ring
          _ ≤ num := hge.resolve_left (by omega)
      have hdouble : f.fractionCount * (den * 2 ^ (lower + 1)) =
          2 * (f.fractionCount * (den * 2 ^ lower)) := by ring
      have hstep : den * 2 ^ (lower + 1) = 2 * (den * 2 ^ lower) := by ring
      exact hsplit.between_of_power (by omega) (by omega)
    · obtain ⟨k, rfl⟩ : ∃ k, significand = k + 1 := by
        refine ⟨significand - 1, ?_⟩
        rcases hnormal with rfl | hnormal <;> omega
      exact hsplit.between (by omega) hbelow habove hodd

/-- One has a positive number of units. -/
theorem one_pos (f : BinaryFormat) : 0 < f.one := Nat.two_pow_pos f.scale

/-- Infinity has a code above that of zero. -/
theorem infinityCode_pos (f : BinaryFormat) : 0 < f.infinityCode := by
  have hexponents : 2 ^ 1 ≤ 2 ^ f.exponentBits :=
    Nat.pow_le_pow_right (by decide) (Nat.le_of_succ_le f.two_le_exponentBits)
  exact Nat.mul_pos (Nat.sub_pos_of_lt hexponents) f.fractionCount_pos

/-- What is less than halfway from the largest finite number to infinity does not become infinite. -/
theorem nearestCode_lt_infinityCode {num den : Nat} (hden : 0 < den)
    (h : 2 * num < (f.magnitude (f.infinityCode - 1) + f.magnitude f.infinityCode) * den) :
    f.nearestCode num den < f.infinityCode := by
  obtain ⟨code, hnearest, hbetween, -⟩ := f.exists_between num hden
  rw [hnearest]
  refine Nat.lt_of_le_of_ne (Nat.min_le_left _ _) fun hinfinite => ?_
  have hle : f.infinityCode ≤ code := by omega
  have hpos : 0 < f.infinityCode := f.infinityCode_pos
  have hbelow := (hbetween (by omega)).below
  have hpred : f.magnitude (f.infinityCode - 1) ≤ f.magnitude (code - 1) :=
    f.strictMono_magnitude.monotone (by omega)
  have hself : f.magnitude f.infinityCode ≤ f.magnitude code :=
    f.strictMono_magnitude.monotone hle
  have hsum : (f.magnitude (f.infinityCode - 1) + f.magnitude f.infinityCode) * den ≤
      (f.magnitude (code - 1) + f.magnitude code) * den :=
    Nat.mul_le_mul_right den (Nat.add_le_add hpred hself)
  omega

/-- The smallest positive number is one unit. -/
theorem magnitude_one (f : BinaryFormat) : f.magnitude 1 = 1 := by
  have hcount := f.fractionCount_pos
  have h : f.magnitude (0 * f.fractionCount + 1) = 1 * 2 ^ 0 := magnitude_eq (by omega) (.inl rfl)
  simpa using h

/-- A quotient rounds to a code, and it is rounded to this one if that is finite. -/
theorem exists_roundsTo (f : BinaryFormat) (num : Nat) {den : Nat} (hden : 0 < den) :
    ∃ code, f.nearestCode num den = min f.infinityCode code ∧ f.RoundsTo code (num / den) := by
  obtain ⟨code, hnearest, hbetween, hzero⟩ := f.exists_between num hden
  refine ⟨code, hnearest, ?_⟩
  rcases Nat.eq_zero_or_pos code with rfl | hpos
  · have hdenCast : (0 : ℚ) < den := by exact_mod_cast hden
    have hhalf : 2 * (num / den : ℚ) ≤ 1 := by
      rw [← mul_div_assoc, div_le_iff₀ hdenCast, one_mul]
      exact_mod_cast hzero rfl
    refine ⟨?_, ?_, fun hodd => by cases hodd⟩
    · rw [Nat.zero_sub, magnitude_zero, Nat.cast_zero, add_zero]
      exact mul_nonneg two_pos.le (div_nonneg num.cast_nonneg den.cast_nonneg)
    · rw [Nat.zero_add, magnitude_zero, magnitude_one, Nat.cast_zero, Nat.cast_one, zero_add]
      exact hhalf
  · exact (between_iff_roundsTo hden).mp (hbetween hpos)

/-- A quotient rounds to the code that it is rounded to, if that is finite. -/
theorem roundsTo_nearestCode {num den : Nat} (hden : 0 < den)
    (hfinite : f.nearestCode num den < f.infinityCode) :
    f.RoundsTo (f.nearestCode num den) (num / den) := by
  obtain ⟨code, hnearest, hrounds⟩ := f.exists_roundsTo num hden
  have hcode : f.nearestCode num den = code := by omega
  rw [hcode]
  exact hrounds

/-- Rounding moves a number by no more than half the step of its shift. -/
theorem RoundsTo.distance_le {code shift significand : Nat} {units : ℚ} (h : f.RoundsTo code units)
    (hsplit : f.Split code shift significand) (hpos : 0 < code) :
    2 * f.magnitude code ≤ 2 * units + 2 ^ shift ∧ 2 * units ≤ 2 * f.magnitude code + 2 ^ shift := by
  obtain ⟨k, rfl⟩ := hsplit.exists_succ hpos
  have hpred : (k * 2 ^ shift : ℚ) ≤ f.magnitude (code - 1) := by exact_mod_cast hsplit.le_magnitude_pred
  have hself := hsplit.cast_magnitude
  have hsucc := hsplit.cast_magnitude_succ
  push_cast at hself hsucc
  have hbelow := h.below
  have habove := h.above
  constructor <;> linarith

/-- A normal number is moved by no more than a fixed part of itself. -/
theorem RoundsTo.distance_le_of_normal {code : Nat} {units : ℚ} (h : f.RoundsTo code units)
    (hnormal : f.fractionCount ≤ code) :
    (2 * f.fractionCount - 1 : ℚ) * f.magnitude code ≤ 2 * f.fractionCount * units ∧
      2 * f.fractionCount * units ≤ (2 * f.fractionCount + 1 : ℚ) * f.magnitude code := by
  have hpos := f.fractionCount_pos
  obtain ⟨shift, significand, hsplit, hle⟩ := exists_split_of_normal hnormal
  obtain ⟨hbelow, habove⟩ := h.distance_le hsplit (hpos.trans_le hnormal)
  have hstep : (f.fractionCount * 2 ^ shift : ℚ) ≤ f.magnitude code := by
    rw [hsplit.magnitude]
    exact_mod_cast Nat.mul_le_mul_right _ hle
  have hcount : (0 : ℚ) < f.fractionCount := by exact_mod_cast hpos
  have hscaled := mul_le_mul_of_nonneg_left hbelow hcount.le
  have hscaled' := mul_le_mul_of_nonneg_left habove hcount.le
  constructor <;> linarith

/-- The neighbours of a number are farther apart than its magnitude divided by the number of its
significands. -/
theorem magnitude_gap {code : Nat} (hpos : 0 < code) :
    f.magnitude code + f.fractionCount * f.magnitude (code - 1) <
      f.fractionCount * f.magnitude (code + 1) := by
  have hcount := f.fractionCount_pos
  obtain ⟨shift, significand, h⟩ := exists_split (f := f) code
  obtain ⟨k, rfl⟩ := h.exists_succ hpos
  have hlt := h.lt
  have hself := h.magnitude
  have hsucc := h.magnitude_succ
  have hstep : 0 < 2 ^ shift := Nat.two_pow_pos shift
  by_cases hnormal : shift = 0 ∨ f.fractionCount ≤ k
  · rw [h.magnitude_pred hnormal, hself, hsucc]
    calc (k + 1) * 2 ^ shift + f.fractionCount * (k * 2 ^ shift)
        < 2 * f.fractionCount * 2 ^ shift + f.fractionCount * (k * 2 ^ shift) :=
          Nat.add_lt_add_right (Nat.mul_lt_mul_of_pos_right hlt hstep) _
      _ = f.fractionCount * ((k + 1 + 1) * 2 ^ shift) := by ring
  · have hfirst : k + 1 = f.fractionCount := by
      have := h.normal
      omega
    obtain ⟨lower, rfl⟩ : ∃ n, shift = n + 1 := ⟨shift - 1, by omega⟩
    rw [hfirst] at h hself hsucc
    have hpred := h.magnitude_pred_of_power
    have hlower : 0 < f.fractionCount * 2 ^ lower := Nat.mul_pos hcount (Nat.two_pow_pos lower)
    refine Nat.lt_of_add_lt_add_right (n := f.fractionCount * 2 ^ lower) ?_
    calc f.magnitude code + f.fractionCount * f.magnitude (code - 1) + f.fractionCount * 2 ^ lower
        = f.magnitude code + f.fractionCount * (f.magnitude (code - 1) + 2 ^ lower) := by ring
      _ = f.fractionCount * ((f.fractionCount + 1) * 2 ^ (lower + 1)) := by
          rw [hself, hpred]
          ring
      _ = f.fractionCount * f.magnitude (code + 1) := by rw [hsucc]
      _ < f.fractionCount * f.magnitude (code + 1) + f.fractionCount * 2 ^ lower :=
          Nat.lt_add_of_pos_right hlower

end BinaryFormat

end RecordCoercion
