import RecordCoercion.Proofs.Numeric.ShortestDecimal

/-!
# Widening

Every number of a format is a number of any wider format, with the same value: so many units of the one
are a power of two times as many of the other (`BinaryFormat.exists_magnitude_eq`), and an exact
magnitude is rounded to its own code. A number that is widened and narrowed again is therefore the same
as before (`Binary.convert_convert`), unless it is "not a number", of which only one is left.
-/

set_option autoImplicit false

namespace RecordCoercion

namespace BinaryFormat

variable {f g : BinaryFormat}

/-- The code zero stands for zero. -/
theorem magnitude_zero (f : BinaryFormat) : f.magnitude 0 = 0 := by
  simp [magnitude]

/-- A magnitude is rounded to its own code, however it is written as a quotient. -/
theorem nearestCode_magnitude {code num den : Nat} (hden : 0 < den) (hle : code ≤ f.infinityCode)
    (h : num = f.magnitude code * den) : f.nearestCode num den = code := by
  rcases Nat.eq_zero_or_pos code with rfl | hpos
  · rw [magnitude_zero, Nat.zero_mul] at h
    have hprecision : 1 - f.precision = 0 := by
      have := f.two_le_precision
      omega
    simp [h, nearestCode, roundHalfEven, hden, hprecision]
  · refine nearestCode_of_between hden hpos hle ((between_iff_roundsTo hden).mpr ?_)
    have hne : (den : ℚ) ≠ 0 := by exact_mod_cast hden.ne'
    have hvalue : (num / den : ℚ) = f.magnitude code := by
      rw [h, Nat.cast_mul, mul_div_cancel_right₀ _ hne]
    rw [hvalue]
    exact roundsTo_magnitude hpos

/-- A significand that the precision allows is the magnitude of a code under every shift. -/
theorem exists_magnitude_eq (shift : Nat) {significand : Nat}
    (hlt : significand < 2 * f.fractionCount) :
    ∃ code, f.magnitude code = significand * 2 ^ shift := by
  induction shift generalizing significand with
  | zero => exact ⟨_, magnitude_eq hlt.le (.inl rfl)⟩
  | succ shift ih =>
    by_cases hnormal : f.fractionCount ≤ significand
    · exact ⟨_, magnitude_eq hlt.le (.inr hnormal)⟩
    · have hdouble : 2 * significand < 2 * f.fractionCount := by omega
      obtain ⟨code, hcode⟩ := ih hdouble
      exact ⟨code, by rw [hcode]; ring⟩

/-- A format is wider if neither its significands nor its exponent fields have fewer bits. -/
structure Le (f g : BinaryFormat) : Prop where
  precision : f.precision ≤ g.precision
  exponentBits : f.exponentBits ≤ g.exponentBits

/-- Single precision has a place in double precision. -/
theorem binary32_le_binary64 : binary32.Le binary64 := ⟨by decide, by decide⟩

namespace Le

variable (h : f.Le g)

include h

/-- A wider format has finer units. -/
theorem scale_le : f.scale ≤ g.scale := by
  have hprecision := h.precision
  have hpow : 2 ^ (f.exponentBits - 1) ≤ 2 ^ (g.exponentBits - 1) :=
    Nat.pow_le_pow_right (by decide) (Nat.sub_le_sub_right h.exponentBits 1)
  simp only [scale, Nat.pow_eq]
  omega

/-- One in the units of a wider format. -/
theorem one_eq : g.one = 2 ^ (g.scale - f.scale) * f.one := by
  rw [one, one, Nat.pow_eq, Nat.pow_eq, ← Nat.pow_add, Nat.sub_add_cancel h.scale_le]

/-- A finite number has a code of the wider format that stands for the same value. -/
theorem exists_code {code : Nat} (hcode : code < f.infinityCode) :
    ∃ wide, wide < g.infinityCode ∧
      g.magnitude wide = f.magnitude code * 2 ^ (g.scale - f.scale) := by
  obtain ⟨shift, significand, hsplit⟩ := exists_split (f := f) code
  have hcounts : f.fractionCount ≤ g.fractionCount := by
    simp only [fractionCount, Nat.pow_eq]
    exact Nat.pow_le_pow_right (by decide) (Nat.sub_le_sub_right h.precision 1)
  have hlt : significand < 2 * g.fractionCount := by
    have := hsplit.lt
    omega
  obtain ⟨wide, hwide⟩ := exists_magnitude_eq (f := g) (shift + (g.scale - f.scale)) hlt
  have hmagnitude : g.magnitude wide = f.magnitude code * 2 ^ (g.scale - f.scale) := by
    rw [hwide, hsplit.magnitude, Nat.pow_add, Nat.mul_assoc]
  refine ⟨wide, g.strictMono_magnitude.lt_iff_lt.mp ?_, hmagnitude⟩
  -- the infinities are powers of two as well
  calc g.magnitude wide = f.magnitude code * 2 ^ (g.scale - f.scale) := hmagnitude
    _ < f.magnitude f.infinityCode * 2 ^ (g.scale - f.scale) :=
        Nat.mul_lt_mul_of_pos_right (f.strictMono_magnitude hcode) (Nat.two_pow_pos _)
    _ = 2 ^ (f.scale + 2 ^ (f.exponentBits - 1) + (g.scale - f.scale)) := by
        rw [magnitude_infinityCode, ← Nat.pow_add]
    _ ≤ 2 ^ (g.scale + 2 ^ (g.exponentBits - 1)) := by
        have hscale := h.scale_le
        have hpow : 2 ^ (f.exponentBits - 1) ≤ 2 ^ (g.exponentBits - 1) :=
          Nat.pow_le_pow_right (by decide) (Nat.sub_le_sub_right h.exponentBits 1)
        exact Nat.pow_le_pow_right (by decide) (by omega)
    _ = g.magnitude g.infinityCode := (magnitude_infinityCode g).symm

end Le

end BinaryFormat

namespace Binary

open BinaryFormat

variable {f g : BinaryFormat}

/-- A finite number is a number. -/
theorem isNaN_of_isFinite {x : Binary f} (hx : x.isFinite = true) : x.isNaN = false := by
  simp only [isFinite, isNaN, decide_eq_true_eq, decide_eq_false_iff_not] at hx ⊢
  omega

/-- A finite number is not an infinity. -/
theorem isInfinite_of_isFinite {x : Binary f} (hx : x.isFinite = true) : x.isInfinite = false := by
  simp only [isFinite, isInfinite, decide_eq_true_eq, decide_eq_false_iff_not] at hx ⊢
  omega

/-- A finite number is rounded to the other format. -/
theorem convert_of_isFinite {x : Binary f} (hx : x.isFinite = true) :
    x.convert g = ofRatio g x.negative x.units f.one := by
  rw [convert, if_neg (by simp [isNaN_of_isFinite hx]), if_neg (by simp [isInfinite_of_isFinite hx])]

/-- Widening makes of a finite number a finite number of the same sign and value. -/
theorem convert_spec (h : f.Le g) {x : Binary f} (hx : x.isFinite = true) :
    (x.convert g).isFinite = true ∧ (x.convert g).negative = x.negative ∧
      (x.convert g).units = x.units * 2 ^ (g.scale - f.scale) := by
  obtain ⟨wide, hwide, hmagnitude⟩ := h.exists_code (by simpa [isFinite] using hx)
  have hnearest : g.nearestCode (x.units * g.one) f.one = wide := by
    refine nearestCode_magnitude (Nat.two_pow_pos _) hwide.le ?_
    rw [hmagnitude, h.one_eq, Nat.mul_assoc, units]
  rw [convert_of_isFinite hx]
  refine ⟨by simpa [isFinite, ofRatio, hnearest] using hwide, rfl, ?_⟩
  calc (ofRatio g x.negative x.units f.one).units = g.magnitude wide := congrArg g.magnitude hnearest
    _ = x.units * 2 ^ (g.scale - f.scale) := hmagnitude

/-- A number that is neither finite nor "not a number" is an infinity. -/
theorem eq_infinity {x : Binary f} (hx : x.isNaN = false) (hfinite : x.isFinite = false) :
    x = infinity x.negative := by
  obtain ⟨negative, code, hcode⟩ := x
  simp only [isNaN, isFinite, decide_eq_false_iff_not] at hx hfinite
  obtain rfl : code = f.infinityCode := by omega
  rfl

/-- An infinity stays an infinity of the same sign. -/
@[simp] theorem convert_infinity (negative : Bool) :
    (infinity negative : Binary f).convert g = infinity negative := by
  simp [convert, infinity, isNaN, isInfinite]

/-- Widening and narrowing gives the number back. -/
theorem convert_convert (h : f.Le g) {x : Binary f} (hx : x.isNaN = false) :
    (x.convert g).convert f = x := by
  by_cases hfinite : x.isFinite = true
  · obtain ⟨hwide, hnegative, hunits⟩ := convert_spec h hfinite
    have hnearest : f.nearestCode ((x.convert g).units * f.one) g.one = x.code := by
      refine nearestCode_magnitude (Nat.two_pow_pos _) ?_ ?_
      · simp only [isFinite, decide_eq_true_eq] at hfinite
        exact hfinite.le
      · rw [hunits, h.one_eq, Nat.mul_assoc, units]
    rw [convert_of_isFinite hwide, hnegative]
    obtain ⟨negative, code, hcode⟩ := x
    rw [ofRatio, Binary.mk.injEq]
    exact ⟨rfl, hnearest⟩
  · rw [eq_infinity hx (Bool.eq_false_iff.mpr hfinite), convert_infinity, convert_infinity]

/-- An integer of no more bits than a significand is a number of the format. -/
theorem units_ofInt {n : Int} (hn : n.natAbs ≤ 2 * f.fractionCount)
    (hfinite : n.natAbs * f.one ≤ f.magnitude f.infinityCode) :
    (ofInt f n).units = n.natAbs * f.one := by
  obtain ⟨code, hcode⟩ : ∃ code, f.magnitude code = n.natAbs * f.one := by
    rcases Nat.lt_or_eq_of_le hn with hlt | heq
    · exact exists_magnitude_eq f.scale hlt
    · have hpower : f.fractionCount < 2 * f.fractionCount := by
        have := f.fractionCount_pos
        omega
      obtain ⟨code, hcode⟩ := exists_magnitude_eq (f.scale + 1) hpower
      refine ⟨code, ?_⟩
      rw [hcode, heq, one, Nat.pow_eq, Nat.pow_succ]
      ring
  have hle : code ≤ f.infinityCode := by
    rw [← hcode] at hfinite
    exact f.strictMono_magnitude.le_iff_le.mp hfinite
  have hnearest : f.nearestCode (n.natAbs * f.one) 1 = code :=
    nearestCode_magnitude Nat.one_pos hle (by rw [hcode, Nat.mul_one])
  rw [← hcode, ← hnearest]
  rfl

end Binary

end RecordCoercion
