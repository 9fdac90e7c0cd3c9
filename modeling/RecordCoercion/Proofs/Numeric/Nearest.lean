import Mathlib.Algebra.Order.Field.Rat
import Mathlib.Order.Monotone.Basic
import Mathlib.Tactic.FieldSimp
import Mathlib.Tactic.Linarith
import Mathlib.Tactic.Ring
import RecordCoercion.Numeric.Shortest

/-!
# The quotients that round to a number

The magnitudes of a format grow with their codes (`BinaryFormat.strictMono_magnitude`), by a power
of two that depends on the place of the leading bit. The quotients between the midpoints on both
sides of a number are those that round to it: `BinaryFormat.nearestCode` sends each of them to the
code of the number, the midpoints themselves included where the code is even
(`Binary.nearestCode_of_covers`). What is covered depends on the quotient only, and not on how it is
written (`Binary.covers_iff`).
-/

set_option autoImplicit false

namespace RecordCoercion

/-- A quotient that lies within one half of an integer is rounded to it; at a distance of one half
the integer has to be even. -/
theorem roundHalfEven_eq {num den k : Nat} (hbelow : 2 * (k * den) ≤ 2 * num + den)
    (habove : 2 * num ≤ 2 * (k * den) + den)
    (hodd : k % 2 = 1 → 2 * (k * den) < 2 * num + den ∧ 2 * num < 2 * (k * den) + den)
    (hden : 0 < den) : roundHalfEven num den = k := by
  have hmod : num % den < den := Nat.mod_lt num hden
  have hnum : num / den * den + num % den = num := by
    rw [Nat.mul_comm]
    exact Nat.div_add_mod num den
  have hle : num / den ≤ k := by
    refine Nat.le_of_lt_succ (Nat.lt_of_mul_lt_mul_right (a := den) ?_)
    rw [Nat.succ_mul]
    omega
  have hge : k ≤ num / den + 1 := by
    refine Nat.le_of_lt_succ (Nat.lt_of_mul_lt_mul_right (a := den) ?_)
    rw [Nat.succ_mul, Nat.succ_mul]
    omega
  generalize hq : num / den = q at hnum hle hge
  simp only [roundHalfEven, hq]
  obtain rfl | rfl : k = q ∨ k = q + 1 := by omega
  · split
    · rfl
    · rw [if_neg (by omega), if_pos (by omega)]
  · rw [Nat.succ_mul q] at hbelow habove hodd
    rw [if_neg (by omega)]
    split
    · rfl
    · exact if_neg (by omega)

namespace BinaryFormat

variable (f : BinaryFormat)

/-- The fractions of an exponent field come in pairs. -/
theorem fractionCount_mod_two : f.fractionCount % 2 = 0 := by
  have hp := f.two_le_precision
  obtain ⟨n, hn⟩ : ∃ n, f.precision - 1 = n + 1 := ⟨f.precision - 2, by omega⟩
  rw [fractionCount, hn, Nat.pow_eq, Nat.pow_succ]
  exact Nat.mul_mod_left _ _

/-- The significands of a format have one bit more than their fractions. -/
theorem two_pow_precision : 2 ^ f.precision = 2 * f.fractionCount := by
  have hp := f.two_le_precision
  have hsucc : f.precision = f.precision - 1 + 1 := by omega
  rw [hsucc, Nat.pow_succ, Nat.mul_comm]
  rfl

/-! ## Magnitudes -/

variable {f}

/-- A code is split into a significand and the power of two that it is scaled by. -/
structure Split (f : BinaryFormat) (code shift significand : Nat) : Prop where
  code_eq : code = shift * f.fractionCount + significand
  lt : significand < 2 * f.fractionCount
  normal : shift = 0 ∨ f.fractionCount ≤ significand

/-- Every code is split into a significand and a shift. -/
theorem exists_split (code : Nat) : ∃ shift significand, f.Split code shift significand := by
  have hcode : code / f.fractionCount * f.fractionCount + code % f.fractionCount = code := by
    rw [Nat.mul_comm]
    exact Nat.div_add_mod code f.fractionCount
  have hmod : code % f.fractionCount < f.fractionCount := Nat.mod_lt code f.fractionCount_pos
  cases hfield : code / f.fractionCount with
  | zero =>
    rw [hfield] at hcode
    exact ⟨0, code, by omega, by omega, .inl rfl⟩
  | succ shift =>
    rw [hfield, Nat.succ_mul] at hcode
    exact ⟨shift, f.fractionCount + code % f.fractionCount, by omega, by omega, .inr (by omega)⟩

/-- The significand of a normal number. -/
theorem exists_split_of_normal {code : Nat} (h : f.fractionCount ≤ code) :
    ∃ shift significand, f.Split code shift significand ∧ f.fractionCount ≤ significand := by
  obtain ⟨shift, significand, hsplit⟩ := exists_split (f := f) code
  refine ⟨shift, significand, hsplit, ?_⟩
  rcases hsplit.normal with rfl | hle
  · have hcode := hsplit.code_eq
    omega
  · exact hle

/-- A significand may also be the first one after those of its shift. -/
theorem magnitude_eq {shift significand : Nat} (hle : significand ≤ 2 * f.fractionCount)
    (hnormal : shift = 0 ∨ f.fractionCount ≤ significand) :
    f.magnitude (shift * f.fractionCount + significand) = significand * 2 ^ shift := by
  have hpos := f.fractionCount_pos
  -- the exponent field, the fraction that is left, and what the two stand for
  have hfield : ∀ field fraction, fraction < f.fractionCount →
      f.magnitude (field * f.fractionCount + fraction) =
        if field = 0 then fraction else (f.fractionCount + fraction) * 2 ^ (field - 1) := by
    intro field fraction hlt
    have hdiv : (field * f.fractionCount + fraction) / f.fractionCount = field := by
      rw [Nat.mul_comm, Nat.mul_add_div hpos, Nat.div_eq_of_lt hlt, Nat.add_zero]
    have hmod : (field * f.fractionCount + fraction) % f.fractionCount = fraction := by
      rw [Nat.mul_comm, Nat.mul_add_mod, Nat.mod_eq_of_lt hlt]
    simp only [magnitude, hdiv, hmod, Nat.pow_eq]
  by_cases hsub : significand < f.fractionCount
  · obtain rfl : shift = 0 := by omega
    rw [hfield 0 significand hsub, if_pos rfl, Nat.pow_zero, Nat.mul_one]
  by_cases hfull : significand = 2 * f.fractionCount
  · have hcode : shift * f.fractionCount + significand = (shift + 2) * f.fractionCount + 0 := by
      rw [hfull, Nat.add_mul, Nat.add_zero]
    rw [hcode, hfield _ 0 hpos, if_neg (by omega), hfull, Nat.add_zero,
      show shift + 2 - 1 = shift + 1 from rfl, Nat.pow_succ]
    ring
  · have hcode : shift * f.fractionCount + significand =
        (shift + 1) * f.fractionCount + (significand - f.fractionCount) := by
      rw [Nat.succ_mul]
      omega
    rw [hcode, hfield _ _ (by omega), if_neg (by omega), Nat.add_sub_cancel]
    congr 1
    omega

/-- The first normal number has as many units as its code says. -/
theorem magnitude_fractionCount (f : BinaryFormat) : f.magnitude f.fractionCount = f.fractionCount := by
  have heq : f.magnitude (0 * f.fractionCount + f.fractionCount) = f.fractionCount * 2 ^ 0 :=
    magnitude_eq (by omega) (.inl rfl)
  simpa using heq

namespace Split

variable {code shift significand : Nat}

/-- Only the significand of zero is zero. -/
theorem exists_succ (h : f.Split code shift significand) (hpos : 0 < code) :
    ∃ k, significand = k + 1 := by
  refine ⟨significand - 1, ?_⟩
  have hcode := h.code_eq
  have hcount := f.fractionCount_pos
  rcases h.normal with rfl | hnormal <;> omega

/-- The magnitude of a code is its significand, shifted. -/
theorem magnitude (h : f.Split code shift significand) :
    f.magnitude code = significand * 2 ^ shift := by
  rw [h.code_eq]
  exact magnitude_eq (Nat.le_of_lt h.lt) h.normal

/-- The next magnitude is that of the next significand, also at a power of two. -/
theorem magnitude_succ (h : f.Split code shift significand) :
    f.magnitude (code + 1) = (significand + 1) * 2 ^ shift := by
  rw [h.code_eq, Nat.add_assoc]
  exact magnitude_eq h.lt (h.normal.imp id Nat.le_succ_of_le)

/-- The magnitude of a code as a rational. -/
theorem cast_magnitude (h : f.Split code shift significand) :
    (f.magnitude code : ℚ) = significand * 2 ^ shift := by
  exact_mod_cast h.magnitude

/-- The next magnitude as a rational. -/
theorem cast_magnitude_succ (h : f.Split code shift significand) :
    (f.magnitude (code + 1) : ℚ) = (significand + 1) * 2 ^ shift := by
  exact_mod_cast h.magnitude_succ

/-- Below a number of the same shift the distance is the same as above. -/
theorem magnitude_pred (h : f.Split code shift (significand + 1))
    (hnormal : shift = 0 ∨ f.fractionCount ≤ significand) :
    f.magnitude (code - 1) = significand * 2 ^ shift := by
  have hlt := h.lt
  rw [h.code_eq, Nat.add_sub_assoc (by omega), Nat.add_sub_cancel]
  exact magnitude_eq (by omega) hnormal

/-- Below a power of two the distance is half as large as above. -/
theorem magnitude_pred_of_power (h : f.Split code (shift + 1) f.fractionCount) :
    f.magnitude (code - 1) + 2 ^ shift = 2 * f.fractionCount * 2 ^ shift := by
  have hpos := f.fractionCount_pos
  have hcode : code - 1 = shift * f.fractionCount + (2 * f.fractionCount - 1) := by
    rw [h.code_eq, Nat.succ_mul]
    omega
  rw [hcode, magnitude_eq (by omega) (.inr (by omega)), ← Nat.succ_mul]
  congr 1
  omega

end Split

/-- Larger codes stand for larger magnitudes. -/
theorem strictMono_magnitude (f : BinaryFormat) : StrictMono f.magnitude := by
  refine strictMono_nat_of_lt_succ fun code => ?_
  obtain ⟨shift, significand, h⟩ := exists_split (f := f) code
  rw [h.magnitude, h.magnitude_succ]
  exact Nat.mul_lt_mul_of_pos_right (Nat.lt_succ_self _) (Nat.two_pow_pos _)

/-- A code above zero stands for a positive magnitude. -/
theorem magnitude_pos {code : Nat} (h : 0 < code) : 0 < f.magnitude code :=
  Nat.lt_of_le_of_lt (Nat.zero_le _) (f.strictMono_magnitude h)

/-- The shift of the rounding leaves as many bits as the precision allows, and no fewer. -/
theorem log2_shift_bounds (f : BinaryFormat) (n : Nat) :
    n < 2 * f.fractionCount * 2 ^ (n.log2 + 1 - f.precision) ∧
      (n.log2 + 1 - f.precision = 0 ∨
        f.fractionCount * 2 ^ (n.log2 + 1 - f.precision) ≤ n) := by
  rw [← two_pow_precision, ← Nat.pow_add]
  constructor
  · exact Nat.lt_of_lt_of_le Nat.lt_log2_self (Nat.pow_le_pow_right (by omega) (by omega))
  · have hp := f.two_le_precision
    by_cases hshift : n.log2 + 1 - f.precision = 0
    · exact .inl hshift
    · right
      have hn : n ≠ 0 := by
        rintro rfl
        rw [Nat.log2_zero] at hshift
        omega
      calc f.fractionCount * 2 ^ (n.log2 + 1 - f.precision)
          = 2 ^ (f.precision - 1 + (n.log2 + 1 - f.precision)) := (Nat.pow_add 2 _ _).symm
        _ = 2 ^ n.log2 := by congr 1; omega
        _ ≤ n := Nat.log2_self_le hn

/-! ## Rounding between the midpoints -/

/-- A quotient lies between the midpoints on both sides of a code, and strictly so if the code is
odd. -/
@[mk_iff] structure Between (f : BinaryFormat) (code num den : Nat) : Prop where
  below : (f.magnitude (code - 1) + f.magnitude code) * den ≤ 2 * num
  above : 2 * num ≤ (f.magnitude code + f.magnitude (code + 1)) * den
  odd : code % 2 = 1 → (f.magnitude (code - 1) + f.magnitude code) * den < 2 * num ∧
    2 * num < (f.magnitude code + f.magnitude (code + 1)) * den

namespace Split

variable {code shift significand num den : Nat}

/-- A code is even as its significand is. -/
theorem code_mod_two (h : f.Split code shift significand) : code % 2 = significand % 2 := by
  have hfractions : shift * f.fractionCount % 2 = 0 := by
    rw [Nat.mul_mod, f.fractionCount_mod_two, Nat.mul_zero, Nat.zero_mod]
  rw [h.code_eq, Nat.add_mod, hfractions, Nat.zero_add, Nat.mod_mod]

/-- The magnitude before a code is at least that of the significand before it. -/
theorem le_magnitude_pred (h : f.Split code shift (significand + 1)) :
    significand * 2 ^ shift ≤ f.magnitude (code - 1) := by
  by_cases hnormal : shift = 0 ∨ f.fractionCount ≤ significand
  · exact (h.magnitude_pred hnormal).ge
  · have hfirst : significand + 1 = f.fractionCount := by
      have := h.normal
      omega
    obtain ⟨shift, rfl⟩ : ∃ n, shift = n + 1 := ⟨shift - 1, by omega⟩
    rw [hfirst] at h
    have hpred := h.magnitude_pred_of_power
    rw [← hfirst] at hpred
    have hdouble : significand * 2 ^ (shift + 1) + 2 * 2 ^ shift = 2 * (significand + 1) * 2 ^ shift := by
      ring
    omega

/-- Rounded at the shift of the code, the quotient gives the significand. -/
theorem roundHalfEven_eq (h : f.Split code shift (significand + 1)) (hden : 0 < den)
    (hb : f.Between code num den) :
    roundHalfEven num (den * 2 ^ shift) = significand + 1 := by
  have hlower : 2 * ((significand + 1) * (den * 2 ^ shift)) ≤
      (f.magnitude (code - 1) + f.magnitude code) * den + den * 2 ^ shift := by
    calc 2 * ((significand + 1) * (den * 2 ^ shift))
        = (significand * 2 ^ shift + (significand + 1) * 2 ^ shift) * den + den * 2 ^ shift := by
          ring
      _ ≤ _ := by
          rw [h.magnitude]
          have hpred := h.le_magnitude_pred
          gcongr
  have hupper : (f.magnitude code + f.magnitude (code + 1)) * den =
      2 * ((significand + 1) * (den * 2 ^ shift)) + den * 2 ^ shift := by
    rw [h.magnitude, h.magnitude_succ]
    ring
  have hbelow := hb.below
  have habove := hb.above
  refine RecordCoercion.roundHalfEven_eq (by omega) (by omega) (fun hodd => ?_)
    (Nat.mul_pos hden (Nat.two_pow_pos _))
  have hstrict := hb.odd (h.code_mod_two.trans hodd)
  omega

/-- The quotient has no more bits than the code. -/
theorem shift_le (h : f.Split code shift significand) (hden : 0 < den) {s : Nat}
    (hb : f.Between code num den) (hs : s = 0 ∨ f.fractionCount * 2 ^ s * den ≤ num) :
    s ≤ shift := by
  refine Nat.le_of_not_lt fun hlt => ?_
  have hs : f.fractionCount * 2 ^ s * den ≤ num := hs.resolve_left (by omega)
  have hpow : 2 ^ (shift + 1) ≤ 2 ^ s := Nat.pow_le_pow_right (by decide) hlt
  have hnum : 4 * f.fractionCount * (2 ^ shift * den) ≤ 2 * num := by
    calc 4 * f.fractionCount * (2 ^ shift * den)
        = 2 * (f.fractionCount * 2 ^ (shift + 1) * den) := by ring
      _ ≤ 2 * (f.fractionCount * 2 ^ s * den) := by gcongr
      _ ≤ 2 * num := by omega
  have hupper : (f.magnitude code + f.magnitude (code + 1)) * den =
      (2 * significand + 1) * (2 ^ shift * den) := by
    rw [h.magnitude, h.magnitude_succ]
    ring
  have hsig : 2 * significand + 1 < 4 * f.fractionCount := by
    have := h.lt
    omega
  have hless : (2 * significand + 1) * (2 ^ shift * den) < 4 * f.fractionCount * (2 ^ shift * den) :=
    Nat.mul_lt_mul_of_pos_right hsig (Nat.mul_pos (Nat.two_pow_pos _) hden)
  have habove := hb.above
  omega

/-- A quotient has as many bits as the code, unless the code is that of a power of two. -/
theorem significand_eq (h : f.Split code (shift + 1) significand) (hb : f.Between code num den)
    {s : Nat} (hs : s ≤ shift) (hnum : 2 * num < 4 * (f.fractionCount * (2 ^ s * den))) :
    significand = f.fractionCount := by
  have hnormal : f.fractionCount ≤ significand := h.normal.resolve_left (Nat.succ_ne_zero shift)
  refine Nat.le_antisymm (Nat.le_of_not_lt fun hlt => ?_) hnormal
  obtain ⟨k, rfl⟩ : ∃ k, significand = k + 1 := ⟨significand - 1, by omega⟩
  have hk : f.fractionCount ≤ k := Nat.le_of_lt_succ hlt
  have hpow : 2 ^ s ≤ 2 ^ shift := Nat.pow_le_pow_right (by decide) hs
  have hlower : 4 * (f.fractionCount * (2 ^ s * den)) ≤
      (f.magnitude (code - 1) + f.magnitude code) * den := by
    calc 4 * (f.fractionCount * (2 ^ s * den)) ≤ 4 * (k * (2 ^ shift * den)) := by gcongr
      _ ≤ 4 * (k * (2 ^ shift * den)) + 2 * (2 ^ shift * den) := Nat.le_add_right _ _
      _ = (k * 2 ^ (shift + 1) + (k + 1) * 2 ^ (shift + 1)) * den := by ring
      _ = _ := by rw [h.magnitude, h.magnitude_pred (.inr hk)]
  have hbelow := hb.below
  omega

/-- The midpoint below a power of two is a quarter of the distance above away from it. -/
theorem below_power (h : f.Split code (shift + 1) f.fractionCount) (hb : f.Between code num den) :
    4 * (f.fractionCount * (2 ^ shift * den)) ≤ 2 * num + 2 ^ shift * den := by
  calc 4 * (f.fractionCount * (2 ^ shift * den))
      = (2 * f.fractionCount * 2 ^ shift + f.fractionCount * 2 ^ (shift + 1)) * den := by ring
    _ = (f.magnitude (code - 1) + f.magnitude code) * den + 2 ^ shift * den := by
        rw [h.magnitude, ← h.magnitude_pred_of_power]
        ring
    _ ≤ 2 * num + 2 ^ shift * den := Nat.add_le_add_right hb.below _

/-- A quotient of fewer bits than the code lies just below a power of two, and rounds to it. -/
theorem roundHalfEven_of_shift_lt (h : f.Split code shift significand) (hden : 0 < den) {s : Nat}
    (hb : f.Between code num den) (hnum : num < 2 * f.fractionCount * 2 ^ s * den)
    (hs : s < shift) :
    shift = s + 1 ∧ significand = f.fractionCount ∧
      roundHalfEven num (den * 2 ^ s) = 2 * f.fractionCount := by
  have hunit : 0 < 2 ^ s * den := Nat.mul_pos (Nat.two_pow_pos _) hden
  have hnum : 2 * num < 4 * (f.fractionCount * (2 ^ s * den)) := by
    calc 2 * num < 2 * (2 * f.fractionCount * 2 ^ s * den) := by omega
      _ = 4 * (f.fractionCount * (2 ^ s * den)) := by ring
  obtain ⟨upper, rfl⟩ : ∃ n, shift = n + 1 := ⟨shift - 1, by omega⟩
  have hs : s ≤ upper := Nat.le_of_lt_succ hs
  obtain rfl := h.significand_eq hb hs hnum
  have hlower := h.below_power hb
  have hupper : upper = s := by
    refine Nat.le_antisymm (Nat.le_of_not_lt fun hlt => ?_) hs
    have hdouble : 2 * (2 ^ s * den) ≤ 2 ^ upper * den := by
      rw [← Nat.mul_assoc, Nat.mul_comm 2, ← Nat.pow_succ]
      exact Nat.mul_le_mul_right _ (Nat.pow_le_pow_right (by decide) hlt)
    have hscaled : 2 * (f.fractionCount * (2 ^ s * den)) ≤ f.fractionCount * (2 ^ upper * den) := by
      rw [Nat.mul_left_comm]
      exact Nat.mul_le_mul_left _ hdouble
    have hunits : 2 ^ upper * den ≤ f.fractionCount * (2 ^ upper * den) :=
      Nat.le_mul_of_pos_left _ f.fractionCount_pos
    omega
  subst hupper
  rw [Nat.mul_comm den]
  refine ⟨rfl, rfl, RecordCoercion.roundHalfEven_eq ?_ ?_ (fun hodd => by omega) hunit⟩ <;>
    rw [Nat.mul_assoc 2] <;> omega

end Split

/-- A quotient between the midpoints on both sides of a number is rounded to it. -/
theorem nearestCode_of_between {code num den : Nat} (hden : 0 < den) (hpos : 0 < code)
    (hle : code ≤ f.infinityCode) (hb : f.Between code num den) : f.nearestCode num den = code := by
  obtain ⟨shift, significand, h⟩ := exists_split (f := f) code
  obtain ⟨hlt, hge⟩ := f.log2_shift_bounds (num / den)
  rw [Nat.div_lt_iff_lt_mul hden] at hlt
  rw [Nat.le_div_iff_mul_le hden] at hge
  simp only [nearestCode]
  generalize (num / den).log2 + 1 - f.precision = s at hlt hge
  have hround : s * f.fractionCount + roundHalfEven num (den * Nat.pow 2 s) = code := by
    rw [Nat.pow_eq]
    rcases Nat.lt_or_eq_of_le (h.shift_le hden hb hge) with hless | rfl
    · obtain ⟨rfl, rfl, hrounded⟩ := h.roundHalfEven_of_shift_lt hden hb hlt hless
      rw [hrounded, h.code_eq, Nat.succ_mul s]
      omega
    · obtain ⟨k, rfl⟩ := h.exists_succ hpos
      rw [h.roundHalfEven_eq hden hb, ← h.code_eq]
  rw [hround]
  exact Nat.min_eq_right hle

/-- A number of units rounds to a code: it lies between the midpoints on both sides of it. -/
@[mk_iff] structure RoundsTo (f : BinaryFormat) (code : Nat) (units : ℚ) : Prop where
  below : (f.magnitude (code - 1) + f.magnitude code : ℚ) ≤ 2 * units
  above : 2 * units ≤ f.magnitude code + f.magnitude (code + 1)
  odd : code % 2 = 1 → (f.magnitude (code - 1) + f.magnitude code : ℚ) < 2 * units ∧
    2 * units < f.magnitude code + f.magnitude (code + 1)

/-- A quotient between the midpoints is a number that rounds to the code. -/
theorem between_iff_roundsTo {code num den : Nat} (hden : 0 < den) :
    f.Between code num den ↔ f.RoundsTo code (num / den) := by
  have hpos : (0 : ℚ) < den := by exact_mod_cast hden
  rw [between_iff, roundsTo_iff]
  simp only [← mul_div_assoc, le_div_iff₀ hpos, div_le_iff₀ hpos, lt_div_iff₀ hpos,
    div_lt_iff₀ hpos]
  norm_cast

/-- What rounds to the smaller of two codes is less than what rounds to the larger: the midpoint
between neighbours belongs to only one of them. -/
theorem RoundsTo.lt {code code' : Nat} {units units' : ℚ} (h : f.RoundsTo code units)
    (h' : f.RoundsTo code' units') (hlt : code < code') : units < units' := by
  have hmono : ∀ {a b : Nat}, a ≤ b → (f.magnitude a : ℚ) ≤ f.magnitude b := by
    intro a b hab
    exact_mod_cast f.strictMono_magnitude.monotone hab
  have habove := h.above
  have hbelow := h'.below
  by_cases hnext : code + 1 = code'
  · subst hnext
    rw [Nat.add_sub_cancel] at hbelow
    rcases Nat.mod_two_eq_zero_or_one code with heven | hodd
    · have := (h'.odd (by omega)).1
      rw [Nat.add_sub_cancel] at this
      linarith
    · have := (h.odd hodd).2
      linarith
  · have hpred : (f.magnitude (code + 1) : ℚ) ≤ f.magnitude (code' - 1) := hmono (by omega)
    have hless : (f.magnitude code : ℚ) < f.magnitude code' := by
      exact_mod_cast f.strictMono_magnitude hlt
    linarith

/-- The magnitude of a code rounds to it. -/
theorem roundsTo_magnitude {code : Nat} (hpos : 0 < code) : f.RoundsTo code (f.magnitude code) := by
  have hpred : (f.magnitude (code - 1) : ℚ) < f.magnitude code := by
    exact_mod_cast f.strictMono_magnitude (Nat.sub_lt hpos Nat.one_pos)
  have hsucc : (f.magnitude code : ℚ) < f.magnitude (code + 1) := by
    exact_mod_cast f.strictMono_magnitude (Nat.lt_succ_self code)
  exact ⟨by linarith, by linarith, fun _ => ⟨by linarith, by linarith⟩⟩

end BinaryFormat

/-- A number covers the quotients that round to its code. -/
theorem Binary.covers_iff {f : BinaryFormat} {x : Binary f} {num den : Nat} (hden : 0 < den) :
    x.covers num den = true ↔ f.RoundsTo x.code (num / den) := by
  rw [← BinaryFormat.between_iff_roundsTo hden]
  unfold covers
  split
  next lo hi hends =>
  obtain ⟨rfl, rfl⟩ := Prod.mk.inj hends
  split <;> rw [Bool.and_eq_true, decide_eq_true_iff, decide_eq_true_iff]
  · exact ⟨fun h => ⟨h.1, h.2, fun hodd => by omega⟩, fun h => ⟨h.below, h.above⟩⟩
  · exact ⟨fun h => ⟨h.1.le, h.2.le, fun _ => h⟩, fun h => h.odd (by omega)⟩

end RecordCoercion
