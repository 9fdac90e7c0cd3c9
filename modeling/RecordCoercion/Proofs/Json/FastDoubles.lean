import RecordCoercion.Json.Number
import RecordCoercion.Proofs.Numeric.ShortestDigits

/-!
# The fast rule for doubles

`Json.fastDouble?` rounds the digits of a decimal and the power of ten before it multiplies or divides
them. A decimal whose digits and whose power of ten are doubles is rounded only once
(`Json.fastDouble?_of_exact`). All others are rounded two times more, which takes nothing beyond the
finite numbers that is not nearly there already (`Json.isSome_fastDouble?`).
-/

set_option autoImplicit false

namespace RecordCoercion

open BinaryFormat

namespace Binary

variable {f : BinaryFormat}

/-- A quotient by a number that is not less than one is finite. -/
theorem isFinite_scaleDown {x y : Binary f} (hx : x.isFinite = true) (hy : f.one ≤ y.units) :
    (x.scaleDown y).isFinite = true := by
  have hone := f.one_pos
  simp only [isFinite, decide_eq_true_eq] at hx ⊢
  refine nearestCode_lt_infinityCode (by omega) ?_
  have hself : x.units ≤ f.magnitude (f.infinityCode - 1) :=
    f.strictMono_magnitude.monotone (by omega)
  have hinfinite : x.units < f.magnitude f.infinityCode := f.strictMono_magnitude hx
  calc 2 * (x.units * f.one) = 2 * x.units * f.one := (Nat.mul_assoc 2 _ _).symm
    _ < (f.magnitude (f.infinityCode - 1) + f.magnitude f.infinityCode) * f.one :=
        Nat.mul_lt_mul_of_pos_right (by omega) hone
    _ ≤ (f.magnitude (f.infinityCode - 1) + f.magnitude f.infinityCode) * y.units :=
        Nat.mul_le_mul_left _ hy

/-- A number is its magnitude with its sign. -/
theorem signed_eq {x magnitude : Binary f} (hnegative : magnitude.negative = false)
    (hcode : magnitude.code = x.code) : (if x.negative then magnitude.neg else magnitude) = x := by
  obtain ⟨negative, code, hlt⟩ := x
  obtain ⟨_, _, _⟩ := magnitude
  cases hcode
  cases hnegative
  cases negative <;> rfl

/-- An integer that is not too large is rounded to a finite number that is not less than one. -/
theorem ofInt_spec {n : Nat} (hn : 0 < n)
    (h : 2 * (n * f.one) < f.magnitude (f.infinityCode - 1) + f.magnitude f.infinityCode) :
    (ofInt f n).isFinite = true ∧ f.one ≤ (ofInt f n).units ∧ f.fractionCount ≤ (ofInt f n).code ∧
      f.RoundsTo (ofInt f n).code (n * f.one) := by
  have hcountPos := f.fractionCount_pos
  have hone := f.one_pos
  have hle : f.one ≤ n * f.one := Nat.le_mul_of_pos_left _ hn
  have hfinite : f.nearestCode (n * f.one) 1 < f.infinityCode :=
    nearestCode_lt_infinityCode Nat.one_pos (by rwa [Nat.mul_one])
  have hrounds := roundsTo_nearestCode Nat.one_pos hfinite
  rw [Nat.cast_one, div_one] at hrounds
  -- the code of the number one
  obtain ⟨unity, hunity⟩ : ∃ code, f.magnitude code = 1 * 2 ^ f.scale :=
    exists_magnitude_eq f.scale (by omega)
  have hunity : f.magnitude unity = f.one := by
    rw [hunity, Nat.one_mul]
    rfl
  have hunityPos : 0 < unity := by
    refine Nat.pos_of_ne_zero ?_
    rintro rfl
    rw [magnitude_zero] at hunity
    omega
  have hunityLe : unity ≤ f.nearestCode (n * f.one) 1 := by
    refine le_of_not_gt fun hlt => ?_
    have hless := hrounds.lt (roundsTo_magnitude hunityPos) hlt
    rw [hunity] at hless
    exact absurd hle (not_le.mpr (by exact_mod_cast hless))
  have hnormal : f.fractionCount ≤ unity := by
    have hpow : f.fractionCount ≤ f.one := by
      have hexponents : 2 ^ 1 ≤ 2 ^ (f.exponentBits - 1) :=
        Nat.pow_le_pow_right (by decide) (Nat.le_sub_of_add_le f.two_le_exponentBits)
      refine Nat.pow_le_pow_right (by decide) ?_
      simp only [scale, Nat.pow_eq]
      omega
    rw [← f.strictMono_magnitude.le_iff_le, f.magnitude_fractionCount, hunity]
    exact hpow
  refine ⟨decide_eq_true hfinite, ?_, hnormal.trans hunityLe, ?_⟩
  · rw [← hunity]
    exact f.strictMono_magnitude.monotone hunityLe
  · rw [← Nat.cast_mul]
    exact hrounds

end Binary

namespace Json

/-- The double that the fast rule makes of a decimal with a sign, if it is in range: the digits and the
power of ten are rounded, and so is their product or quotient. -/
def fastDouble? (negative : Bool) (d : Decimal) : Option (Binary binary64) :=
  (timesPowerOfTen? (.ofInt binary64 d.coefficient) d.exponent).map fun x =>
    if negative then x.neg else x

/-! ## Powers of ten -/

/-- The powers of ten up to `10 ^ 22` are doubles. -/
theorem units_powerOfTen : ∀ n ≤ 22, (powerOfTen n).units = 10 ^ n * binary64.one := by
  decide +kernel

/-- The integers up to `10 ^ 308` are less than all that is not finite. -/
theorem two_mul_lt {n k : Nat} (hn : n ≤ 10 ^ k) (hk : k ≤ 308) :
    2 * (n * binary64.one) <
      binary64.magnitude (binary64.infinityCode - 1) + binary64.magnitude binary64.infinityCode := by
  -- so large a power is for the kernel to compute, and a variable stands for its exponent elsewhere
  have hlimit : ∀ m, m = 308 → 2 * (10 ^ m * binary64.one) <
      binary64.magnitude (binary64.infinityCode - 1) + binary64.magnitude binary64.infinityCode := by
    rintro _ rfl
    decide +kernel
  generalize hm : 308 = m at hk
  have hpow : n ≤ 10 ^ m := hn.trans (Nat.pow_le_pow_right (by decide) hk)
  exact (Nat.mul_le_mul_left 2 (Nat.mul_le_mul_right _ hpow)).trans_lt (hlimit m hm.symm)

/-- A power of ten in the table is the double nearest to it, and a normal one. -/
theorem powerOfTen_spec {n : Nat} (hn : n ≤ 308) :
    binary64.one ≤ (powerOfTen n).units ∧ binary64.fractionCount ≤ (powerOfTen n).code ∧
      binary64.RoundsTo (powerOfTen n).code (10 ^ n * binary64.one) := by
  have hcast : ((10 ^ n : Nat) : ℚ) = 10 ^ n := by push_cast; rfl
  rw [← hcast]
  exact (Binary.ofInt_spec (Nat.pow_pos (by decide)) (two_mul_lt le_rfl hn)).2

/-! ## In range -/

/-- What is divided by a power of ten stays finite. -/
theorem isSome_timesPowerOfTen?_of_neg {x : Binary binary64} (hx : x.isFinite = true) {exponent : Int}
    (hexponent : exponent < 0) : (timesPowerOfTen? x exponent).isSome = true := by
  fun_induction timesPowerOfTen? x exponent with
  | case1 | case3 => rfl
  | case2 x exponent hlow hzero ih =>
    exact ih (Binary.isFinite_scaleDown hx (powerOfTen_spec le_rfl).1) (by omega)
  | case4 => omega
  | case5 x exponent hlow hhigh scaled hinfinite =>
    have hfinite : scaled.isFinite = true := by
      simp only [scaled, dif_neg (not_le.mpr hexponent)]
      exact Binary.isFinite_scaleDown hx (powerOfTen_spec (by omega)).1
    rw [Binary.isInfinite_of_isFinite hfinite] at hinfinite
    cases hinfinite
  | case6 => rfl

/-- What a power of ten is applied to in one step. -/
theorem timesPowerOfTen?_of_isFinite {x scaled : Binary binary64} {exponent : Int}
    (hlow : -308 ≤ exponent) (hhigh : exponent ≤ 308)
    (hscaled : scaled = if 0 ≤ exponent then x.scaleUp (powerOfTen exponent.toNat)
      else x.scaleDown (powerOfTen (-exponent).toNat))
    (hfinite : scaled.isFinite = true) : timesPowerOfTen? x exponent = some scaled := by
  rw [timesPowerOfTen?, dif_neg (by omega), if_neg (by omega)]
  have hinfinite := Binary.isInfinite_of_isFinite hfinite
  subst hscaled
  simp only [hinfinite, Bool.false_eq_true, if_false]

/-- Two factors that are rounded up by half a last place at most, and what is left below infinity of the
product of the exact ones. -/
theorem product_lt {count digits power n p one step : ℚ} (hcount : 2 ≤ count) (hone : 0 < one)
    (hstep : 0 < step) (hdigits : 0 ≤ digits) (hp : 0 ≤ p)
    (hn : (2 * count - 1) * digits ≤ 2 * count * (n * one))
    (hpower : (2 * count - 1) * power ≤ 2 * count * (p * one))
    (h : 2 * (n * p * one) ≤ (4 * count - 5) * step) :
    2 * (digits * power * one) < (4 * count - 1) * step * (one * one) := by
  have hfactor : (0 : ℚ) < 2 * count - 1 := by linarith
  have hproduct : ((2 * count - 1) * digits) * ((2 * count - 1) * power) ≤
      (2 * count * (n * one)) * (2 * count * (p * one)) := by
    have hupper : 0 ≤ 2 * count * (p * one) := by positivity
    calc ((2 * count - 1) * digits) * ((2 * count - 1) * power)
        ≤ ((2 * count - 1) * digits) * (2 * count * (p * one)) :=
          mul_le_mul_of_nonneg_left hpower (mul_nonneg hfactor.le hdigits)
      _ ≤ (2 * count * (n * one)) * (2 * count * (p * one)) :=
          mul_le_mul_of_nonneg_right hn hupper
  have hleft : (4 * count * count) * (4 * count - 5) <
      (2 * count - 1) * (2 * count - 1) * (4 * count - 1) := by nlinarith
  refine lt_of_mul_lt_mul_left ?_ (mul_pos hfactor hfactor).le
  calc (2 * count - 1) * (2 * count - 1) * (2 * (digits * power * one))
      = 2 * one * (((2 * count - 1) * digits) * ((2 * count - 1) * power)) := by ring
    _ ≤ 2 * one * ((2 * count * (n * one)) * (2 * count * (p * one))) :=
        mul_le_mul_of_nonneg_left hproduct (by positivity)
    _ = 4 * count * count * (one * one) * (2 * (n * p * one)) := by ring
    _ ≤ 4 * count * count * (one * one) * ((4 * count - 5) * step) :=
        mul_le_mul_of_nonneg_left h (by positivity)
    _ = (4 * count * count) * (4 * count - 5) * (step * (one * one)) := by ring
    _ < (2 * count - 1) * (2 * count - 1) * (4 * count - 1) * (step * (one * one)) :=
        mul_lt_mul_of_pos_right hleft (by positivity)
    _ = (2 * count - 1) * (2 * count - 1) * ((4 * count - 1) * step * (one * one)) := by ring

/-- A product of which neither factor is rounded up by more than half a last place is finite, unless it
is among the two largest numbers. -/
theorem isFinite_scaleUp {n k digits : Nat} (hpos : 0 < n) (hn : n ≤ 10 ^ digits)
    (hdigits : digits ≤ 308) (hk : k ≤ 308)
    (h : 2 * (n * 10 ^ k * binary64.one) ≤
      binary64.magnitude (binary64.infinityCode - 3) +
        binary64.magnitude (binary64.infinityCode - 2)) :
    ((Binary.ofInt binary64 n).scaleUp (powerOfTen k)).isFinite = true := by
  obtain ⟨-, -, hnormal, hrounds⟩ := Binary.ofInt_spec hpos (two_mul_lt hn hdigits)
  obtain ⟨-, hnormal', hrounds'⟩ := powerOfTen_spec hk
  have hsignificand : (2 * binary64.fractionCount - 1 : ℚ) * (Binary.ofInt binary64 n).units ≤
      2 * binary64.fractionCount * (n * binary64.one) := (hrounds.distance_le_of_normal hnormal).1
  have hpower : (2 * binary64.fractionCount - 1 : ℚ) * (powerOfTen k).units ≤
      2 * binary64.fractionCount * (10 ^ k * binary64.one) :=
    (hrounds'.distance_le_of_normal hnormal').1
  have hlimit : binary64.magnitude (binary64.infinityCode - 3) +
      binary64.magnitude (binary64.infinityCode - 2) =
      (4 * binary64.fractionCount - 5) * Nat.pow 2 2045 := by decide +kernel
  have hhalfway : binary64.magnitude (binary64.infinityCode - 1) +
      binary64.magnitude binary64.infinityCode = (4 * binary64.fractionCount - 1) * Nat.pow 2 2045 := by
    decide +kernel
  have hone := binary64.one_pos
  have hpow : ∀ m, 0 < Nat.pow 2 m := Nat.two_pow_pos
  have hstep := hpow 2045
  have hcount : 2 ≤ binary64.fractionCount := by decide +kernel
  refine decide_eq_true (nearestCode_lt_infinityCode (Nat.mul_pos hone hone) ?_)
  rw [hhalfway]
  rw [hlimit] at h
  generalize Nat.pow 2 2045 = step at h hstep ⊢
  generalize (Binary.ofInt binary64 n).units = significand at hsignificand ⊢
  generalize (powerOfTen k).units = power at hpower ⊢
  generalize binary64.one = one at *
  generalize binary64.fractionCount = count at *
  have hproduct : (2 * (n * 10 ^ k * one) : ℚ) ≤ (4 * count - 5) * step := by
    have hle : ((2 * (n * 10 ^ k * one) : Nat) : ℚ) ≤ ((4 * count - 5) * step : Nat) :=
      Nat.cast_le.mpr h
    push_cast [show 5 ≤ 4 * count by omega] at hle
    exact hle
  have hlt := product_lt (by exact_mod_cast hcount) (by exact_mod_cast hone) (by exact_mod_cast hstep)
    (Nat.cast_nonneg significand) (by positivity) hsignificand hpower hproduct
  have hgoal : ((2 * (significand * power * one) : Nat) : ℚ) <
      ((4 * count - 1) * step * (one * one) : Nat) := by
    push_cast [show 1 ≤ 4 * count by omega]
    exact hlt
  exact Nat.cast_lt.mp hgoal

/-- The fast rule gives a number for every decimal that is not greater than the two largest numbers are. -/
theorem isSome_fastDouble? {d : Decimal} {digits : Nat} (negative : Bool)
    (hd : 0 < d.coefficient ∨ d.exponent < 0) (hlength : d.coefficient ≤ 10 ^ digits)
    (hdigits : digits ≤ 308)
    (h : 2 * (d.value * binary64.one) ≤
      binary64.magnitude (binary64.infinityCode - 3) +
        binary64.magnitude (binary64.infinityCode - 2)) :
    (fastDouble? negative d).isSome = true := by
  obtain ⟨coefficient, exponent⟩ := d
  dsimp only at hd hlength
  rw [fastDouble?, Option.isSome_map]
  have hfinite : (Binary.ofInt binary64 coefficient).isFinite = true := by
    rcases Nat.eq_zero_or_pos coefficient with rfl | hpos
    · decide +kernel
    · exact (Binary.ofInt_spec hpos (two_mul_lt hlength hdigits)).1
  by_cases hexponent : exponent < 0
  · exact isSome_timesPowerOfTen?_of_neg hfinite hexponent
  have hpos : 0 < coefficient := hd.resolve_right hexponent
  obtain ⟨k, rfl⟩ : ∃ k : Nat, exponent = k := ⟨exponent.toNat, by omega⟩
  have hproduct : 2 * (coefficient * 10 ^ k * binary64.one) ≤
      binary64.magnitude (binary64.infinityCode - 3) +
        binary64.magnitude (binary64.infinityCode - 2) := by
    rw [Decimal.value, zpow_natCast] at h
    exact_mod_cast h
  have hk : k ≤ 308 := by
    refine Nat.le_of_lt_succ (lt_of_not_ge fun hlarge => ?_)
    have hlimit : ∀ m, m = 309 → binary64.magnitude (binary64.infinityCode - 3) +
        binary64.magnitude (binary64.infinityCode - 2) < 2 * (10 ^ m * binary64.one) := by
      rintro _ rfl
      decide +kernel
    obtain ⟨m, hm, hlarge⟩ : ∃ m, m = 309 ∧ m ≤ k := ⟨309, rfl, hlarge⟩
    have hpow : 10 ^ m ≤ coefficient * 10 ^ k :=
      (Nat.pow_le_pow_right (by decide) hlarge).trans (Nat.le_mul_of_pos_left _ hpos)
    have hle : 2 * (10 ^ m * binary64.one) ≤ 2 * (coefficient * 10 ^ k * binary64.one) :=
      Nat.mul_le_mul_left 2 (Nat.mul_le_mul_right _ hpow)
    exact absurd (hproduct.trans_lt (hlimit m hm)) hle.not_gt
  have hscaled := isFinite_scaleUp hpos hlength hdigits hk hproduct
  have hk' : (k : Int) ≤ 308 := by exact_mod_cast hk
  rw [timesPowerOfTen?_of_isFinite (by omega) hk' (by rw [if_pos (by omega)]; rfl) hscaled]
  rfl

/-! ## Rounded once -/

/-- Digits that are not beyond the significands are a double. -/
theorem units_significand {n : Nat} (hn : n ≤ 2 ^ 53) :
    (Binary.ofInt binary64 n).units = n * binary64.one := by
  refine Binary.units_ofInt hn ?_
  calc n * binary64.one ≤ 2 ^ 53 * binary64.one := Nat.mul_le_mul_right _ hn
    _ ≤ _ := by decide +kernel

/-- A decimal whose digits and whose power of ten are doubles is read as the double that it rounds to. -/
theorem fastDouble?_of_exact {x : Binary binary64} (hx : x.IsRegular) {d : Decimal}
    (hcoefficient : d.coefficient ≤ 2 ^ 53) (hlow : -22 ≤ d.exponent) (hhigh : d.exponent ≤ 22)
    (h : binary64.RoundsTo x.code (d.value * binary64.one)) :
    fastDouble? x.negative d = some x := by
  obtain ⟨coefficient, exponent⟩ := d
  dsimp only at hcoefficient hlow hhigh
  have hone := binary64.one_pos
  have hdigits := units_significand hcoefficient
  -- one rounding of the exact quotient
  have hnearest : ∀ num den : Nat, 0 < den →
      (num / den : ℚ) = (⟨coefficient, exponent⟩ : Decimal).value * binary64.one →
      binary64.nearestCode num den = x.code := by
    intro num den hden heq
    refine nearestCode_of_between hden hx.1 hx.2.le ((between_iff_roundsTo hden).mpr ?_)
    rwa [heq]
  obtain ⟨scaled, hscaled, hcode, hnegative⟩ : ∃ scaled : Binary binary64,
      (scaled = if 0 ≤ exponent then
          (Binary.ofInt binary64 coefficient).scaleUp (powerOfTen exponent.toNat)
        else (Binary.ofInt binary64 coefficient).scaleDown (powerOfTen (-exponent).toNat)) ∧
      scaled.code = x.code ∧ scaled.negative = false := by
    refine ⟨_, rfl, ?_⟩
    split
    · next hexponent =>
      refine ⟨?_, rfl⟩
      obtain ⟨k, rfl⟩ : ∃ k : Nat, exponent = k := ⟨exponent.toNat, by omega⟩
      refine hnearest _ _ (Nat.mul_pos hone hone) ?_
      rw [hdigits, Int.toNat_natCast, units_powerOfTen k (by omega), Decimal.value, zpow_natCast]
      push_cast
      field_simp
    · next hexponent =>
      refine ⟨?_, rfl⟩
      obtain ⟨k, rfl⟩ : ∃ k : Nat, exponent = -k := ⟨(-exponent).toNat, by omega⟩
      have hunits := units_powerOfTen k (by omega)
      rw [neg_neg, Int.toNat_natCast]
      refine hnearest _ _ ?_ ?_
      · rw [hunits]
        exact Nat.mul_pos (Nat.pow_pos (by decide)) hone
      · rw [hdigits, hunits, Decimal.value, zpow_neg, zpow_natCast]
        push_cast
        field_simp
  have hfinite : scaled.isFinite = true := decide_eq_true (hcode ▸ hx.2)
  rw [fastDouble?, timesPowerOfTen?_of_isFinite (by omega) (by omega) hscaled hfinite,
    Option.map_some, Binary.signed_eq hnegative hcode]

end Json

end RecordCoercion
