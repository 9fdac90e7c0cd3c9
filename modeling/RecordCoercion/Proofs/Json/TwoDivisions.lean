import RecordCoercion.Proofs.Json.FastErrors

/-!
# Decimals that are divided twice

A decimal with an exponent below `-308` is divided by `10 ^ 308` first. Three numbers are rounded for this
quotient: the digits, which loses most for a small significand, the quotient, which loses most for one
that is a little larger, and the power of ten, which loses hardly anything. Together they make two factors
of `BinaryFormat.shrink` at most (`scaleDown_308_within`), and the second power of ten is a double.
-/

set_option autoImplicit false

namespace RecordCoercion.Json

open BinaryFormat

variable {z : Binary binary64} {n : Nat}

/-! ## The first quotient -/

/-- `10 ^ 308` is rounded up, and by a tenth of what the rounding may lose at most. -/
theorem powerOfTen_308_bounds {k : Nat} (hk : k = 308) {a : ℚ} (ha : 0 ≤ a) :
    a * (binary64.one / (powerOfTen k).units) ≤ a / 10 ^ k ∧
      a / 10 ^ k ≤ (1 + 1 / (10 * 2 ^ 53)) * (a * (binary64.one / (powerOfTen k).units)) := by
  have hpositive : 0 < (powerOfTen k).units :=
    binary64.one_pos.trans_le (powerOfTen_spec hk.le).1
  have hpositiveCast : (0 : ℚ) < (powerOfTen k).units := by exact_mod_cast hpositive
  have hpower : (0 : ℚ) < 10 ^ k := by positivity
  have hbounds : Nat.pow 10 k * binary64.one ≤ (powerOfTen k).units ∧
      10 * 2 ^ 53 * (powerOfTen k).units ≤ (10 * 2 ^ 53 + 1) * (Nat.pow 10 k * binary64.one) := by
    subst hk
    decide +kernel
  rw [Nat.pow_eq] at hbounds
  have hlower : (10 ^ k * binary64.one : ℚ) ≤ (powerOfTen k).units := by exact_mod_cast hbounds.1
  have hupper : (10 * 2 ^ 53 * (powerOfTen k).units : ℚ) ≤
      (10 * 2 ^ 53 + 1) * (10 ^ k * binary64.one) := by exact_mod_cast hbounds.2
  have hscale : (binary64.one / (powerOfTen k).units : ℚ) ≤ 1 / 10 ^ k := by
    rw [div_le_div_iff₀ hpositiveCast hpower]
    linarith
  have hscale' : (1 / 10 ^ k : ℚ) ≤ (1 + 1 / (10 * 2 ^ 53)) * (binary64.one / (powerOfTen k).units) := by
    rw [← mul_div_assoc, div_le_div_iff₀ hpower hpositiveCast]
    linarith
  rw [div_eq_mul_one_div a, mul_left_comm]
  exact ⟨mul_le_mul_of_nonneg_left hscale ha, mul_le_mul_of_nonneg_left hscale' ha⟩

/-- The distance of `10 ^ 308` to the next power of two. -/
theorem powerOfTen_308_ratio {k m : Nat} (hk : k = 308) (hm : m = 1024) :
    1797 ≤ 1000 * (2 ^ m * (binary64.one / (powerOfTen k).units) : ℚ) ∧
      1000 * (2 ^ m * (binary64.one / (powerOfTen k).units) : ℚ) ≤ 1798 := by
  have hpositive : 0 < (powerOfTen k).units :=
    binary64.one_pos.trans_le (powerOfTen_spec hk.le).1
  have hpositiveCast : (0 : ℚ) < (powerOfTen k).units := by exact_mod_cast hpositive
  have hbounds : 1797 * (powerOfTen k).units ≤ 1000 * (Nat.pow 2 m * binary64.one) ∧
      1000 * (Nat.pow 2 m * binary64.one) ≤ 1798 * (powerOfTen k).units := by
    subst hk hm
    decide +kernel
  rw [Nat.pow_eq] at hbounds
  rw [← mul_div_assoc, ← mul_div_assoc, le_div_iff₀ hpositiveCast, div_le_iff₀ hpositiveCast]
  exact ⟨by exact_mod_cast hbounds.1, by exact_mod_cast hbounds.2⟩

/-- A quotient whose dividend and which itself are rounded, by a divisor that is rounded up a little. -/
theorem within_two_of_factors {dividend exact quotient rounded scale result κ κ' : ℚ}
    (hdividend : κ * dividend ≤ exact ∧ κ * exact ≤ dividend)
    (hrounded : κ' * rounded ≤ quotient ∧ κ' * quotient ≤ rounded)
    (hquotient : quotient = dividend * scale)
    (hresult : exact * scale ≤ result ∧ result ≤ (1 + 1 / (10 * 2 ^ 53)) * (exact * scale))
    (hfactors : binary64.shrink ^ 2 * (1 + 1 / (10 * 2 ^ 53)) ≤ κ * κ')
    (hκ : 0 ≤ κ) (hκ' : 0 ≤ κ') (hscale : 0 ≤ scale) (hexact : 0 ≤ exact) (hpositive : 0 ≤ rounded) :
    binary64.Within 2 rounded result := by
  have hshrink : 0 ≤ binary64.shrink ^ 2 := sq_nonneg _
  constructor
  · calc binary64.shrink ^ 2 * rounded ≤ κ * κ' * rounded := by
          refine mul_le_mul_of_nonneg_right (le_trans ?_ hfactors) hpositive
          exact le_mul_of_one_le_right hshrink (by norm_num)
      _ = κ * (κ' * rounded) := mul_assoc _ _ _
      _ ≤ κ * (dividend * scale) := mul_le_mul_of_nonneg_left (hrounded.1.trans_eq hquotient) hκ
      _ = κ * dividend * scale := (mul_assoc _ _ _).symm
      _ ≤ exact * scale := mul_le_mul_of_nonneg_right hdividend.1 hscale
      _ ≤ result := hresult.1
  · calc binary64.shrink ^ 2 * result
        ≤ binary64.shrink ^ 2 * ((1 + 1 / (10 * 2 ^ 53)) * (exact * scale)) :=
          mul_le_mul_of_nonneg_left hresult.2 hshrink
      _ = binary64.shrink ^ 2 * (1 + 1 / (10 * 2 ^ 53)) * (exact * scale) := (mul_assoc _ _ _).symm
      _ ≤ κ * κ' * (exact * scale) :=
          mul_le_mul_of_nonneg_right hfactors (mul_nonneg hexact hscale)
      _ = κ' * (κ * exact * scale) := by ring
      _ ≤ κ' * (dividend * scale) :=
          mul_le_mul_of_nonneg_left (mul_le_mul_of_nonneg_right hdividend.2 hscale) hκ'
      _ = κ' * quotient := by rw [hquotient]
      _ ≤ rounded := hrounded.2

/-- The quotient is not less than the first normal number. -/
theorem quotient_normal {m : Nat} {dividend scale : ℚ} (hn : 3 ≤ n) (hm : m = 1024)
    (hdividend : binary64.shrink ^ 1 * (n * binary64.one) ≤ dividend)
    (hratio : 1797 ≤ 1000 * (2 ^ m * scale)) (hscale : 0 ≤ scale) :
    (binary64.fractionCount : ℚ) ≤ dividend * scale := by
  have hone : (binary64.one : ℚ) = 2 ^ m * 2 ^ 50 := by
    rw [binary64.cast_one, ← pow_add, show binary64.scale = m + 50 by rw [hm]; rfl]
  have hshrink : 9999 / 10000 ≤ binary64.shrink ^ 1 := by
    rw [pow_one, shrink_binary64]
    norm_num
  have hdigit : (3 : ℚ) ≤ n := by exact_mod_cast hn
  calc (binary64.fractionCount : ℚ) = 2 ^ 52 := by
        rw [show binary64.fractionCount = 2 ^ 52 from rfl]
        norm_num
    _ ≤ 9999 / 10000 * (3 * 2 ^ 50) * (2 ^ m * scale) := by linarith
    _ = 9999 / 10000 * (3 * (2 ^ m * 2 ^ 50)) * scale := by ring
    _ ≤ binary64.shrink ^ 1 * (n * binary64.one) * scale := by
        rw [← hone]
        refine mul_le_mul_of_nonneg_right (mul_le_mul hshrink ?_ ?_ ?_) hscale
        · exact mul_le_mul_of_nonneg_right hdigit (Nat.cast_nonneg _)
        · exact mul_nonneg (by norm_num) (Nat.cast_nonneg _)
        · exact pow_nonneg binary64.shrink_pos.le 1
    _ ≤ dividend * scale := mul_le_mul_of_nonneg_right hdividend hscale

/-- If the significand of the dividend is little more than the least one, then that of the quotient is
larger by a good deal. -/
theorem significand_of_quotient {shift shift' significand significand' m : Nat} {quotient ratio : ℚ}
    (hratio : 1797 ≤ 1000 * ratio ∧ 1000 * ratio ≤ 1798)
    (hquotient : quotient * 2 ^ m = significand * 2 ^ shift * ratio)
    (hnormal : 2 ^ 52 ≤ significand) (hsmall : 9 * significand < 10 * 2 ^ 52)
    (hnormal' : 2 ^ 52 ≤ significand')
    (hclose : binary64.Within 1 (significand' * 2 ^ shift') quotient) :
    5 * 2 ^ 53 ≤ 6 * significand' := by
  have hstep : (0 : ℚ) < 2 ^ shift := by positivity
  have hscale : (0 : ℚ) < 2 ^ m := by positivity
  have hshrink : 9999 / 10000 ≤ binary64.shrink ^ 1 := by
    rw [pow_one, shrink_binary64]
    norm_num
  have hlow : (2 ^ 52 : ℚ) ≤ significand := by exact_mod_cast hnormal
  have hlow' : (2 ^ 52 : ℚ) ≤ significand' := by exact_mod_cast hnormal'
  have hhigh : (9 * significand : ℚ) ≤ 10 * 2 ^ 52 := by exact_mod_cast hsmall.le
  by_cases hshift : shift' + m ≤ shift
  · have hpow : (2 ^ shift' * 2 ^ m : ℚ) ≤ 2 ^ shift := by
      rw [← pow_add]
      exact pow_le_pow_right₀ one_le_two hshift
    have hscaled : 9999 / 10000 * (significand * ratio) * 2 ^ shift ≤ significand' * 2 ^ shift :=
      calc 9999 / 10000 * (significand * ratio) * 2 ^ shift
          = 9999 / 10000 * (quotient * 2 ^ m) := by rw [hquotient]; ring
        _ ≤ binary64.shrink ^ 1 * (quotient * 2 ^ m) := by
            refine mul_le_mul_of_nonneg_right hshrink ?_
            rw [hquotient]
            exact mul_nonneg (by positivity) (by linarith)
        _ = binary64.shrink ^ 1 * quotient * 2 ^ m := (mul_assoc _ _ _).symm
        _ ≤ significand' * 2 ^ shift' * 2 ^ m := mul_le_mul_of_nonneg_right hclose.right hscale.le
        _ = significand' * (2 ^ shift' * 2 ^ m) := mul_assoc _ _ _
        _ ≤ significand' * 2 ^ shift := mul_le_mul_of_nonneg_left hpow (Nat.cast_nonneg _)
    have hle := le_of_mul_le_mul_right hscaled hstep
    have hproduct : (2 ^ 52 : ℚ) * (1797 / 1000) ≤ significand * ratio :=
      mul_le_mul hlow (by linarith) (by norm_num) (Nat.cast_nonneg _)
    have hgoal : (5 * 2 ^ 53 : ℚ) ≤ 6 * significand' := by linarith
    exact_mod_cast hgoal
  · -- the quotient would be larger than the ratio allows
    exfalso
    have hpow : (2 * 2 ^ shift : ℚ) ≤ 2 ^ shift' * 2 ^ m := by
      rw [← pow_add, ← pow_succ']
      exact pow_le_pow_right₀ one_le_two (by omega)
    have hproduct : significand * ratio ≤ (10 * 2 ^ 52 / 9 : ℚ) * (1798 / 1000) :=
      mul_le_mul (by linarith) (by linarith) (by linarith) (by positivity)
    have hscaled : 9999 / 10000 * (2 ^ 52 * 2) * 2 ^ shift ≤ significand * ratio * 2 ^ shift :=
      calc (9999 / 10000 * (2 ^ 52 * 2) * 2 ^ shift : ℚ)
          = 9999 / 10000 * (2 ^ 52 * (2 * 2 ^ shift)) := by ring
        _ ≤ binary64.shrink ^ 1 * (significand' * (2 ^ shift' * 2 ^ m)) :=
            mul_le_mul hshrink (mul_le_mul hlow' hpow (by positivity) (Nat.cast_nonneg _))
              (by positivity) (pow_nonneg binary64.shrink_pos.le 1)
        _ = binary64.shrink ^ 1 * (significand' * 2 ^ shift') * 2 ^ m := by ring
        _ ≤ quotient * 2 ^ m := mul_le_mul_of_nonneg_right hclose.left hscale.le
        _ = significand * ratio * 2 ^ shift := by rw [hquotient]; ring
    have hle := le_of_mul_le_mul_right hscaled hstep
    linarith

/-- The significands of a dividend and of its quotient are not both so small that their roundings lose
two factors. -/
theorem exists_parts {significand significand' : Nat} (hnormal : 2 ^ 52 ≤ significand)
    (hnormal' : 2 ^ 52 ≤ significand')
    (hlarge : 9 * significand < 10 * 2 ^ 52 → 5 * 2 ^ 53 ≤ 6 * significand') :
    ∃ parts parts' : ℚ, (1 ≤ parts ∧ parts ≤ 2 * significand) ∧
      (1 ≤ parts' ∧ parts' ≤ 2 * significand') ∧
      binary64.shrink ^ 2 * (1 + 1 / (10 * 2 ^ 53)) ≤ (1 - 1 / parts) * (1 - 1 / parts') := by
  rw [shrink_binary64]
  by_cases hsmall : 9 * significand < 10 * 2 ^ 52
  · have hparts : (2 ^ 52 : ℚ) ≤ significand := by exact_mod_cast hnormal
    have hparts' : (5 * 2 ^ 53 : ℚ) ≤ 6 * significand' := by exact_mod_cast hlarge hsmall
    exact ⟨2 ^ 53, 5 * 2 ^ 53 / 3, ⟨by norm_num, by linarith⟩, ⟨by norm_num, by linarith⟩, by norm_num⟩
  · have hparts : (10 * 2 ^ 52 : ℚ) ≤ 9 * significand := by exact_mod_cast Nat.le_of_not_lt hsmall
    have hparts' : (2 ^ 52 : ℚ) ≤ significand' := by exact_mod_cast hnormal'
    exact ⟨10 * 2 ^ 53 / 9, 2 ^ 53, ⟨by norm_num, by linarith⟩, ⟨by norm_num, by linarith⟩, by norm_num⟩

/-- The quotient of an integer and `10 ^ 308` is two factors away from the exact one. -/
theorem scaleDown_308_within {k digits : Nat} (hk : k = 308) (hn : 3 ≤ n) (hlength : n ≤ 10 ^ digits)
    (hdigits : digits ≤ 308) :
    binary64.Within 2 ((Binary.ofInt binary64 n).scaleDown (powerOfTen k)).units
      (n * binary64.one / 10 ^ k) := by
  obtain ⟨hfinite, -, hnormal, hrounds⟩ := Binary.ofInt_spec (by omega) (two_mul_lt hlength hdigits)
  obtain ⟨shift, significand, hsplit, hlow⟩ := exists_split_of_normal hnormal
  have hcount : binary64.fractionCount = 2 ^ 52 := rfl
  rw [hcount] at hlow
  have hexact : (0 : ℚ) ≤ n * binary64.one := mul_nonneg (Nat.cast_nonneg _) (Nat.cast_nonneg _)
  -- the quotient that is rounded
  have hdivisor : 0 < (powerOfTen k).units := binary64.one_pos.trans_le (powerOfTen_spec hk.le).1
  have hquotient : binary64.RoundsTo ((Binary.ofInt binary64 n).scaleDown (powerOfTen k)).code
      ((Binary.ofInt binary64 n).units * (binary64.one / (powerOfTen k).units)) := by
    have hfiniteQuotient := Binary.isFinite_scaleDown hfinite (powerOfTen_spec hk.le).1
    rw [← mul_div_assoc, ← Nat.cast_mul]
    exact roundsTo_nearestCode hdivisor (of_decide_eq_true hfiniteQuotient)
  obtain ⟨m, hm⟩ : ∃ m, m = 1024 := ⟨_, rfl⟩
  have hratio := powerOfTen_308_ratio hk hm
  have hresult := powerOfTen_308_bounds hk hexact
  have hscale : (0 : ℚ) ≤ binary64.one / (powerOfTen k).units :=
    div_nonneg (Nat.cast_nonneg _) (Nat.cast_nonneg _)
  generalize (binary64.one / (powerOfTen k).units : ℚ) = scale at hratio hresult hquotient hscale
  have hnormal' : binary64.fractionCount ≤
      ((Binary.ofInt binary64 n).scaleDown (powerOfTen k)).code :=
    hquotient.fractionCount_le (quotient_normal hn hm (hrounds.within hnormal).right hratio.1
      hscale)
  obtain ⟨shift', significand', hsplit', hlow'⟩ := exists_split_of_normal hnormal'
  rw [hcount] at hlow'
  have hpositive : 0 < (Binary.ofInt binary64 n).code := by omega
  have hpositive' : 0 < ((Binary.ofInt binary64 n).scaleDown (powerOfTen k)).code := by omega
  have hscaled : (Binary.ofInt binary64 n).units * scale * 2 ^ m =
      significand * 2 ^ shift * (2 ^ m * scale) := by
    rw [Binary.units, hsplit.cast_magnitude]
    ring
  have hclose := hquotient.within hnormal'
  rw [hsplit'.cast_magnitude] at hclose
  obtain ⟨parts, parts', ⟨hone, hparts⟩, ⟨hone', hparts'⟩, hfactors⟩ := exists_parts hlow hlow'
    fun hsmall => significand_of_quotient hratio hscaled hlow hsmall hlow' hclose
  have hfactor : ∀ {parts : ℚ}, 1 ≤ parts → 0 ≤ 1 - 1 / parts :=
    fun hone => sub_nonneg.mpr ((div_le_one (by linarith)).mpr hone)
  exact within_two_of_factors (hrounds.factor_of_significand hsplit hpositive hone hparts)
    (hquotient.factor_of_significand hsplit' hpositive' hone' hparts') rfl hresult hfactors
    (hfactor hone) (hfactor hone') hscale hexact (Nat.cast_nonneg _)

/-! ## Both quotients -/

/-- The second power of ten is exact, so it does not take the result further away. -/
theorem fastDouble?_within_of_small {negative : Bool} {d : Decimal} {digits : Nat}
    (hcoefficient : 3 ≤ d.coefficient) (hlength : d.coefficient ≤ 10 ^ digits) (hdigits : digits ≤ 308)
    (hlow : -330 ≤ d.exponent) (hhigh : d.exponent < -308) (h : fastDouble? negative d = some z) :
    z.isFinite = true ∧ z.negative = negative ∧
      ∃ q, binary64.RoundsTo z.code q ∧ binary64.Within 2 q (d.value * binary64.one) := by
  obtain ⟨hfinite, -, hnormal, -⟩ := Binary.ofInt_spec (by omega) (two_mul_lt hlength hdigits)
  rw [fastDouble?, Option.map_eq_some_iff] at h
  obtain ⟨scaled, hscaled, rfl⟩ := h
  rw [timesPowerOfTen?, dif_pos hhigh,
    if_neg (Binary.not_isZero (binary64.fractionCount_pos.trans_le hnormal))] at hscaled
  obtain ⟨k, hk⟩ : ∃ k, k = 308 := ⟨_, rfl⟩
  have hfirst := scaleDown_308_within hk hcoefficient hlength hdigits
  rw [← hk] at hscaled
  have hexact : (0 : ℚ) ≤ d.coefficient * binary64.one / 10 ^ k :=
    div_nonneg (mul_nonneg (Nat.cast_nonneg _) (Nat.cast_nonneg _)) (by positivity)
  obtain ⟨hfinite, hsign, q, hq, hclose⟩ := exists_within_of_timesPowerOfTen? hfirst hexact
    (by omega) (by omega) (powerOfTen_within_of_exact (by omega)) hscaled
  have hvalue : (d.coefficient * binary64.one / 10 ^ k * 10 ^ (d.exponent + 308) : ℚ) =
      d.value * binary64.one := by
    have hpow : (10 : ℚ) ^ (d.exponent + 308) / 10 ^ k = 10 ^ d.exponent := by
      rw [zpow_add₀ (by norm_num), ← zpow_natCast, hk]
      exact mul_div_cancel_right₀ _ (by positivity)
    rw [div_mul_eq_mul_div, mul_div_assoc, hpow, Decimal.value]
    exact mul_right_comm _ _ _
  rw [hvalue] at hclose
  have hsign : scaled.negative = false := hsign.trans (Binary.negative_scaleDown _ _)
  cases negative
  · exact ⟨hfinite, hsign, q, hq, hclose⟩
  · exact ⟨hfinite, congrArg not hsign, q, hq, hclose⟩

/-- The quotient of a smaller digit is no normal number, but it makes no difference. -/
theorem fastDouble?_of_digit {negative : Bool} {d : Decimal} (hpos : 0 < d.coefficient)
    (hcoefficient : d.coefficient < 3) (hlow : -324 ≤ d.exponent) (hhigh : d.exponent < -308) :
    fastDouble? negative d = some (.ofDecimal binary64 negative d) := by
  have hall : ∀ negative, ∀ coefficient : Nat, coefficient < 3 → ∀ places : Nat, places < 16 →
      0 < coefficient →
      fastDouble? negative ⟨coefficient, places - 324⟩ =
        some (.ofDecimal binary64 negative ⟨coefficient, places - 324⟩) := by
    decide +kernel
  obtain ⟨coefficient, exponent⟩ := d
  dsimp only at hlow hhigh
  obtain ⟨places, rfl⟩ : ∃ places : Nat, exponent = places - 324 := ⟨(exponent + 324).toNat, by omega⟩
  exact hall negative coefficient hcoefficient places (by omega) hpos

end RecordCoercion.Json
