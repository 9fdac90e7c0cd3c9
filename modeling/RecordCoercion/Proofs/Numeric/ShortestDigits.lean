import Mathlib.Data.Nat.Cast.Order.Field
import RecordCoercion.Proofs.Numeric.Rounded

/-!
# The number of digits of a shortest decimal

A grid of decimals that is no coarser than the numbers of a format lie apart has a point that rounds to
each of them (`Binary.isSome_onGrid?`). The shortest decimal of a number is found on this grid or on a
coarser one, so it has no more digits than are needed to tell the numbers of the format apart
(`Binary.shortest_digits`) and does not reach behind a place that is less than a unit
(`Binary.le_exponent_shortest`). It is no farther from the number than a step of its own grid
(`Binary.distance_shortest`).
-/

set_option autoImplicit false

namespace RecordCoercion

namespace Decimal

/-- A decimal without exponent is its coefficient. -/
theorem value_natCast (n : Nat) : (⟨n, 0⟩ : Decimal).value = n := by
  rw [value, zpow_zero, mul_one]

/-- A number is below the power of ten of its width. -/
theorem lt_ten_zpow_width (n : Nat) : (n : ℚ) < 10 ^ (width n : Int) := by
  have hlt := value_lt ⟨n, 0⟩
  rwa [value_natCast, add_zero] at hlt

/-- A number is at least the power of ten of its leading digit. -/
theorem ten_zpow_width_le {n : Nat} (hn : n ≠ 0) : (10 : ℚ) ^ ((width n : Int) - 1) ≤ n := by
  have hle := le_value (d := ⟨n, 0⟩) hn
  rwa [value_natCast, add_zero] at hle

/-- The leading exponent of a quotient is that of its first digit. -/
theorem leadingExponent_spec {num den : Nat} (hnum : 0 < num) (hden : 0 < den) :
    (10 : ℚ) ^ leadingExponent num den ≤ num / den ∧
      (num / den : ℚ) < 10 ^ (leadingExponent num den + 1) := by
  have hnumCast : (0 : ℚ) < num := by exact_mod_cast hnum
  have hdenCast : (0 : ℚ) < den := by exact_mod_cast hden
  rw [leadingExponent]
  split
  · next hle =>
    -- the digits of the integer part are counted
    have hquotient : num / den ≠ 0 := (Nat.div_pos hle hden).ne'
    have hlower := ten_zpow_width_le hquotient
    have hupper : (num / den : ℚ) < (num / den : Nat) + 1 := by
      rw [div_lt_iff₀ hdenCast]
      have hlt := Nat.lt_div_mul_add (a := num) hden
      have hcast : (num : ℚ) < (num / den : Nat) * den + den := by exact_mod_cast hlt
      linarith
    have hdigits : ((num / den : Nat) : ℚ) + 1 ≤ 10 ^ (width (num / den) : Int) := by
      have hlt := lt_ten_zpow_width (num / den)
      rw [zpow_natCast] at hlt ⊢
      exact_mod_cast hlt
    refine ⟨hlower.trans Nat.cast_div_le, ?_⟩
    rw [sub_add_cancel]
    exact hupper.trans_le hdigits
  · next hlt =>
    -- the quotient is the inverse of a number whose digits are counted
    generalize hn : (den - 1) / num = n
    have hn0 : n ≠ 0 := by
      rw [← hn]
      exact (Nat.div_pos (by omega) hnum).ne'
    have hbelow : num * n < den := by
      have hle := Nat.mul_div_le (den - 1) num
      rw [hn] at hle
      omega
    have habove : den ≤ num * (n + 1) := by
      have hle := Nat.lt_mul_div_succ (den - 1) hnum
      rw [hn] at hle
      omega
    have hupper : (n : ℚ) + 1 ≤ 10 ^ (width n : Int) := by
      have hlt := lt_ten_zpow_width n
      rw [zpow_natCast] at hlt ⊢
      exact_mod_cast hlt
    have hlower := ten_zpow_width_le hn0
    constructor
    · rw [le_div_iff₀ hdenCast, zpow_neg, inv_mul_le_iff₀ (ten_zpow_pos _)]
      calc (den : ℚ) ≤ num * (n + 1) := by exact_mod_cast habove
        _ ≤ num * 10 ^ (width n : Int) := mul_le_mul_of_nonneg_left hupper hnumCast.le
        _ = 10 ^ (width n : Int) * num := mul_comm _ _
    · have hexponent : -(width n : Int) + 1 = -((width n : Int) - 1) := by omega
      rw [hexponent, div_lt_iff₀ hdenCast, zpow_neg, lt_inv_mul_iff₀ (ten_zpow_pos _)]
      calc (10 : ℚ) ^ ((width n : Int) - 1) * num ≤ n * num :=
            mul_le_mul_of_nonneg_right hlower hnumCast.le
        _ = num * n := mul_comm _ _
        _ < den := by exact_mod_cast hbelow

end Decimal

/-- One has a positive number of units. -/
theorem BinaryFormat.cast_one_pos (f : BinaryFormat) : (0 : ℚ) < f.one := by
  exact_mod_cast f.one_pos

namespace Binary

variable {f : BinaryFormat} {x : Binary f}

/-- What is not more than a number and does not round to it is not more than the midpoint below it. -/
theorem le_midpoint_of_not_roundsTo {units : ℚ} (hle : units ≤ x.units)
    (h : ¬f.RoundsTo x.code units) :
    2 * units ≤ f.magnitude (x.code - 1) + f.magnitude x.code := by
  have hself : (x.units : ℚ) = f.magnitude x.code := rfl
  have hsucc : (f.magnitude x.code : ℚ) < f.magnitude (x.code + 1) := by
    exact_mod_cast f.strictMono_magnitude (Nat.lt_succ_self x.code)
  refine le_of_not_gt fun hlt => h ?_
  exact ⟨hlt.le, by linarith, fun _ => ⟨hlt, by linarith⟩⟩

/-- What does not round to a code from above is beyond its upper midpoint. -/
theorem midpoint_le_of_not_roundsTo {units : ℚ} (hx : 0 < x.code) (hle : x.units ≤ units)
    (h : ¬f.RoundsTo x.code units) :
    f.magnitude x.code + f.magnitude (x.code + 1) ≤ 2 * units := by
  have hself : (x.units : ℚ) = f.magnitude x.code := rfl
  have hpred : (f.magnitude (x.code - 1) : ℚ) < f.magnitude x.code := by
    exact_mod_cast f.strictMono_magnitude (Nat.sub_lt hx Nat.one_pos)
  refine le_of_not_gt fun hlt => h ?_
  exact ⟨by linarith, hlt.le, fun _ => ⟨by linarith, hlt⟩⟩

/-- The points of a grid around a number. -/
theorem grid_bounds (x : Binary f) (q : Int) :
    (⟨x.units * Nat.pow 10 (-q).toNat / (f.one * Nat.pow 10 q.toNat), q⟩ : Decimal).value * f.one ≤
        x.units ∧
      (x.units : ℚ) <
        (⟨x.units * Nat.pow 10 (-q).toNat / (f.one * Nat.pow 10 q.toNat) + 1, q⟩ : Decimal).value *
          f.one := by
  have hden : (0 : ℚ) < (10 ^ (-q).toNat : Nat) := by
    exact_mod_cast Nat.pow_pos (by decide)
  have hstep : 0 < f.one * 10 ^ q.toNat := Nat.mul_pos f.one_pos (Nat.pow_pos (by decide))
  have hbelow := Nat.div_mul_le_self (x.units * 10 ^ (-q).toNat) (f.one * 10 ^ q.toNat)
  have habove := Nat.lt_div_mul_add (a := x.units * 10 ^ (-q).toNat) hstep
  simp only [Nat.pow_eq, Decimal.value_mul_eq_div]
  generalize x.units * 10 ^ (-q).toNat / (f.one * 10 ^ q.toNat) = below at hbelow habove ⊢
  constructor
  · rw [div_le_iff₀ hden]
    calc ((below * 10 ^ q.toNat * f.one : Nat) : ℚ) = (below * (f.one * 10 ^ q.toNat) : Nat) := by
          push_cast
          ring
      _ ≤ (x.units * 10 ^ (-q).toNat : Nat) := by exact_mod_cast hbelow
      _ = x.units * (10 ^ (-q).toNat : Nat) := by push_cast; rfl
  · rw [lt_div_iff₀ hden]
    calc (x.units * (10 ^ (-q).toNat : Nat) : ℚ) = (x.units * 10 ^ (-q).toNat : Nat) := by
          push_cast
          rfl
      _ < (below * (f.one * 10 ^ q.toNat) + f.one * 10 ^ q.toNat : Nat) := by exact_mod_cast habove
      _ = (((below + 1) * 10 ^ q.toNat * f.one : Nat) : ℚ) := by
          push_cast
          ring

/-- A grid whose steps are smaller than the distance between the midpoints around a number has a point
that rounds to it. -/
theorem isSome_onGrid? (tie : TieRule) (hx : 0 < x.code) {q : Int}
    (hq : 2 * ((10 : ℚ) ^ q * f.one) < f.magnitude (x.code + 1) - f.magnitude (x.code - 1)) :
    (x.onGrid? tie q).isSome = true := by
  obtain ⟨hbelow, habove⟩ := x.grid_bounds q
  have hone : (⟨x.units * Nat.pow 10 (-q).toNat / (f.one * Nat.pow 10 q.toNat) + 1, q⟩ :
      Decimal).value * f.one =
      (⟨x.units * Nat.pow 10 (-q).toNat / (f.one * Nat.pow 10 q.toNat), q⟩ : Decimal).value * f.one +
        10 ^ q * f.one := by
    simp only [Decimal.value]
    push_cast
    ring
  simp only [onGrid?]
  generalize x.units * Nat.pow 10 (-q).toNat / (f.one * Nat.pow 10 q.toNat) = below at *
  split
  · rfl
  · rfl
  · rfl
  · next hmissed hmissed' =>
    -- the two midpoints would be no farther apart than the two points of the grid
    rw [Bool.eq_false_iff, ne_eq, covers_grid_iff] at hmissed hmissed'
    have hlower := le_midpoint_of_not_roundsTo hbelow hmissed
    have hupper := midpoint_le_of_not_roundsTo hx habove.le hmissed'
    rw [hone] at hupper
    linarith

/-- Steps that are as small in proportion to a number as those of the significands are small enough. -/
theorem two_mul_step_lt_of_units (hx : 0 < x.code) {step : ℚ}
    (hstep : 2 * f.fractionCount * step ≤ x.units) :
    2 * step < f.magnitude (x.code + 1) - f.magnitude (x.code - 1) := by
  have hgap : (f.magnitude x.code + f.fractionCount * f.magnitude (x.code - 1) : ℚ) <
      f.fractionCount * f.magnitude (x.code + 1) := by
    exact_mod_cast BinaryFormat.magnitude_gap hx
  have hcount : (0 : ℚ) < f.fractionCount := by exact_mod_cast f.fractionCount_pos
  have hself : (x.units : ℚ) = f.magnitude x.code := rfl
  refine lt_of_mul_lt_mul_left ?_ hcount.le
  linarith

/-- Steps of less than a unit are small enough for all numbers. -/
theorem two_mul_step_lt_of_lt_one (hx : 0 < x.code) {step : ℚ} (hstep : step < 1) :
    2 * step < f.magnitude (x.code + 1) - f.magnitude (x.code - 1) := by
  have hpred : f.magnitude (x.code - 1) < f.magnitude x.code :=
    f.strictMono_magnitude (Nat.sub_lt hx Nat.one_pos)
  have hsucc : f.magnitude x.code < f.magnitude (x.code + 1) :=
    f.strictMono_magnitude (Nat.lt_succ_self x.code)
  have hgap : (f.magnitude (x.code - 1) + 2 : ℚ) ≤ f.magnitude (x.code + 1) := by
    exact_mod_cast (show f.magnitude (x.code - 1) + 2 ≤ f.magnitude (x.code + 1) by omega)
  linarith

/-- What is found on a grid is one of the two points around the number. -/
theorem of_onGrid?_eq_some {tie : TieRule} {q : Int} {d : Decimal} (h : x.onGrid? tie q = some d) :
    d = ⟨x.units * Nat.pow 10 (-q).toNat / (f.one * Nat.pow 10 q.toNat), q⟩ ∨
      d = ⟨x.units * Nat.pow 10 (-q).toNat / (f.one * Nat.pow 10 q.toNat) + 1, q⟩ := by
  simp only [onGrid?] at h
  split at h
  · obtain rfl := Option.some.inj h
    split
    · exact .inl rfl
    · exact .inr rfl
  · exact .inl (Option.some.inj h).symm
  · exact .inr (Option.some.inj h).symm
  · cases h

/-- What is found on a grid is no farther away from the number than a step. -/
theorem distance_of_onGrid? {tie : TieRule} {q : Int} {d : Decimal} (h : x.onGrid? tie q = some d) :
    |d.value * f.one - x.units| ≤ 10 ^ d.exponent * f.one := by
  obtain ⟨hbelow, habove⟩ := x.grid_bounds q
  have hfound := of_onGrid?_eq_some h
  generalize x.units * Nat.pow 10 (-q).toNat / (f.one * Nat.pow 10 q.toNat) = below at hbelow habove hfound
  have hnext : (⟨below + 1, q⟩ : Decimal).value * f.one =
      (⟨below, q⟩ : Decimal).value * f.one + 10 ^ q * f.one := by
    simp only [Decimal.value]
    push_cast
    ring
  rw [abs_le]
  rcases hfound with rfl | rfl <;> constructor <;> linarith

/-- The shortest decimal of a number is no farther away from it than a step of the decimal's grid. -/
theorem distance_shortest (tie : TieRule) (x : Binary f) :
    |(x.shortest tie).value * f.one - x.units| ≤ 10 ^ (x.shortest tie).exponent * f.one := by
  simp only [shortest]
  cases hfound : (List.range f.precision).findSome? fun (digit : Nat) =>
      x.onGrid? tie (Decimal.leadingExponent x.units f.one - digit) with
  | none =>
    rw [Option.getD_none, value_exactDecimal, sub_self, abs_zero]
    exact mul_nonneg (Decimal.ten_zpow_pos _).le f.cast_one_pos.le
  | some d =>
    obtain ⟨digit, -, hgrid⟩ := List.exists_of_findSome?_eq_some hfound
    exact distance_of_onGrid? hgrid

/-- The points of a grid around a number have no more digits than lie between the first digit of the
number and the grid. -/
theorem below_succ_le {digit : Nat} {top : Int} (h : (x.units / f.one : ℚ) < 10 ^ (top + 1)) :
    x.units * Nat.pow 10 (-(top - digit)).toNat / (f.one * Nat.pow 10 (top - digit).toNat) + 1 ≤
      10 ^ (digit + 1) := by
  obtain ⟨hbelow, -⟩ := x.grid_bounds (top - digit)
  generalize x.units * Nat.pow 10 (-(top - digit)).toNat / (f.one * Nat.pow 10 (top - digit).toNat) =
    below at hbelow ⊢
  have hone := f.cast_one_pos
  rw [div_lt_iff₀ hone] at h
  have hgrid := Decimal.ten_zpow_pos (top - digit)
  have hsplit : (10 : ℚ) ^ (top + 1) = 10 ^ (digit + 1) * 10 ^ (top - digit) := by
    rw [← zpow_natCast, ← zpow_add₀ (by norm_num)]
    congr 1
    push_cast
    ring
  have hscaled : (below : ℚ) * (10 ^ (top - digit) * f.one) <
      10 ^ (digit + 1) * (10 ^ (top - digit) * f.one) := by
    calc (below : ℚ) * (10 ^ (top - digit) * f.one) = (⟨below, top - digit⟩ : Decimal).value * f.one := by
          rw [Decimal.value]
          ring
      _ ≤ x.units := hbelow
      _ < 10 ^ (top + 1) * f.one := h
      _ = 10 ^ (digit + 1) * (10 ^ (top - digit) * f.one) := by
          rw [hsplit]
          ring
  have hlt := lt_of_mul_lt_mul_right hscaled (mul_pos hgrid hone).le
  exact_mod_cast hlt

/-- If a grid has a point that rounds to the number, then the shortest decimal is on it or on a coarser
one. -/
theorem exists_onGrid?_shortest (tie : TieRule) {n : Nat} (hprecision : n < f.precision)
    (h : (x.onGrid? tie (Decimal.leadingExponent x.units f.one - n)).isSome = true) :
    ∃ digit ≤ n, x.onGrid? tie (Decimal.leadingExponent x.units f.one - digit) =
      some (x.shortest tie) := by
  simp only [shortest]
  generalize Decimal.leadingExponent x.units f.one = top at h ⊢
  have hsome : ((List.range (n + 1)).findSome? fun (digit : Nat) =>
      x.onGrid? tie (top - digit)).isSome = true :=
    List.findSome?_isSome_iff.mpr ⟨n, List.mem_range.mpr (Nat.lt_succ_self n), h⟩
  obtain ⟨d, hd⟩ := Option.isSome_iff_exists.mp hsome
  obtain ⟨rest, hrest⟩ : ∃ rest, f.precision = n + 1 + rest := ⟨f.precision - (n + 1), by omega⟩
  rw [hrest, List.range_add, List.findSome?_append, hd, Option.some_or, Option.getD_some]
  obtain ⟨digit, hdigit, hfound⟩ := List.exists_of_findSome?_eq_some hd
  exact ⟨digit, Nat.le_of_lt_succ (List.mem_range.mp hdigit), hfound⟩

/-- The shortest decimal has no more digits than it takes to count further than the significands. -/
theorem shortest_digits (tie : TieRule) (hx : x.IsRegular) {n : Nat}
    (hn : 2 * f.fractionCount ≤ 10 ^ n) (hprecision : n < f.precision) :
    (x.shortest tie).coefficient ≤ 10 ^ (n + 1) ∧
      Decimal.leadingExponent x.units f.one - n ≤ (x.shortest tie).exponent := by
  have hone := f.cast_one_pos
  have hunits : 0 < x.units := BinaryFormat.magnitude_pos hx.1
  obtain ⟨hlower, hupper⟩ := Decimal.leadingExponent_spec hunits f.one_pos
  have hgrid : 2 * f.fractionCount *
      ((10 : ℚ) ^ (Decimal.leadingExponent x.units f.one - n) * f.one) ≤ x.units := by
    have hcount : (2 * f.fractionCount : ℚ) ≤ 10 ^ n := by exact_mod_cast hn
    generalize Decimal.leadingExponent x.units f.one = top at hlower ⊢
    rw [le_div_iff₀ hone] at hlower
    calc 2 * f.fractionCount * ((10 : ℚ) ^ (top - n) * f.one)
        ≤ 10 ^ n * (10 ^ (top - n) * f.one) :=
          mul_le_mul_of_nonneg_right hcount
            (mul_pos (Decimal.ten_zpow_pos _) hone).le
      _ = 10 ^ top * f.one := by
          rw [← mul_assoc, ← zpow_natCast, ← zpow_add₀ (by norm_num), add_sub_cancel]
      _ ≤ x.units := hlower
  obtain ⟨digit, hle, hfound⟩ := exists_onGrid?_shortest tie hprecision
    (isSome_onGrid? tie hx.1 (two_mul_step_lt_of_units hx.1 hgrid))
  generalize x.shortest tie = d at hfound ⊢
  generalize Decimal.leadingExponent x.units f.one = top at hupper hfound ⊢
  obtain ⟨hcoefficient, hexponent⟩ : d.coefficient ≤ x.units * Nat.pow 10 (-(top - digit)).toNat /
      (f.one * Nat.pow 10 (top - digit).toNat) + 1 ∧ d.exponent = top - digit := by
    rcases of_onGrid?_eq_some hfound with rfl | rfl
    · exact ⟨Nat.le_succ _, rfl⟩
    · exact ⟨le_rfl, rfl⟩
  refine ⟨?_, by omega⟩
  calc d.coefficient ≤ 10 ^ (digit + 1) := hcoefficient.trans (below_succ_le hupper)
    _ ≤ 10 ^ (n + 1) := Nat.pow_le_pow_right (by decide) (by omega)

/-- The digits of a shortest decimal do not reach behind a place that is less than a unit. -/
theorem le_exponent_shortest (tie : TieRule) (hx : x.IsRegular) {n k : Nat}
    (hn : 2 * f.fractionCount ≤ 10 ^ n) (hprecision : n < f.precision) (hk : f.one < 10 ^ k) :
    -(k : Int) ≤ (x.shortest tie).exponent := by
  have hone := f.cast_one_pos
  have hten : (0 : ℚ) < 10 ^ k := by positivity
  have hstep : (10 : ℚ) ^ (-(k : Int)) * f.one < 1 := by
    have hcast : (f.one : ℚ) < 10 ^ k := by exact_mod_cast hk
    rw [zpow_neg, zpow_natCast, inv_mul_lt_iff₀ hten, mul_one]
    exact hcast
  have hunits : 0 < x.units := BinaryFormat.magnitude_pos hx.1
  obtain ⟨-, hupper⟩ := Decimal.leadingExponent_spec hunits f.one_pos
  obtain ⟨-, hdigits⟩ := shortest_digits tie hx hn hprecision
  -- the number itself is not less than a unit
  have htop : -(k : Int) ≤ Decimal.leadingExponent x.units f.one := by
    refine le_of_not_gt fun hlt => ?_
    have hunit : (1 : ℚ) ≤ x.units := by exact_mod_cast hunits
    rw [div_lt_iff₀ hone] at hupper
    have hsmall := mul_le_mul_of_nonneg_right (Decimal.ten_zpow_le (show _ ≤ -(k : Int) from hlt)) hone.le
    linarith
  by_cases hfew : -(k : Int) ≤ Decimal.leadingExponent x.units f.one - n
  · exact hfew.trans hdigits
  obtain ⟨places, hplaces⟩ : ∃ places : Nat, Decimal.leadingExponent x.units f.one - places = -(k : Int) :=
    ⟨(Decimal.leadingExponent x.units f.one + k).toNat, by omega⟩
  obtain ⟨digit, hle, hfound⟩ := exists_onGrid?_shortest tie (n := places) (by omega)
    (isSome_onGrid? tie hx.1 (two_mul_step_lt_of_lt_one hx.1 (by rwa [hplaces])))
  have hexponent : (x.shortest tie).exponent = Decimal.leadingExponent x.units f.one - digit := by
    rcases of_onGrid?_eq_some hfound with heq | heq <;> rw [heq]
  omega

end Binary

end RecordCoercion
