import RecordCoercion.Proofs.Json.FastDoubles
import RecordCoercion.Proofs.Numeric.RoundingError

/-!
# The error of the fast rule

The digits of a decimal and the power of ten are rounded before they are multiplied or divided. Each of
the two that is no double makes the result one factor of `BinaryFormat.shrink` further away from the
decimal (`Json.fastDouble?_within`).
-/

set_option autoImplicit false

namespace RecordCoercion

namespace Binary

variable {f : BinaryFormat}

/-- A product has the sign of its first factor. -/
theorem negative_scaleUp (x y : Binary f) : (x.scaleUp y).negative = x.negative := rfl

/-- A quotient has the sign of its dividend. -/
theorem negative_scaleDown (x y : Binary f) : (x.scaleDown y).negative = x.negative := rfl

end Binary

namespace Json

open BinaryFormat

variable {x z : Binary binary64} {a : ℚ} {m n : Nat}

/-! ## The two factors -/

/-- A power of ten in the table is one rounding away from the power. -/
theorem powerOfTen_within {k : Nat} (hk : k ≤ 308) :
    binary64.Within 1 ((powerOfTen k).units / binary64.one) (10 ^ k) := by
  obtain ⟨-, hnormal, hrounds⟩ := powerOfTen_spec hk
  have hone := binary64.cast_one_pos
  have hwithin : binary64.Within 1 (powerOfTen k).units (10 ^ k * binary64.one) := hrounds.within hnormal
  have hexact : (0 : ℚ) ≤ 10 ^ k * binary64.one := mul_nonneg (by positivity) hone.le
  have hdiv := hwithin.div (Within.refl (binary64.one : ℚ)) (Nat.cast_nonneg _) hexact hone hone
  rwa [mul_div_cancel_right₀ _ hone.ne'] at hdiv

/-- The powers of ten that are doubles are not rounded. -/
theorem powerOfTen_within_of_exact {k : Nat} (hk : k ≤ 22) :
    binary64.Within 0 ((powerOfTen k).units / binary64.one) (10 ^ k) := by
  rw [units_powerOfTen k hk, Nat.cast_mul, Nat.cast_pow, Nat.cast_ofNat,
    mul_div_cancel_right₀ _ binary64.cast_one_pos.ne']
  exact Within.refl _

/-- The double of a significand is one rounding away from it. -/
theorem significand_within {k digits : Nat} (hpos : 0 < k) (hk : k ≤ 10 ^ digits)
    (hdigits : digits ≤ 308) :
    binary64.Within 1 (Binary.ofInt binary64 k).units (k * binary64.one) := by
  obtain ⟨-, -, hnormal, hrounds⟩ := Binary.ofInt_spec hpos (two_mul_lt hk hdigits)
  exact hrounds.within hnormal

/-- A significand of up to 53 bits is not rounded. -/
theorem significand_within_of_exact {k : Nat} (hk : k ≤ 2 ^ 53) :
    binary64.Within 0 (Binary.ofInt binary64 k).units (k * binary64.one) := by
  rw [units_significand hk, Nat.cast_mul]
  exact Within.refl _

/-! ## Their product or quotient -/

/-- What a number is rounded to that is multiplied by a power of ten. -/
theorem exists_within_scaleUp (hx : binary64.Within n x.units a) (ha : 0 ≤ a) {k : Nat}
    (hpower : binary64.Within m ((powerOfTen k).units / binary64.one) (10 ^ k))
    (hfinite : (x.scaleUp (powerOfTen k)).isFinite = true) :
    ∃ q, binary64.RoundsTo (x.scaleUp (powerOfTen k)).code q ∧
      binary64.Within (n + m) q (a * 10 ^ k) := by
  have hone := binary64.one_pos
  have hrounds := roundsTo_nearestCode (Nat.mul_pos hone hone) (of_decide_eq_true hfinite)
  refine ⟨_, hrounds, ?_⟩
  have hquotient : ((x.units * (powerOfTen k).units * binary64.one : Nat) : ℚ) /
      ((binary64.one * binary64.one : Nat) : ℚ) = x.units * ((powerOfTen k).units / binary64.one) := by
    have hone := binary64.cast_one_pos
    push_cast
    field_simp
  rw [hquotient]
  exact hx.mul hpower (Nat.cast_nonneg _) ha
    (div_nonneg (Nat.cast_nonneg _) (Nat.cast_nonneg _)) (by positivity)

/-- What a number is rounded to that is divided by a power of ten. -/
theorem exists_within_scaleDown (hx : binary64.Within n x.units a) (ha : 0 ≤ a) {k : Nat}
    (hk : k ≤ 308) (hpower : binary64.Within m ((powerOfTen k).units / binary64.one) (10 ^ k))
    (hfinite : (x.scaleDown (powerOfTen k)).isFinite = true) :
    ∃ q, binary64.RoundsTo (x.scaleDown (powerOfTen k)).code q ∧
      binary64.Within (n + m) q (a / 10 ^ k) := by
  have hone := binary64.cast_one_pos
  have hpositive : 0 < (powerOfTen k).units := binary64.one_pos.trans_le (powerOfTen_spec hk).1
  have hpositiveCast : (0 : ℚ) < (powerOfTen k).units := by exact_mod_cast hpositive
  have hrounds := roundsTo_nearestCode hpositive (of_decide_eq_true hfinite)
  refine ⟨_, hrounds, ?_⟩
  have hquotient : ((x.units * binary64.one : Nat) : ℚ) / ((powerOfTen k).units : ℚ) =
      x.units / ((powerOfTen k).units / binary64.one) := by
    push_cast
    field_simp
  rw [hquotient]
  exact hx.div hpower (Nat.cast_nonneg _) ha (div_pos hpositiveCast hone) (by positivity)

/-- The one step in which a power of ten is applied. -/
theorem of_timesPowerOfTen?_eq_some {exponent : Int} (hlow : -308 ≤ exponent) (hhigh : exponent ≤ 308)
    (h : timesPowerOfTen? x exponent = some z) :
    z = (if 0 ≤ exponent then x.scaleUp (powerOfTen exponent.toNat)
      else x.scaleDown (powerOfTen (-exponent).toNat)) ∧ z.isFinite = true := by
  rw [timesPowerOfTen?, dif_neg (by omega), if_neg (by omega)] at h
  have hle : ∀ {k : Nat}, (x.scaleUp (powerOfTen k)).code ≤ binary64.infinityCode ∧
      (x.scaleDown (powerOfTen k)).code ≤ binary64.infinityCode :=
    ⟨nearestCode_le_infinityCode _ _ _, nearestCode_le_infinityCode _ _ _⟩
  dsimp only at h
  generalize hscaled : (if 0 ≤ exponent then x.scaleUp (powerOfTen exponent.toNat)
    else x.scaleDown (powerOfTen (-exponent).toNat)) = scaled at h ⊢
  have hcode : scaled.code ≤ binary64.infinityCode := by
    rw [← hscaled]
    split
    · exact hle.1
    · exact hle.2
  by_cases hinfinite : scaled.isInfinite = true
  · rw [if_pos hinfinite] at h
    cases h
  · rw [if_neg hinfinite] at h
    obtain rfl := Option.some.inj h
    exact ⟨rfl, decide_eq_true (lt_of_le_of_ne hcode fun heq => hinfinite (decide_eq_true heq))⟩

/-- What a number is rounded to that is scaled by a power of ten in one step. -/
theorem exists_within_of_timesPowerOfTen? {exponent : Int} (hx : binary64.Within n x.units a)
    (ha : 0 ≤ a) (hlow : -308 ≤ exponent) (hhigh : exponent ≤ 308)
    (hpower : binary64.Within m ((powerOfTen exponent.natAbs).units / binary64.one)
      (10 ^ exponent.natAbs))
    (h : timesPowerOfTen? x exponent = some z) :
    z.isFinite = true ∧ z.negative = x.negative ∧
      ∃ q, binary64.RoundsTo z.code q ∧ binary64.Within (n + m) q (a * 10 ^ exponent) := by
  obtain ⟨rfl, hfinite⟩ := of_timesPowerOfTen?_eq_some hlow hhigh h
  refine ⟨hfinite, ?_, ?_⟩
  · split
    · exact x.negative_scaleUp _
    · exact x.negative_scaleDown _
  split
  · next hexponent =>
    obtain ⟨k, rfl⟩ : ∃ k : Nat, exponent = k := ⟨exponent.toNat, by omega⟩
    rw [if_pos hexponent, Int.toNat_natCast] at hfinite
    rw [Int.toNat_natCast, zpow_natCast]
    exact exists_within_scaleUp hx ha hpower hfinite
  · next hexponent =>
    obtain ⟨k, rfl⟩ : ∃ k : Nat, exponent = -k := ⟨(-exponent).toNat, by omega⟩
    rw [if_neg hexponent, neg_neg, Int.toNat_natCast] at hfinite
    rw [Int.natAbs_neg, Int.natAbs_natCast] at hpower
    rw [neg_neg, Int.toNat_natCast, zpow_neg, zpow_natCast, ← div_eq_mul_inv]
    exact exists_within_scaleDown hx ha (by omega) hpower hfinite

/-- A decimal is as many factors away from what its double is the rounding of as its digits and its power
of ten are away from their doubles. -/
theorem fastDouble?_within {negative : Bool} {d : Decimal} {digits : Nat} (hpos : 0 < d.coefficient)
    (hlength : d.coefficient ≤ 10 ^ digits) (hdigits : digits ≤ 308) (hlow : -308 ≤ d.exponent)
    (hsignificand : binary64.Within n (Binary.ofInt binary64 d.coefficient).units
      (d.coefficient * binary64.one))
    (hpower : d.exponent.natAbs ≤ 308 →
      binary64.Within m ((powerOfTen d.exponent.natAbs).units / binary64.one) (10 ^ d.exponent.natAbs))
    (h : fastDouble? negative d = some z) :
    z.isFinite = true ∧ z.negative = negative ∧
      ∃ q, binary64.RoundsTo z.code q ∧ binary64.Within (n + m) q (d.value * binary64.one) := by
  obtain ⟨-, -, hnormal, -⟩ := Binary.ofInt_spec hpos (two_mul_lt hlength hdigits)
  rw [fastDouble?, Option.map_eq_some_iff] at h
  obtain ⟨scaled, hscaled, rfl⟩ := h
  have hhigh : d.exponent ≤ 308 := by
    refine le_of_not_gt fun hlarge => ?_
    rw [timesPowerOfTen?, dif_neg (by omega), if_pos hlarge,
      if_neg (Binary.not_isZero (binary64.fractionCount_pos.trans_le hnormal))] at hscaled
    cases hscaled
  have hdigits : (0 : ℚ) ≤ d.coefficient * binary64.one :=
    mul_nonneg (Nat.cast_nonneg _) (Nat.cast_nonneg _)
  obtain ⟨hfinite, hsign, q, hq, hclose⟩ :=
    exists_within_of_timesPowerOfTen? hsignificand hdigits hlow hhigh (hpower (by omega)) hscaled
  have hvalue : (d.coefficient * binary64.one * 10 ^ d.exponent : ℚ) = d.value * binary64.one := by
    rw [Decimal.value]
    ring
  rw [hvalue] at hclose
  have hsign : scaled.negative = false := hsign
  cases negative
  · exact ⟨hfinite, hsign, q, hq, hclose⟩
  · exact ⟨hfinite, congrArg not hsign, q, hq, hclose⟩

end Json

end RecordCoercion
