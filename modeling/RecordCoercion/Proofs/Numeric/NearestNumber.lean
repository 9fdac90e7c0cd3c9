import Mathlib.Algebra.Order.Field.Basic
import RecordCoercion.Proofs.Numeric.Rounded

/-!
# The number nearest to a rational

`Binary.value` is the rational that a number stands for, and `Binary.IsNearest` says what it is to be
correctly rounded without reference to codes: no finite number is nearer, an even one is taken from two at
the same distance, and what reaches `BinaryFormat.overflow` becomes infinite. The number of the code to which
a quotient is rounded is nearest to it, and it is the only one of its sign (`Binary.isNearest_iff`).
-/

set_option autoImplicit false

namespace RecordCoercion

/-- The rational of a sign and a magnitude. -/
def signed (negative : Bool) (q : ℚ) : ℚ := if negative then -q else q

/-- A magnitude behind a minus sign. -/
@[simp] theorem signed_true (q : ℚ) : signed true q = -q := rfl

/-- A magnitude without a minus sign. -/
@[simp] theorem signed_false (q : ℚ) : signed false q = q := rfl

/-- A sign does not change the magnitude. -/
theorem abs_signed (negative : Bool) {q : ℚ} (hq : 0 ≤ q) : |signed negative q| = q := by
  cases negative
  · exact abs_of_nonneg hq
  · rw [signed_true, abs_neg, abs_of_nonneg hq]

/-- Numbers of the same sign are as far apart as their magnitudes. -/
theorem abs_signed_sub (negative : Bool) (p q : ℚ) :
    |signed negative p - signed negative q| = |p - q| := by
  cases negative
  · rfl
  · rw [signed_true, signed_true, neg_sub_neg, abs_sub_comm]

/-- The sign of a number that is not zero can be seen from it. -/
theorem decide_signed_lt_zero (negative : Bool) {q : ℚ} (hq : 0 < q) :
    decide (signed negative q < 0) = negative := by
  cases negative
  · exact decide_eq_false (not_lt.mpr hq.le)
  · exact decide_eq_true (neg_lt_zero.mpr hq)

/-- A number is its magnitude with its sign. -/
theorem signed_abs (q : ℚ) : signed (decide (q < 0)) |q| = q := by
  by_cases h : q < 0
  · rw [decide_eq_true h, signed_true, abs_of_neg h, neg_neg]
  · rw [decide_eq_false h, signed_false, abs_of_nonneg (not_lt.mp h)]

/-- A magnitude as a quotient of natural numbers. -/
theorem abs_eq_div (q : ℚ) : |q| = q.num.natAbs / q.den := by
  rw [Nat.cast_natAbs, Int.cast_abs]
  conv_lhs => rw [← Rat.num_div_den q]
  rw [abs_div, Nat.abs_cast]

/-- The smaller of two numbers is the nearer one up to their midpoint. -/
theorem abs_sub_le_iff_le_midpoint {a b u : ℚ} (h : a < b) :
    |a - u| ≤ |b - u| ↔ 2 * u ≤ a + b := by
  rw [← sq_le_sq, ← sub_nonneg]
  have hproduct : (b - u) ^ 2 - (a - u) ^ 2 = (b - a) * (a + b - 2 * u) := by ring
  rw [hproduct, mul_nonneg_iff_of_pos_left (sub_pos.mpr h), sub_nonneg]

/-- The larger of two numbers is the nearer one from their midpoint on. -/
theorem abs_sub_le_iff_midpoint_le {a b u : ℚ} (h : a < b) :
    |b - u| ≤ |a - u| ↔ a + b ≤ 2 * u := by
  rw [← sq_le_sq, ← sub_nonneg]
  have hproduct : (a - u) ^ 2 - (b - u) ^ 2 = (b - a) * (2 * u - (a + b)) := by ring
  rw [hproduct, mul_nonneg_iff_of_pos_left (sub_pos.mpr h), sub_nonneg]

namespace BinaryFormat

variable {f : BinaryFormat}

/-! ## The nearest code -/

/-- A number of units rounds to one code only. -/
theorem RoundsTo.unique {code code' : Nat} {units : ℚ} (h : f.RoundsTo code units)
    (h' : f.RoundsTo code' units) : code = code' := by
  rcases Nat.lt_trichotomy code code' with hlt | heq | hlt
  · exact absurd (h.lt h' hlt) (lt_irrefl units)
  · exact heq
  · exact absurd (h'.lt h hlt) (lt_irrefl units)

/-- The code of a larger quotient is not smaller. -/
theorem nearestCode_mono {num num' den den' : Nat} (hden : 0 < den) (hden' : 0 < den')
    (h : (num / den : ℚ) ≤ num' / den') : f.nearestCode num den ≤ f.nearestCode num' den' := by
  obtain ⟨code, hcode, hrounds⟩ := f.exists_roundsTo num hden
  obtain ⟨code', hcode', hrounds'⟩ := f.exists_roundsTo num' hden'
  rw [hcode, hcode']
  refine min_le_min_left _ (not_lt.mp fun hlt => ?_)
  exact absurd h (not_le.mpr (hrounds'.lt hrounds hlt))

/-- Larger codes stand for larger rationals. -/
theorem cast_magnitude_lt {code code' : Nat} (h : code < code') :
    (f.magnitude code : ℚ) < f.magnitude code' := by
  exact_mod_cast f.strictMono_magnitude h

/-- Codes that are not smaller stand for rationals that are not. -/
theorem cast_magnitude_le {code code' : Nat} (h : code ≤ code') :
    (f.magnitude code : ℚ) ≤ f.magnitude code' := by
  exact_mod_cast f.strictMono_magnitude.monotone h

/-- No magnitude is nearer than that of the code to which a number of units rounds. -/
theorem RoundsTo.abs_sub_le {code : Nat} {units : ℚ} (h : f.RoundsTo code units) (other : Nat) :
    |f.magnitude code - units| ≤ |f.magnitude other - units| := by
  rcases Nat.lt_trichotomy other code with hlt | rfl | hlt
  · rw [abs_sub_le_iff_midpoint_le (cast_magnitude_lt hlt)]
    have hpred : (f.magnitude other : ℚ) ≤ f.magnitude (code - 1) := cast_magnitude_le (by omega)
    linarith [h.below]
  · exact le_rfl
  · rw [abs_sub_le_iff_le_midpoint (cast_magnitude_lt hlt)]
    have hsucc : (f.magnitude (code + 1) : ℚ) ≤ f.magnitude other := cast_magnitude_le hlt
    linarith [h.above]

/-- An odd code is strictly nearer than the others. -/
theorem RoundsTo.abs_sub_lt {code other : Nat} {units : ℚ} (h : f.RoundsTo code units)
    (hodd : code % 2 = 1) (hne : other ≠ code) :
    |f.magnitude code - units| < |f.magnitude other - units| := by
  obtain ⟨hbelow, habove⟩ := h.odd hodd
  rw [← not_le]
  rcases Nat.lt_or_gt_of_ne hne with hlt | hlt
  · rw [abs_sub_le_iff_le_midpoint (cast_magnitude_lt hlt)]
    have hpred : (f.magnitude other : ℚ) ≤ f.magnitude (code - 1) := cast_magnitude_le (by omega)
    linarith
  · rw [abs_sub_le_iff_midpoint_le (cast_magnitude_lt hlt)]
    have hsucc : (f.magnitude (code + 1) : ℚ) ≤ f.magnitude other := cast_magnitude_le hlt
    linarith

/-! ## Overflow -/

/-- The least magnitude that rounds to infinity, halfway between the largest finite number and the power of
two after it. -/
def overflow (f : BinaryFormat) : ℚ :=
  (2 - 1 / 2 ^ f.precision) * 2 ^ (2 ^ (f.exponentBits - 1) - 1)

/-- The largest finite number is one step below the power of two after it. -/
theorem magnitude_pred_infinityCode (f : BinaryFormat) :
    (f.magnitude (f.infinityCode - 1) : ℚ) =
      f.magnitude f.infinityCode - f.magnitude f.infinityCode / 2 ^ f.precision := by
  have hp := f.two_le_precision
  have hfull : 2 ^ 2 ≤ 2 ^ f.exponentBits :=
    Nat.pow_le_pow_right (by decide) f.two_le_exponentBits
  obtain ⟨shift, hshift⟩ : ∃ shift, 2 ^ f.exponentBits = shift + 3 :=
    ⟨2 ^ f.exponentBits - 3, by omega⟩
  have hsplit : f.Split f.infinityCode (shift + 1) f.fractionCount := by
    refine ⟨?_, by have := f.fractionCount_pos; omega, .inr le_rfl⟩
    rw [infinityCode, Nat.pow_eq, hshift, ← Nat.succ_mul]
    rfl
  have hpred : (f.magnitude (f.infinityCode - 1) + 2 ^ shift : ℚ) =
      2 ^ f.precision * 2 ^ shift := by
    have h := hsplit.magnitude_pred_of_power
    rw [← two_pow_precision] at h
    exact_mod_cast h
  have hself : (f.magnitude f.infinityCode : ℚ) = 2 ^ f.precision * 2 ^ shift := by
    have h := hsplit.magnitude
    rw [Nat.pow_succ', ← Nat.mul_assoc, Nat.mul_comm f.fractionCount, ← two_pow_precision] at h
    exact_mod_cast h
  have hpow : (2 : ℚ) ^ f.precision ≠ 0 := pow_ne_zero _ two_ne_zero
  rw [hself, mul_div_cancel_left₀ _ hpow]
  linarith

/-- The least magnitude that overflows is the midpoint above the largest finite number. -/
theorem two_mul_overflow_mul_one (f : BinaryFormat) :
    2 * (f.overflow * f.one) = f.magnitude (f.infinityCode - 1) + f.magnitude f.infinityCode := by
  have hexponent : 2 ^ (f.exponentBits - 1) - 1 + 1 = 2 ^ (f.exponentBits - 1) :=
    Nat.sub_add_cancel (Nat.one_le_two_pow)
  have hinfinity : (f.magnitude f.infinityCode : ℚ) =
      2 * (2 ^ (2 ^ (f.exponentBits - 1) - 1) * f.one) := by
    rw [magnitude_infinityCode, ← hexponent, one, Nat.pow_eq]
    push_cast
    ring
  rw [magnitude_pred_infinityCode, hinfinity, overflow]
  ring

/-- The least magnitude that overflows is positive. -/
theorem overflow_pos (f : BinaryFormat) : 0 < f.overflow := by
  have hone : (1 : ℚ) / 2 ^ f.precision ≤ 1 := by
    rw [div_le_one₀ (by positivity)]
    exact one_le_pow₀ one_le_two
  exact mul_pos (by linarith) (by positivity)

/-- What rounds to a finite code is less than halfway to infinity. -/
theorem RoundsTo.lt_overflow {code : Nat} {units : ℚ} (h : f.RoundsTo code units)
    (hfinite : code < f.infinityCode) : units < f.overflow * f.one := by
  have hmidpoint := f.two_mul_overflow_mul_one
  by_cases hlast : code + 1 = f.infinityCode
  · -- the largest finite number has an odd code
    have hodd : code % 2 = 1 := by
      have heven : f.infinityCode % 2 = 0 := by
        rw [infinityCode, Nat.mul_mod, f.fractionCount_mod_two, Nat.mul_zero, Nat.zero_mod]
      omega
    have habove := (h.odd hodd).2
    rw [hlast] at habove
    have hcode : code = f.infinityCode - 1 := by omega
    rw [← hcode] at hmidpoint
    linarith
  · have hsucc : (f.magnitude (code + 1) : ℚ) ≤ f.magnitude (f.infinityCode - 1) :=
      cast_magnitude_le (by omega)
    have hless : (f.magnitude code : ℚ) < f.magnitude f.infinityCode := cast_magnitude_lt hfinite
    linarith [h.above]

/-- A quotient is rounded to a finite code just if it is less than halfway to infinity. -/
theorem nearestCode_lt_infinityCode_iff {num den : Nat} (hden : 0 < den) :
    f.nearestCode (num * f.one) den < f.infinityCode ↔ (num / den : ℚ) < f.overflow := by
  have hdenCast : (0 : ℚ) < den := by exact_mod_cast hden
  have hone : (0 : ℚ) < f.one := by exact_mod_cast f.one_pos
  constructor
  · intro hfinite
    have hlt := (roundsTo_nearestCode hden hfinite).lt_overflow hfinite
    rw [Nat.cast_mul, mul_div_right_comm] at hlt
    exact lt_of_mul_lt_mul_right hlt hone.le
  · intro hlt
    rw [div_lt_iff₀ hdenCast] at hlt
    refine nearestCode_lt_infinityCode hden ?_
    have hscaled := mul_lt_mul_of_pos_right hlt hone
    have hmidpoint := f.two_mul_overflow_mul_one
    have hcast : (2 * (num * f.one) : ℚ) <
        (f.magnitude (f.infinityCode - 1) + f.magnitude f.infinityCode) * den := by
      rw [← hmidpoint]
      linarith
    exact_mod_cast hcast

/-- A magnitude rounds to a finite code if no other is nearer, and none as near to an odd one. -/
theorem roundsTo_of_abs_sub_le {code : Nat} {units : ℚ} (hunits : 0 ≤ units)
    (hcode : code < f.infinityCode) (inside : units < f.overflow * f.one)
    (le : ∀ other < f.infinityCode, |f.magnitude code - units| ≤ |f.magnitude other - units|)
    (lt : code % 2 = 1 → ∀ other < f.infinityCode, other ≠ code →
      |f.magnitude code - units| < |f.magnitude other - units|) :
    f.RoundsTo code units := by
  have hlast : ¬ code + 1 < f.infinityCode →
      2 * units < f.magnitude code + f.magnitude (code + 1) := by
    intro hlast
    have hmidpoint := f.two_mul_overflow_mul_one
    obtain hsucc : f.infinityCode = code + 1 := by omega
    rw [hsucc, Nat.add_sub_cancel] at hmidpoint
    linarith
  refine ⟨?_, ?_, fun hodd => ⟨?_, ?_⟩⟩
  · rcases Nat.eq_zero_or_pos code with rfl | hpos
    · simp only [Nat.zero_sub, magnitude_zero, Nat.cast_zero, add_zero]
      linarith
    · exact (abs_sub_le_iff_midpoint_le (cast_magnitude_lt (Nat.sub_lt hpos Nat.one_pos))).mp
        (le _ (by omega))
  · by_cases hsucc : code + 1 < f.infinityCode
    · exact (abs_sub_le_iff_le_midpoint (cast_magnitude_lt (Nat.lt_succ_self _))).mp (le _ hsucc)
    · exact (hlast hsucc).le
  · exact (lt_iff_lt_of_le_iff_le (abs_sub_le_iff_le_midpoint (cast_magnitude_lt (by omega)))).mp
      (lt hodd _ (by omega) (by omega))
  · by_cases hsucc : code + 1 < f.infinityCode
    · exact (lt_iff_lt_of_le_iff_le
        (abs_sub_le_iff_midpoint_le (cast_magnitude_lt (Nat.lt_succ_self _)))).mp
        (lt hodd _ hsucc (by omega))
    · exact hlast hsucc

end BinaryFormat

namespace Binary

open BinaryFormat

variable {f : BinaryFormat} {x : Binary f}

/-! ## The nearest number -/

/-- The rational that a number stands for; infinities continue the magnitudes with a power of two. -/
def value (x : Binary f) : ℚ := signed x.negative (x.units / f.one)

/-- The magnitude of a number is its units. -/
theorem abs_value (x : Binary f) : |x.value| = x.units / f.one :=
  abs_signed _ (div_nonneg (Nat.cast_nonneg _) (Nat.cast_nonneg _))

/-- A number is its magnitude with its sign. -/
theorem value_eq_signed_abs (x : Binary f) : x.value = signed x.negative |x.value| := by
  rw [abs_value]
  rfl

/-- A number is the one to which a rational is correctly rounded. -/
inductive IsNearest (x : Binary f) (q : ℚ) : Prop
  | finite (isFinite : x.isFinite = true) (inside : |q| < f.overflow)
      (le : ∀ y : Binary f, y.isFinite = true → |x.value - q| ≤ |y.value - q|)
      (tie : ∀ y : Binary f, y.isFinite = true → |x.value - q| = |y.value - q| →
        y.code = x.code ∨ x.code % 2 = 0)
  | infinite (outside : f.overflow ≤ |q|) (eq : x = infinity (decide (q < 0)))

/-- The distance of a number from a rational is at least that of their magnitudes. -/
theorem abs_units_sub_le (y : Binary f) {units : ℚ} (hunits : 0 ≤ units) (negative : Bool) :
    |y.units - units| / f.one ≤ |y.value - signed negative (units / f.one)| := by
  have hone : (0 : ℚ) < f.one := by exact_mod_cast f.one_pos
  have h := abs_abs_sub_abs_le y.value (signed negative (units / f.one))
  rw [abs_value, abs_signed _ (div_nonneg hunits hone.le), ← sub_div, abs_div, abs_of_pos hone] at h
  exact h

/-- The distance of a number from a rational of the same sign is that of their magnitudes. -/
theorem abs_value_sub (x : Binary f) (units : ℚ) :
    |x.value - signed x.negative (units / f.one)| = |x.units - units| / f.one := by
  have hone : (0 : ℚ) < f.one := by exact_mod_cast f.one_pos
  rw [value, abs_signed_sub, ← sub_div, abs_div, abs_of_pos hone]

/-- The number of a code to which a magnitude rounds is nearest to it. -/
theorem isNearest_of_roundsTo {units : ℚ} (hunits : 0 ≤ units) (hx : x.isFinite = true)
    (h : f.RoundsTo x.code units) : x.IsNearest (signed x.negative (units / f.one)) := by
  have hone : (0 : ℚ) < f.one := by exact_mod_cast f.one_pos
  refine .finite hx ?_ (fun y _ => ?_) (fun y _ heq => ?_)
  · rw [abs_signed _ (div_nonneg hunits hone.le), div_lt_iff₀ hone]
    exact h.lt_overflow (of_decide_eq_true hx)
  · refine le_trans ?_ (y.abs_units_sub_le hunits x.negative)
    rw [abs_value_sub]
    exact div_le_div_of_nonneg_right (h.abs_sub_le y.code) hone.le
  · rcases Nat.mod_two_eq_zero_or_one x.code with heven | hodd
    · exact .inr heven
    · refine .inl (by_contra fun hne => ?_)
      have hfar := y.abs_units_sub_le hunits x.negative
      rw [← heq, abs_value_sub, div_le_div_iff_of_pos_right hone] at hfar
      exact absurd (h.abs_sub_lt hodd hne) (not_lt.mpr hfar)

/-- A finite number has the code to which a magnitude rounds if it is nearest to it. -/
theorem IsNearest.roundsTo {units : ℚ} (h : x.IsNearest (signed x.negative (units / f.one)))
    (hunits : 0 ≤ units) (hx : x.isFinite = true) : f.RoundsTo x.code units := by
  have hone : (0 : ℚ) < f.one := by exact_mod_cast f.one_pos
  cases h with
  | infinite _ heq =>
    rw [heq] at hx
    simp [isFinite, infinity] at hx
  | finite _ hinside hle htie =>
    rw [abs_signed _ (div_nonneg hunits hone.le), div_lt_iff₀ hone] at hinside
    -- the numbers of the same sign are enough
    have hnumber : ∀ other < f.infinityCode, ∃ y : Binary f, y.isFinite = true ∧ y.code = other ∧
        |y.value - signed x.negative (units / f.one)| = |f.magnitude other - units| / f.one := by
      intro other hother
      exact ⟨⟨x.negative, other, hother.trans f.infinityCode_lt_codeCount⟩, decide_eq_true hother, rfl,
        abs_value_sub _ units⟩
    have le : ∀ other < f.infinityCode,
        |f.magnitude x.code - units| ≤ |f.magnitude other - units| := by
      intro other hother
      obtain ⟨y, hy, -, hdistance⟩ := hnumber other hother
      have h := hle y hy
      rw [abs_value_sub, hdistance, div_le_div_iff_of_pos_right hone] at h
      exact h
    have lt : x.code % 2 = 1 → ∀ other < f.infinityCode, other ≠ x.code →
        |f.magnitude x.code - units| < |f.magnitude other - units| := by
      intro hodd other hother hne
      refine lt_of_le_of_ne (le other hother) fun heq => ?_
      obtain ⟨y, hy, rfl, hdistance⟩ := hnumber other hother
      have h := htie y hy
      rw [abs_value_sub, hdistance] at h
      rcases h (congrArg (· / (f.one : ℚ)) heq) with hsame | heven
      · exact hne hsame
      · omega
    exact roundsTo_of_abs_sub_le hunits (of_decide_eq_true hx) hinside le lt

/-- The nearest number of a sign has the code to which the quotient is rounded. -/
theorem isNearest_iff {num den : Nat} (hden : 0 < den) :
    x.IsNearest (signed x.negative (num / den)) ↔ x.code = f.nearestCode (num * f.one) den := by
  have hone : (0 : ℚ) < f.one := by exact_mod_cast f.one_pos
  have hratio : (0 : ℚ) ≤ num / den := div_nonneg num.cast_nonneg den.cast_nonneg
  have hunits : (0 : ℚ) ≤ (num * f.one : ℕ) / den := div_nonneg (Nat.cast_nonneg _) den.cast_nonneg
  have hq : (num / den : ℚ) = (num * f.one : ℕ) / den / f.one := by
    rw [Nat.cast_mul, mul_div_right_comm, mul_div_cancel_right₀ _ hone.ne']
  have hle := f.nearestCode_le_infinityCode (num * f.one) den
  by_cases hfinite : f.nearestCode (num * f.one) den < f.infinityCode
  · have hrounds := roundsTo_nearestCode hden hfinite
    constructor
    · intro h
      have hx : x.isFinite = true := by
        cases h with
        | finite hx => exact hx
        | infinite houtside =>
          rw [abs_signed _ hratio, ← not_lt, ← nearestCode_lt_infinityCode_iff hden] at houtside
          exact absurd hfinite houtside
      rw [hq] at h
      exact (h.roundsTo hunits hx).unique hrounds
    · intro hcode
      rw [hq]
      rw [← hcode] at hfinite hrounds
      exact isNearest_of_roundsTo hunits (decide_eq_true hfinite) hrounds
  · have houtside : f.overflow ≤ |signed x.negative (num / den)| := by
      rwa [abs_signed _ hratio, ← not_lt, ← nearestCode_lt_infinityCode_iff hden]
    have hinfinite : f.nearestCode (num * f.one) den = f.infinityCode := by omega
    rw [hinfinite]
    constructor
    · rintro (⟨-, hinside⟩ | ⟨-, heq⟩)
      · exact absurd houtside (not_le.mpr hinside)
      · exact congrArg Binary.code heq
    · intro hcode
      refine .infinite houtside ?_
      rw [abs_signed _ hratio] at houtside
      rw [decide_signed_lt_zero _ (f.overflow_pos.trans_le houtside)]
      obtain ⟨negative, code, hlt⟩ := x
      rw [infinity, Binary.mk.injEq]
      exact ⟨rfl, hcode⟩

/-- The nearest number of the sign of a rational has the code to which its magnitude is rounded. -/
theorem isNearest_iff_of_negative {q : ℚ} (hx : x.negative = decide (q < 0)) :
    x.IsNearest q ↔ x.code = f.nearestCode (q.num.natAbs * f.one) q.den := by
  have h : x.IsNearest (signed x.negative (q.num.natAbs / q.den)) ↔ _ := isNearest_iff q.den_pos
  rwa [hx, ← abs_eq_div, signed_abs] at h

section

variable {y : Binary f} {p q : ℚ} (hx : x.IsNearest p) (hp : x.negative = decide (p < 0))
  (hy : y.IsNearest q) (hq : y.negative = decide (q < 0))

include hx hp hy hq

/-- The nearest number does not have a smaller magnitude where the rational does not. -/
theorem abs_value_le (h : |p| ≤ |q|) : |x.value| ≤ |y.value| := by
  rw [isNearest_iff_of_negative hp] at hx
  rw [isNearest_iff_of_negative hq] at hy
  have hcode : x.code ≤ y.code := by
    rw [hx, hy]
    refine nearestCode_mono p.den_pos q.den_pos ?_
    rw [Nat.cast_mul, Nat.cast_mul, mul_div_right_comm, mul_div_right_comm, ← abs_eq_div, ← abs_eq_div]
    exact mul_le_mul_of_nonneg_right h (Nat.cast_nonneg _)
  rw [abs_value, abs_value]
  exact div_le_div_of_nonneg_right (cast_magnitude_le hcode) (Nat.cast_nonneg _)

/-- The nearest number does not get smaller where the rational gets larger. -/
theorem value_le (h : p ≤ q) : x.value ≤ y.value := by
  rw [x.value_eq_signed_abs, y.value_eq_signed_abs, hp, hq]
  rcases lt_or_ge p 0 with hneg | hnonneg <;> rcases lt_or_ge q 0 with hneg' | hnonneg'
  · rw [decide_eq_true hneg, decide_eq_true hneg', signed_true, signed_true]
    refine neg_le_neg (abs_value_le hy hq hx hp ?_)
    rw [abs_of_neg hneg, abs_of_neg hneg']
    exact neg_le_neg h
  · rw [decide_eq_true hneg, decide_eq_false (not_lt.mpr hnonneg'), signed_true, signed_false]
    exact (neg_nonpos.mpr (abs_nonneg _)).trans (abs_nonneg _)
  · exact absurd h (not_le.mpr (hneg'.trans_le hnonneg))
  · rw [decide_eq_false (not_lt.mpr hnonneg), decide_eq_false (not_lt.mpr hnonneg'), signed_false,
      signed_false]
    refine abs_value_le hx hp hy hq ?_
    rwa [abs_of_nonneg hnonneg, abs_of_nonneg hnonneg']

end

end Binary

end RecordCoercion
