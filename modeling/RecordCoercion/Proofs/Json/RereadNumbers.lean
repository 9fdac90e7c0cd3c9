import RecordCoercion.Proofs.Json.TwoDivisions
import RecordCoercion.Proofs.Json.WrittenTokens
import RecordCoercion.Proofs.Numeric.ShortestDigits

/-!
# Floating-point numbers that are read from their text
-/

set_option autoImplicit false

namespace RecordCoercion.Json

/-! ## The decimal of a written number -/

namespace NumberParts

/-- The decimal that the parts of a number denote, with its digits read without the point. -/
def decimal (parts : NumberParts) : Decimal :=
  ⟨numeralValue (parts.whole ++ parts.fraction.getD []),
    parts.exponent.getD 0 - (parts.fraction.getD []).length⟩

/-- A number with a fraction or an exponent, whose digits all fit the significand, is read by the fast
rule. -/
theorem value?_eq_floatOf? {parts : NumberParts} (hfits : parts.decimal.coefficient < UInt64.size)
    (hfloat : parts.fraction.isSome = true ∨ parts.exponent.isSome = true) :
    parts.value? =
      floatOf? parts.negative parts.decimal.coefficient parts.decimal.exponent := by
  obtain ⟨negative, whole, fraction, exponent⟩ := parts
  simp only [decimal] at hfits hfloat ⊢
  rw [numeralValue_append] at hfits ⊢
  have hwhole : fillSignificand 0 whole = (numeralValue whole, []) := by
    have hvalue : 10 ^ whole.length * 0 + numeralValue whole = numeralValue whole := by
      rw [Nat.mul_zero, Nat.zero_add]
    rw [fillSignificand_eq, hvalue]
    rw [hvalue]
    refine Nat.lt_of_le_of_lt ?_ hfits
    exact Nat.le_add_right_of_le (Nat.le_mul_of_pos_left _ (Nat.pow_pos (by decide)))
  have hfraction := fillSignificand_eq hfits
  simp only [value?, hwhole]
  split
  · simp at hfloat
  · simp only [hfraction]
    congr 1
    simp only [List.length_nil]
    omega

end NumberParts

/-- Plain digits denote their decimal. Where all of them stand before the point, the zeros up to the
point and the one behind it are read as digits. -/
theorem decimal_plainParts (negative : Bool) (d : Decimal) :
    (plainParts negative (numeral d.coefficient)
        (Decimal.width d.coefficient + d.exponent)).decimal =
      if 0 ≤ d.exponent then ⟨d.coefficient * 10 ^ (d.exponent + 1).toNat, -1⟩ else d := by
  obtain ⟨coefficient, exponent⟩ := d
  have hpos : 0 < (numeral coefficient).length :=
    List.length_pos_of_ne_nil (numeral_ne_nil coefficient)
  dsimp only [Decimal.width]
  by_cases hpoint : ((numeral coefficient).length : Int) + exponent ≤ 0
  · rw [plainParts, if_pos hpoint, if_neg (by omega)]
    simp only [NumberParts.decimal, Option.getD_some, Option.getD_none, Decimal.mk.injEq]
    constructor
    · rw [numeralValue_append, numeralValue_append, numeralValue_replicate_zero,
        numeralValue_numeral, show numeralValue ['0'] = 0 from rfl]
      omega
    · rw [List.length_append, List.length_replicate]
      omega
  by_cases hlength :
      (numeral coefficient).length ≤ ((numeral coefficient).length + exponent : Int).toNat
  · rw [plainParts, if_neg hpoint, if_pos hlength, if_pos (by omega)]
    obtain ⟨n, rfl⟩ : ∃ n : Nat, exponent = n := ⟨exponent.toNat, by omega⟩
    have hzeros : ((numeral coefficient).length + (n : Int)).toNat - (numeral coefficient).length = n := by
      omega
    simp only [NumberParts.decimal, Option.getD_some, Option.getD_none, Decimal.mk.injEq, hzeros]
    constructor
    · rw [numeralValue_append, numeralValue_append, numeralValue_replicate_zero,
        numeralValue_numeral, List.length_replicate, show numeralValue ['0'] = 0 from rfl,
        List.length_singleton, show (n + 1 : Int).toNat = n + 1 by omega, Nat.pow_succ]
      ring
    · rfl
  · rw [plainParts, if_neg hpoint, if_neg hlength, if_neg (by omega)]
    simp only [NumberParts.decimal, Option.getD_some, Option.getD_none, Decimal.mk.injEq]
    constructor
    · rw [List.take_append_drop, numeralValue_numeral]
    · rw [List.length_drop]
      omega

/-- The parts of a decimal with an exponent denote the decimal. -/
theorem decimal_scientificParts (negative : Bool) (d : Decimal) :
    (scientificParts negative (numeral d.coefficient)
      (Decimal.width d.coefficient + d.exponent)).decimal = d := by
  obtain ⟨coefficient, exponent⟩ := d
  have hpos : 0 < (numeral coefficient).length :=
    List.length_pos_of_ne_nil (numeral_ne_nil coefficient)
  have hfraction : (if (numeral coefficient).drop 1 = [] then none
      else some ((numeral coefficient).drop 1)).getD [] = (numeral coefficient).drop 1 := by
    split
    · next hnil => exact hnil.symm
    · rfl
  simp only [NumberParts.decimal, scientificParts, Decimal.width, hfraction, Option.getD_some,
    Decimal.mk.injEq]
  constructor
  · rw [List.take_append_drop, numeralValue_numeral]
  · rw [List.length_drop]
    omega

/-- The digits of a decimal are written as they are, or with zeros up to the point and one behind it if
they are an integer that is written plainly. -/
theorem decimal_decimalParts (layout : FloatLayout) (negative : Bool) (d : Decimal) :
    ((decimalParts layout negative d).decimal = d ∧
      ¬(0 ≤ d.exponent ∧ layout.lowestPoint ≤ Decimal.width d.coefficient + d.exponent ∧
        Decimal.width d.coefficient + d.exponent ≤ layout.highestPoint)) ∨
      0 ≤ d.exponent ∧ Decimal.width d.coefficient + d.exponent ≤ layout.highestPoint ∧
        (decimalParts layout negative d).decimal =
          ⟨d.coefficient * 10 ^ (d.exponent + 1).toNat, -1⟩ := by
  simp only [decimalParts]
  by_cases hplain : (decide (layout.lowestPoint ≤ Decimal.width d.coefficient + d.exponent) &&
      decide (Decimal.width d.coefficient + d.exponent ≤ layout.highestPoint)) = true
  · rw [if_pos hplain, decimal_plainParts]
    rw [Bool.and_eq_true, decide_eq_true_iff, decide_eq_true_iff] at hplain
    split
    · next hexponent => exact .inr ⟨hexponent, hplain.2, rfl⟩
    · next hexponent => exact .inl ⟨rfl, fun h => hexponent h.1⟩
  · rw [if_neg hplain]
    rw [Bool.and_eq_true, decide_eq_true_iff, decide_eq_true_iff] at hplain
    exact .inl ⟨decimal_scientificParts negative d, fun h => hplain h.2⟩

/-- The parts of a decimal denote its value. -/
theorem value_decimalParts (layout : FloatLayout) (negative : Bool) (d : Decimal) :
    (decimalParts layout negative d).decimal.value = d.value := by
  rcases decimal_decimalParts layout negative d with ⟨heq, -⟩ | ⟨hexponent, -, heq⟩
  · rw [heq]
  · have hshift := Decimal.value_shift d.coefficient (d.exponent + 1).toNat d.exponent
    rw [show d.exponent - ((d.exponent + 1).toNat : Int) = -1 by omega] at hshift
    rw [heq, hshift]

/-! ## Numbers that are read -/

variable {f : BinaryFormat} {x : Binary f} {layout : FloatLayout}

/-- A floating-point number is written with a fraction or an exponent. -/
theorem isSome_floatParts (layout : FloatLayout) (x : Binary f) :
    (floatParts layout x).fraction.isSome = true ∨ (floatParts layout x).exponent.isSome = true := by
  unfold floatParts
  split
  · exact .inl rfl
  unfold decimalParts
  dsimp only
  split
  · left
    unfold plainParts
    split
    · rfl
    split <;> rfl
  · exact .inr rfl

/-- The digits of a regular number denote its shortest decimal. -/
theorem value_floatParts (layout : FloatLayout) (hx : x.IsRegular) :
    (floatParts layout x).decimal.value = (x.shortest layout.tie).value := by
  rw [floatParts, if_neg (Binary.not_isZero hx.1), value_decimalParts, FloatLayout.value_normalize]

/-- The digits of a zero. -/
theorem decimal_floatParts_of_isZero (layout : FloatLayout) (hx : x.isZero = true) :
    (floatParts layout x).decimal = ⟨0, -1⟩ := by
  rw [floatParts, if_pos hx]
  rfl

/-- The digits of a number that is not zero are not all zero. -/
theorem coefficient_floatParts_pos (layout : FloatLayout) (hx : x.IsRegular) :
    0 < (floatParts layout x).decimal.coefficient := by
  have hrounds := Binary.roundsTo_shortest layout.tie hx
  rw [← value_floatParts layout hx] at hrounds
  exact Nat.pos_of_ne_zero (hrounds.coefficient_ne_zero hx.1)

/-- What a decimal is written as has no larger coefficient. -/
theorem coefficient_normalize_le (d : Decimal) :
    (FloatLayout.normalize d).coefficient ≤ d.coefficient := by
  unfold FloatLayout.normalize
  split
  · dsimp only
    omega
  · exact le_rfl

/-- A number is written with the digits that tell it apart, or with all those before its point and one
behind. -/
theorem coefficient_floatParts_le (hfinite : x.isFinite = true) {n k : Nat}
    (hn : 2 * f.fractionCount ≤ 10 ^ n) (hprecision : n < f.precision) (hle : n + 1 ≤ k)
    (hpoint : layout.highestPoint + 1 ≤ k) :
    (floatParts layout x).decimal.coefficient ≤ 10 ^ k := by
  by_cases hzero : x.isZero = true
  · rw [decimal_floatParts_of_isZero layout hzero]
    exact Nat.zero_le _
  have hx := isRegular_of_isFinite hfinite hzero
  obtain ⟨hcoefficient, -⟩ := Binary.shortest_digits layout.tie hx hn hprecision
  have hpow : 10 ^ (n + 1) ≤ 10 ^ k := Nat.pow_le_pow_right (by decide) hle
  rw [floatParts, if_neg hzero]
  have hnormal := coefficient_normalize_le (x.shortest layout.tie)
  generalize FloatLayout.normalize (x.shortest layout.tie) = d at hnormal ⊢
  rcases decimal_decimalParts layout x.negative d with ⟨heq, -⟩ | ⟨hexponent, htop, heq⟩
  · rw [heq]
    omega
  · rw [heq]
    dsimp only
    have hwidth : d.coefficient < 10 ^ Decimal.width d.coefficient :=
      (Nat.length_toDigits_le_iff (by decide) Nat.length_toDigits_pos).mp le_rfl
    calc d.coefficient * 10 ^ (d.exponent + 1).toNat
        ≤ 10 ^ Decimal.width d.coefficient * 10 ^ (d.exponent + 1).toNat :=
          Nat.mul_le_mul_right _ hwidth.le
      _ = 10 ^ (Decimal.width d.coefficient + (d.exponent + 1).toNat) := (Nat.pow_add _ _ _).symm
      _ ≤ 10 ^ k := Nat.pow_le_pow_right (by decide) (by omega)

/-- What a decimal is written as has an exponent that is larger by one at most. -/
theorem exponent_normalize (d : Decimal) :
    d.exponent ≤ (FloatLayout.normalize d).exponent ∧
      (FloatLayout.normalize d).exponent ≤ d.exponent + 1 := by
  unfold FloatLayout.normalize
  split
  · dsimp only
    omega
  · omega

/-- The digits of a number are written up to the last digit of its shortest decimal, or one place behind
the point. -/
theorem exponent_floatParts (layout : FloatLayout) (hx : x.IsRegular) :
    (floatParts layout x).decimal.exponent = -1 ∨
      (x.shortest layout.tie).exponent ≤ (floatParts layout x).decimal.exponent ∧
        (floatParts layout x).decimal.exponent ≤ (x.shortest layout.tie).exponent + 1 := by
  rw [floatParts, if_neg (Binary.not_isZero hx.1)]
  rcases decimal_decimalParts layout x.negative (FloatLayout.normalize (x.shortest layout.tie)) with
    ⟨heq, -⟩ | ⟨-, -, heq⟩
  · rw [heq]
    exact .inr (exponent_normalize _)
  · rw [heq]
    exact .inl rfl

/-- A shortest decimal that ends behind the point, or beyond the numbers written without an exponent, is
written digit by digit. -/
theorem decimal_floatParts (layout : FloatLayout) (hx : x.IsRegular)
    (hten : (x.shortest layout.tie).coefficient ≠ 10)
    (hplace : (x.shortest layout.tie).exponent < 0 ∨
      layout.highestPoint < (x.shortest layout.tie).exponent) :
    (floatParts layout x).decimal = x.shortest layout.tie := by
  rw [floatParts, if_neg (Binary.not_isZero hx.1), FloatLayout.normalize, if_neg hten]
  rcases decimal_decimalParts layout x.negative (x.shortest layout.tie) with
    ⟨heq, -⟩ | ⟨hnonneg, htop, -⟩
  · exact heq
  · omega

/-- The digits of a number do not reach behind a place that is less than a unit. -/
theorem exponent_floatParts_ge (layout : FloatLayout) (hx : x.IsRegular) {k n : Nat} (hk : 0 < k)
    (hone : f.one < 10 ^ k) (hn : 2 * f.fractionCount ≤ 10 ^ n) (hprecision : n < f.precision) :
    -(k : Int) ≤ (floatParts layout x).decimal.exponent := by
  rcases exponent_floatParts layout hx with heq | ⟨hge, -⟩
  · omega
  · exact (Binary.le_exponent_shortest layout.tie hx hn hprecision hone).trans hge

/-- The double as which a finite number is read that is written in a layout. -/
def rereadDouble? (layout : FloatLayout) (x : Binary f) : Option (Binary binary64) :=
  fastDouble? x.negative (floatParts layout x).decimal

/-- A finite number whose digits fit 64 bits is read as its double, or not at all. -/
theorem rereadNumber_eq (hfinite : x.isFinite = true)
    (hfits : (floatParts layout x).decimal.coefficient < UInt64.size) :
    rereadNumber layout x = ((rereadDouble? layout x).map Json.float).getD .unreadable := by
  have hnegative : (floatParts layout x).negative = x.negative := by
    unfold floatParts decimalParts plainParts scientificParts
    dsimp only
    split
    · rfl
    split
    · split
      · rfl
      split <;> rfl
    · rfl
  rw [rereadNumber, if_pos hfinite, NumberParts.value?_eq_floatOf? hfits (isSome_floatParts layout x),
    hnegative, floatOf?, rereadDouble?, fastDouble?, Option.map_map]
  rfl

/-! ## Doubles -/

/-- Zero is read as itself, with its sign. -/
theorem rereadDouble?_of_isZero {x : Binary binary64} (hx : x.isZero = true) :
    rereadDouble? layout x = some x := by
  have hcode : x.code = 0 := by simpa [Binary.isZero] using hx
  have hzero : timesPowerOfTen? (.ofInt binary64 (0 : Nat)) (-1) =
      some ((Binary.ofInt binary64 (0 : Nat)).scaleDown (powerOfTen 1)) :=
    timesPowerOfTen?_of_isFinite (by decide) (by decide) rfl (by decide +kernel)
  have hscaled : ((Binary.ofInt binary64 (0 : Nat)).scaleDown (powerOfTen 1)).code = 0 := by
    decide +kernel
  rw [rereadDouble?, decimal_floatParts_of_isZero layout hx, fastDouble?, hzero, Option.map_some,
    Binary.signed_eq rfl (hscaled.trans hcode.symm)]

/-- The digits of a double fit 64 bits. -/
theorem coefficient_floatParts_of_double {x : Binary binary64} (hfinite : x.isFinite = true) :
    (floatParts floatLayout x).decimal.coefficient < UInt64.size :=
  have hcount : 2 * binary64.fractionCount ≤ 10 ^ 16 := by decide
  have hsize : 10 ^ 17 < UInt64.size := by decide
  (coefficient_floatParts_le hfinite hcount (by decide) le_rfl (by decide)).trans_lt hsize

/-- The digits of the two largest doubles are not taken out of range by the rounding. -/
theorem isSome_rereadDouble?_of_largest {x : Binary binary64} (hfinite : x.isFinite = true)
    (hx : binary64.infinityCode - 2 ≤ x.code) : (rereadDouble? floatLayout x).isSome = true := by
  have hcode : x.code < binary64.infinityCode := by simpa [Binary.isFinite] using hfinite
  have hregular : x.IsRegular := ⟨(by decide : 0 < binary64.infinityCode - 2).trans_le hx, hcode⟩
  have hpoint : ∀ {coefficient : Nat}, x.shortest .even = ⟨coefficient, 292⟩ →
      coefficient ≠ 10 → (floatParts floatLayout x).decimal = ⟨coefficient, 292⟩ := by
    intro coefficient hshortest hten
    have hshortest : x.shortest floatLayout.tie = ⟨coefficient, 292⟩ := hshortest
    have hplace : floatLayout.highestPoint < 292 := by decide
    rw [decimal_floatParts floatLayout hregular (by rwa [hshortest]) (.inr (by rwa [hshortest])),
      hshortest]
  have hscaled : ∀ {coefficient : Nat},
      ((Binary.ofInt binary64 coefficient).scaleUp (powerOfTen 292)).isFinite = true →
      (floatParts floatLayout x).decimal = ⟨coefficient, 292⟩ →
      (rereadDouble? floatLayout x).isSome = true := by
    intro coefficient hscaled hdecimal
    have htimes : timesPowerOfTen? (.ofInt binary64 coefficient) 292 =
        some ((Binary.ofInt binary64 coefficient).scaleUp (powerOfTen 292)) :=
      timesPowerOfTen?_of_isFinite (by decide) (by decide) (if_pos (by decide)).symm hscaled
    rw [rereadDouble?, hdecimal, fastDouble?, htimes]
    rfl
  obtain hlast | hnext : x.code = binary64.infinityCode - 1 ∨ x.code = binary64.infinityCode - 2 := by
    omega
  · have hshortest : (⟨false, binary64.infinityCode - 1, by decide⟩ : Binary binary64).shortest .even =
        ⟨17976931348623157, 292⟩ := by decide +kernel
    rw [← Binary.shortest_congr .even hlast] at hshortest
    exact hscaled (by decide +kernel) (hpoint hshortest (by decide))
  · have hshortest : (⟨false, binary64.infinityCode - 2, by decide⟩ : Binary binary64).shortest .even =
        ⟨17976931348623155, 292⟩ := by decide +kernel
    rw [← Binary.shortest_congr .even hnext] at hshortest
    exact hscaled (by decide +kernel) (hpoint hshortest (by decide))

/-- Every finite double is read as some double. -/
theorem isSome_rereadDouble? {x : Binary binary64} (hfinite : x.isFinite = true) :
    (rereadDouble? floatLayout x).isSome = true := by
  by_cases hzero : x.isZero = true
  · rw [rereadDouble?_of_isZero hzero]
    rfl
  by_cases hlargest : binary64.infinityCode - 2 ≤ x.code
  · exact isSome_rereadDouble?_of_largest hfinite hlargest
  have hx := isRegular_of_isFinite hfinite hzero
  have hrounds := Binary.roundsTo_shortest floatLayout.tie hx
  rw [← value_floatParts floatLayout hx] at hrounds
  have hfits := coefficient_floatParts_of_double hfinite
  have hpow : UInt64.size ≤ 10 ^ 20 := by decide
  refine isSome_fastDouble? x.negative (.inl (coefficient_floatParts_pos floatLayout hx))
    (hfits.le.trans hpow) (by decide) (hrounds.above.trans ?_)
  have hself : binary64.magnitude x.code ≤ binary64.magnitude (binary64.infinityCode - 3) :=
    binary64.strictMono_magnitude.monotone (by omega)
  have hsucc : binary64.magnitude (x.code + 1) ≤ binary64.magnitude (binary64.infinityCode - 2) :=
    binary64.strictMono_magnitude.monotone (by omega)
  exact_mod_cast Nat.add_le_add hself hsucc

/-- A double is read as one of the same sign that is as many codes away at most as there are factors
between its digits, its power of ten and their doubles. -/
theorem rereadDouble?_near {x z : Binary binary64} {m n : Nat} (hx : x.IsRegular)
    (hlow : -308 ≤ (floatParts floatLayout x).decimal.exponent)
    (hsignificand : binary64.Within n
      (Binary.ofInt binary64 (floatParts floatLayout x).decimal.coefficient).units
      ((floatParts floatLayout x).decimal.coefficient * binary64.one))
    (hpower : (floatParts floatLayout x).decimal.exponent.natAbs ≤ 308 →
      binary64.Within m
        ((powerOfTen (floatParts floatLayout x).decimal.exponent.natAbs).units / binary64.one)
        (10 ^ (floatParts floatLayout x).decimal.exponent.natAbs))
    (h : rereadDouble? floatLayout x = some z) :
    z.isFinite = true ∧ z.negative = x.negative ∧ z.code ≤ x.code + (n + m) ∧
      x.code ≤ z.code + (n + m) := by
  have hrounds := Binary.roundsTo_shortest floatLayout.tie hx
  rw [← value_floatParts floatLayout hx] at hrounds
  have hpos := coefficient_floatParts_pos floatLayout hx
  have hfits := coefficient_floatParts_of_double (decide_eq_true hx.2)
  have hsize : UInt64.size ≤ 10 ^ 20 := by decide
  obtain ⟨hz, hsign, q, hq, hnear⟩ :=
    fastDouble?_within hpos (hfits.le.trans hsize) (by decide) hlow hsignificand hpower h
  exact ⟨hz, hsign, hnear.symm.code_le hrounds hq, hnear.code_le hq hrounds⟩

/-- A double is read as one of the same sign that is two codes away at most. -/
theorem rereadDouble?_within_two {x z : Binary binary64} (hfinite : x.isFinite = true)
    (h : rereadDouble? floatLayout x = some z) :
    z.isFinite = true ∧ z.negative = x.negative ∧ z.code ≤ x.code + 2 ∧ x.code ≤ z.code + 2 := by
  by_cases hzero : x.isZero = true
  · rw [rereadDouble?_of_isZero hzero] at h
    obtain rfl := Option.some.inj h
    exact ⟨hfinite, rfl, by omega, by omega⟩
  have hx := isRegular_of_isFinite hfinite hzero
  have hrounds := Binary.roundsTo_shortest floatLayout.tie hx
  rw [← value_floatParts floatLayout hx] at hrounds
  have hpos := coefficient_floatParts_pos floatLayout hx
  have hfits := coefficient_floatParts_of_double hfinite
  have hsize : UInt64.size ≤ 10 ^ 20 := by decide
  by_cases hlow : -308 ≤ (floatParts floatLayout x).decimal.exponent
  · exact rereadDouble?_near hx hlow (significand_within hpos (hfits.le.trans hsize) (by decide))
      powerOfTen_within h
  have hcount : 2 * binary64.fractionCount ≤ 10 ^ 16 := by decide
  have hplace : binary64.one < 10 ^ 324 := by decide +kernel
  have hlast := exponent_floatParts_ge floatLayout hx (by decide) hplace hcount (by decide)
  by_cases hdigit : (floatParts floatLayout x).decimal.coefficient < 3
  · rw [rereadDouble?, fastDouble?_of_digit hpos hdigit hlast (by omega),
      Binary.ofDecimal_of_roundsTo hx hrounds] at h
    obtain rfl := Option.some.inj h
    exact ⟨hfinite, rfl, by omega, by omega⟩
  · obtain ⟨hz, hsign, q, hq, hnear⟩ := fastDouble?_within_of_small (Nat.le_of_not_lt hdigit)
      (hfits.le.trans hsize) (by decide) (by omega) (by omega) h
    exact ⟨hz, hsign, hnear.symm.code_le hrounds hq, hnear.code_le hq hrounds⟩

/-- A double with an exact significand or an exact power of ten is read as itself or a neighbour. -/
theorem rereadDouble?_within_one {x z : Binary binary64} (hfinite : x.isFinite = true)
    (hlow : -308 ≤ (floatParts floatLayout x).decimal.exponent)
    (hexact : (floatParts floatLayout x).decimal.coefficient ≤ 2 ^ 53 ∨
      (floatParts floatLayout x).decimal.exponent.natAbs ≤ 22)
    (h : rereadDouble? floatLayout x = some z) : z.code ≤ x.code + 1 ∧ x.code ≤ z.code + 1 := by
  by_cases hzero : x.isZero = true
  · rw [rereadDouble?_of_isZero hzero] at h
    obtain rfl := Option.some.inj h
    exact ⟨by omega, by omega⟩
  have hx := isRegular_of_isFinite hfinite hzero
  rcases hexact with hcoefficient | hexponent
  · exact (rereadDouble?_near hx hlow (significand_within_of_exact hcoefficient) powerOfTen_within h).2.2
  · have hrounds := Binary.roundsTo_shortest floatLayout.tie hx
    rw [← value_floatParts floatLayout hx] at hrounds
    have hpos := coefficient_floatParts_pos floatLayout hx
    have hsize : UInt64.size ≤ 10 ^ 20 := by decide
    have hfits := (coefficient_floatParts_of_double hfinite).le.trans hsize
    exact (rereadDouble?_near hx hlow (significand_within hpos hfits (by decide))
      (fun _ => powerOfTen_within_of_exact hexponent) h).2.2

/-- A double whose digits make an exact significand and an exact power of ten is read back. -/
theorem rereadDouble?_of_exact {x : Binary binary64} (hfinite : x.isFinite = true)
    (hcoefficient : (floatParts floatLayout x).decimal.coefficient ≤ 2 ^ 53)
    (hlow : -22 ≤ (floatParts floatLayout x).decimal.exponent)
    (hhigh : (floatParts floatLayout x).decimal.exponent ≤ 22) :
    rereadDouble? floatLayout x = some x := by
  by_cases hzero : x.isZero = true
  · exact rereadDouble?_of_isZero hzero
  have hx := isRegular_of_isFinite hfinite hzero
  have hrounds := Binary.roundsTo_shortest floatLayout.tie hx
  rw [← value_floatParts floatLayout hx] at hrounds
  exact fastDouble?_of_exact hx hcoefficient hlow hhigh hrounds

end RecordCoercion.Json
