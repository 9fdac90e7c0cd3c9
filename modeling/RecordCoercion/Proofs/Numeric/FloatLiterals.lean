import RecordCoercion.Proofs.Numeric.Literals
import RecordCoercion.Proofs.Numeric.NearestNumber

/-!
# Literals of floating-point numbers

A decimal is read as the number of a format that is nearest to its exact value, also where the reader
takes one of its short cuts (`Binary.isNearest_ofDecimal`). With the sign and the two names this gives the
number that a `FloatLiteral` denotes, and the reader finds it for every literal and for nothing else.
-/

set_option autoImplicit false

namespace RecordCoercion

namespace Binary

open BinaryFormat

variable {f : BinaryFormat}

/-! ## The number nearest to a decimal -/

/-- A decimal is rounded to a number of the sign given. -/
theorem negative_ofDecimal (f : BinaryFormat) (negative : Bool) (d : Decimal) :
    (ofDecimal f negative d).negative = negative := by
  unfold ofDecimal
  dsimp only
  split
  · rfl
  split <;> rfl

/-- A rational of less than half a unit is nearest to zero. -/
theorem isNearest_zero (negative : Bool) {q : ℚ} (hq : 0 ≤ q) (h : 2 * (q * f.one) < 1) :
    (zero negative : Binary f).IsNearest (signed negative q) := by
  have hone : (0 : ℚ) < f.one := by exact_mod_cast f.one_pos
  have hunits : 0 ≤ q * f.one := mul_nonneg hq hone.le
  have hrounds : f.RoundsTo 0 (q * f.one) := by
    have hnext : (1 : ℚ) ≤ f.magnitude (0 + 1) := by exact_mod_cast magnitude_pos Nat.one_pos
    refine ⟨?_, ?_, fun hodd => absurd hodd (by decide)⟩
    · simp only [Nat.zero_sub, magnitude_zero, Nat.cast_zero, add_zero]
      linarith
    · rw [magnitude_zero, Nat.cast_zero, zero_add]
      exact h.le.trans hnext
  have hnearest : (zero negative : Binary f).IsNearest (signed negative (q * f.one / f.one)) :=
    isNearest_of_roundsTo hunits (decide_eq_true f.infinityCode_pos) hrounds
  rwa [mul_div_cancel_right₀ _ hone.ne'] at hnearest

/-- What is not below the power of two after the finite numbers overflows. -/
theorem isNearest_infinity (negative : Bool) {q : ℚ}
    (h : (2 : ℚ) ^ 2 ^ (f.exponentBits - 1) ≤ q) :
    (infinity negative : Binary f).IsNearest (signed negative q) := by
  have houtside : f.overflow ≤ q := by
    refine le_trans ?_ h
    have hexponent : 2 ^ (f.exponentBits - 1) = 2 ^ (f.exponentBits - 1) - 1 + 1 :=
      (Nat.sub_add_cancel Nat.one_le_two_pow).symm
    rw [overflow, hexponent, Nat.add_sub_cancel, pow_succ', mul_le_mul_iff_left₀ (by positivity)]
    linarith [show (0 : ℚ) ≤ 1 / 2 ^ f.precision by positivity]
  have hpos := f.overflow_pos.trans_le houtside
  refine .infinite ?_ ?_
  · rwa [abs_signed _ hpos.le]
  · rw [decide_signed_lt_zero _ hpos]

/-- A decimal is read as the number of its sign that is nearest to its value. -/
theorem isNearest_ofDecimal (f : BinaryFormat) (negative : Bool) (d : Decimal) :
    (ofDecimal f negative d).IsNearest (signed negative d.value) := by
  have hnonneg : 0 ≤ d.value := mul_nonneg (Nat.cast_nonneg _) (Decimal.ten_zpow_pos _).le
  unfold ofDecimal
  dsimp only
  split
  next hlow =>
    simp only [Bool.or_eq_true, decide_eq_true_eq] at hlow
    refine isNearest_zero negative hnonneg ?_
    rcases hlow with hzero | htop
    · rw [Decimal.value, hzero]
      norm_num
    · exact two_mul_value_lt_one htop
  next hlow =>
    simp only [Bool.or_eq_true, decide_eq_true_eq, not_or] at hlow
    split
    next hhigh => exact isNearest_infinity negative (two_pow_le_value hlow.1 hhigh)
    next =>
      have hden : 0 < 10 ^ (-d.exponent).toNat := Nat.pow_pos (by decide)
      have hvalue := d.value_mul_eq_div 1
      rw [Nat.cast_one, mul_one, Nat.mul_one] at hvalue
      rw [hvalue]
      exact (isNearest_iff (x := ofRatio f negative _ _) hden).mpr rfl

end Binary

/-! ## Literals -/

/-- What may follow the sign of a floating-point number. -/
inductive UnsignedFloat
  | nan
  | infinity
  | decimal (literal : DecimalLiteral)

/-- The text of a floating-point number without its sign. -/
def UnsignedFloat.text : UnsignedFloat → List Char
  | nan => "NaN".toList
  | infinity => "Infinity".toList
  | decimal literal => literal.text

/-- A floating-point number as it is written. -/
structure FloatLiteral where
  sign : Sign
  unsigned : UnsignedFloat

namespace FloatLiteral

/-- The text of a floating-point number. -/
def text (literal : FloatLiteral) : List Char := literal.sign.text ++ literal.unsigned.text

/-- A number is the one that a literal denotes: it has the sign of the literal and is "not a number",
infinite or the nearest number to the exact value of a decimal. -/
def Denotes (literal : FloatLiteral) {f : BinaryFormat} (x : Binary f) : Prop :=
  match literal.unsigned with
  | .nan => x = .nan literal.sign.negative
  | .infinity => x = .infinity literal.sign.negative
  | .decimal decimal => x.negative = literal.sign.negative ∧
      x.IsNearest (signed literal.sign.negative decimal.value)

end FloatLiteral

/-- A decimal begins with a digit or its point. -/
theorem DecimalLiteral.head?_text (literal : DecimalLiteral) :
    ∀ c ∈ literal.text.head?, c.isDigit = true ∨ c = '.' := by
  obtain ⟨whole, fraction, exponent, hne⟩ := literal
  intro c hc
  cases whole with
  | cons digit whole =>
    have hmem : c ∈ digitText (digit :: whole) := by
      rw [← Option.some.inj hc]
      exact List.mem_cons_self
    exact .inl (isDigit_of_mem_digitText c hmem)
  | nil =>
    cases fraction with
    | none => exact absurd rfl hne
    | some digits => exact .inr (Option.some.inj hc).symm

/-- A digit is not a letter. -/
theorem not_isAlpha_of_isDigit {c : Char} (h : c.isDigit = true) : ¬ c.isAlpha = true := by
  have hrange : 48 ≤ c.val.toNat ∧ c.val.toNat ≤ 57 := toNat_of_isDigit h
  intro halpha
  obtain hcapital | hsmall := Bool.or_eq_true_iff.mp halpha
  · have hfrom : 65 ≤ c.val.toNat := (of_decide_eq_true hcapital).1
    omega
  · have hfrom : 97 ≤ c.val.toNat := of_decide_eq_true (Bool.and_eq_true_iff.mp hsmall).1
    omega

/-- What follows the sign begins with no other. -/
theorem UnsignedFloat.not_sign_head? (unsigned : UnsignedFloat) :
    ∀ c ∈ unsigned.text.head?, c ≠ '+' ∧ c ≠ '-' := by
  intro c hc
  cases unsigned with
  | nan =>
    obtain rfl : 'N' = c := Option.some.inj hc
    decide
  | infinity =>
    obtain rfl : 'I' = c := Option.some.inj hc
    decide
  | decimal literal =>
    obtain hdigit | rfl := literal.head?_text c hc
    · exact not_sign_of_isDigit hdigit
    · decide

/-- Of the texts that begin with a letter behind a sign only the two names are literals. -/
theorem FloatLiteral.eq_name {literal : FloatLiteral} {sign : Sign} {name : List Char}
    (h : literal.text = sign.text ++ name) (hletter : ∃ c ∈ name.head?, c.isAlpha = true) :
    name = "NaN".toList ∨ name = "Infinity".toList := by
  obtain ⟨c, hc, halpha⟩ := hletter
  have hname : ∀ c' ∈ name.head?, c' ≠ '+' ∧ c' ≠ '-' := by
    intro c' hc'
    obtain rfl : c = c' := Option.mem_unique hc hc'
    constructor <;> rintro rfl <;> revert halpha <;> decide
  have hsplit := congrArg Prod.snd ((splitSign_append literal.sign literal.unsigned.not_sign_head?).symm.trans
    ((congrArg splitSign h).trans (splitSign_append sign hname)))
  obtain ⟨own, unsigned⟩ := literal
  cases unsigned with
  | nan => exact .inl hsplit.symm
  | infinity => exact .inr hsplit.symm
  | decimal literal =>
    have hdecimal : c ∈ literal.text.head? := by
      rw [show literal.text = name from hsplit]
      exact hc
    obtain hdigit | rfl := literal.head?_text c hdecimal
    · exact absurd halpha (not_isAlpha_of_isDigit hdigit)
    · cases halpha

variable {f : BinaryFormat}

/-- The text of a literal is read as the number that the literal denotes. -/
theorem readFloat?_literal {literal : FloatLiteral} {text : List Char}
    (h : literal.text = trim text) : ∃ x, readFloat? f text = some x ∧ literal.Denotes x := by
  obtain ⟨sign, unsigned⟩ := literal
  have hsplit : splitSign (trim text) = (sign.negative, unsigned.text) := by
    rw [← h]
    exact splitSign_append sign unsigned.not_sign_head?
  cases unsigned with
  | nan =>
    refine ⟨.nan sign.negative, ?_, rfl⟩
    rw [readFloat?, hsplit]
    exact if_pos rfl
  | infinity =>
    refine ⟨.infinity sign.negative, ?_, rfl⟩
    have hne : "Infinity".toList ≠ "NaN".toList := by decide
    rw [readFloat?, hsplit]
    exact (if_neg hne).trans (if_pos rfl)
  | decimal literal =>
    have hread := literal.readDecimal?_text
    have hnan : literal.text ≠ "NaN".toList := by
      intro heq
      rw [heq] at hread
      cases hread
    have hinfinity : literal.text ≠ "Infinity".toList := by
      intro heq
      rw [heq] at hread
      cases hread
    have hnearest := Binary.isNearest_ofDecimal f sign.negative literal.decimal
    rw [literal.value_decimal] at hnearest
    refine ⟨_, ?_, Binary.negative_ofDecimal f sign.negative literal.decimal, hnearest⟩
    rw [readFloat?, hsplit]
    refine (if_neg hnan).trans ((if_neg hinfinity).trans ?_)
    exact congrArg (Option.map _) hread

/-- What is read as a floating-point number is the text of a literal, up to blanks around it. -/
theorem exists_of_readFloat? {text : List Char} {x : Binary f} (h : readFloat? f text = some x) :
    ∃ literal : FloatLiteral, literal.text = trim text ∧ literal.Denotes x := by
  obtain ⟨sign, htext, -⟩ := exists_sign (trim text)
  have hliteral : ∃ unsigned, (⟨sign, unsigned⟩ : FloatLiteral).text = trim text := by
    have hsplit := h
    unfold readFloat? at hsplit
    dsimp only at hsplit
    split at hsplit
    next hnan => exact ⟨.nan, by rw [htext, hnan]; rfl⟩
    split at hsplit
    next hinfinity => exact ⟨.infinity, by rw [htext, hinfinity]; rfl⟩
    obtain ⟨d, hd, -⟩ := Option.map_eq_some_iff.mp hsplit
    obtain ⟨literal, hliteral, -⟩ := exists_of_readDecimal? hd
    exact ⟨.decimal literal, by rw [htext, ← hliteral]; rfl⟩
  obtain ⟨unsigned, hunsigned⟩ := hliteral
  obtain ⟨y, hy, hdenotes⟩ := readFloat?_literal (f := f) hunsigned
  rw [h] at hy
  cases hy
  exact ⟨_, hunsigned, hdenotes⟩

end RecordCoercion
