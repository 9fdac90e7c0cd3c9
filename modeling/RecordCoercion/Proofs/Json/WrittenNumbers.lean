import RecordCoercion.Json.Token
import RecordCoercion.Proofs.Numeric.FloatText

/-!
# Numbers of JSON text

`Json.NumberParts.text` writes the parts of a number, and the parts are scanned from that text wherever
something follows that does not belong to a number (`Json.scanNumber?_text`). Integers and
floating-point numbers are written from such parts: `Json.integerParts` and `Json.floatParts` are theirs.
What the written parts of an integer in range stand for is the integer.
-/

set_option autoImplicit false

namespace RecordCoercion

/-- The numeral of a number other than zero starts with another digit. -/
theorem head?_numeral_ne_zero {n : Nat} (hn : n ≠ 0) : (numeral n).head? ≠ some '0' := by
  intro hhead
  obtain ⟨rest, hrest⟩ : ∃ rest, numeral n = '0' :: rest := by
    cases h : numeral n with
    | nil => exact absurd h (numeral_ne_nil n)
    | cons c rest =>
      rw [h] at hhead
      obtain rfl : c = '0' := Option.some.inj hhead
      exact ⟨rest, rfl⟩
  have hdigits : ∀ c ∈ rest, c.isDigit = true := by
    intro c hc
    exact isDigit_of_mem_numeral (n := n) (by rw [hrest]; exact List.mem_cons_of_mem _ hc)
  have hvalue : n = numeralValue rest := by
    have happend := numeralValue_append ['0'] rest
    rw [show numeralValue ['0'] = 0 from rfl, Nat.mul_zero, Nat.zero_add] at happend
    rw [← numeralValue_numeral n, hrest]
    exact happend
  have hlt : n < 10 ^ rest.length := by
    rw [hvalue]
    exact numeralValue_lt hdigits
  cases hlength : rest.length with
  | zero => rw [hlength] at hlt; omega
  | succ k =>
    -- a numeral is no longer than its number needs
    have hle : (numeral n).length ≤ k + 1 :=
      (Nat.length_toDigits_le_iff (by decide) (Nat.succ_pos k)).mpr (by rwa [hlength] at hlt)
    rw [hrest, List.length_cons, hlength] at hle
    omega

namespace Json

/-- What follows does not go on with a number. -/
def EndsNumber (rest : List Char) : Prop :=
  ∀ c ∈ rest.head?, c.isDigit = false ∧ c ≠ '.' ∧ c ≠ 'e' ∧ c ≠ 'E'

namespace NumberParts

/-- The written form of a fraction. -/
def fractionText : Option (List Char) → List Char
  | none => []
  | some digits => '.' :: digits

/-- The written form of an exponent. -/
def exponentText : Option Int → List Char
  | none => []
  | some e => 'e' :: signedNumeral e

/-- The written form of the parts of a number. -/
def text (parts : NumberParts) : List Char :=
  (if parts.negative then ['-'] else []) ++
    (parts.whole ++ (fractionText parts.fraction ++ exponentText parts.exponent))

/-- The digits of the parts are digits, no part is empty, and there is no superfluous zero in
front. -/
structure IsWritten (parts : NumberParts) : Prop where
  whole_ne_nil : parts.whole ≠ []
  isDigit_whole : ∀ c ∈ parts.whole, c.isDigit = true
  noLeadingZero : parts.whole.head? = some '0' → parts.whole = ['0']
  fraction : ∀ digits ∈ parts.fraction, digits ≠ [] ∧ ∀ c ∈ digits, c.isDigit = true

end NumberParts

/-- Digits are read up to the first character that is none. -/
theorem scanDigits?_append {digits rest : List Char} (hne : digits ≠ [])
    (hdigits : ∀ c ∈ digits, c.isDigit = true) (hrest : ∀ c ∈ rest.head?, c.isDigit = false) :
    scanDigits? (digits ++ rest) = some (digits, rest) := by
  obtain ⟨first, others, rfl⟩ := List.exists_cons_of_ne_nil hne
  rw [scanDigits?, splitDigits_append hdigits hrest]

/-- Digits are read as a whole part unless they start with a superfluous zero. -/
theorem scanWhole?_append {digits rest : List Char} (hne : digits ≠ [])
    (hdigits : ∀ c ∈ digits, c.isDigit = true) (hzero : digits.head? = some '0' → digits = ['0'])
    (hrest : ∀ c ∈ rest.head?, c.isDigit = false) :
    scanWhole? (digits ++ rest) = some (digits, rest) := by
  rw [scanWhole?, scanDigits?_append hne hdigits hrest]
  split
  · next heq =>
    obtain ⟨rfl, -⟩ := Prod.mk.inj (Option.some.inj heq)
    cases hzero rfl
  · rfl

/-- A text that starts with a digit starts with no sign. -/
theorem splitSign_cons_of_isDigit {c : Char} (hc : c.isDigit = true) (text : List Char) :
    splitSign (c :: text) = (false, c :: text) ∧ splitMinus (c :: text) = (false, c :: text) := by
  unfold splitSign splitMinus
  constructor <;> split <;> simp_all +decide

/-- A signed numeral is scanned as an exponent. -/
theorem scanSignedExponent?_append (n : Int) {rest : List Char}
    (hrest : ∀ c ∈ rest.head?, c.isDigit = false) :
    scanSignedExponent? (signedNumeral n ++ rest) = some (some n, rest) := by
  have hscan : scanDigits? (numeral n.natAbs ++ rest) = some (numeral n.natAbs, rest) :=
    scanDigits?_append (numeral_ne_nil _) (fun _ => isDigit_of_mem_numeral) hrest
  rw [scanSignedExponent?]
  by_cases hneg : n < 0
  · have hsign : splitSign (signedNumeral n ++ rest) = (true, numeral n.natAbs ++ rest) := by
      rw [signedNumeral, if_pos hneg]
      rfl
    have habs : -(n.natAbs : Int) = n := by omega
    simp only [hsign, hscan, Option.map_some, numeralValue_numeral, if_true, habs]
  · obtain ⟨c, digits, hdigits⟩ := List.exists_cons_of_ne_nil (numeral_ne_nil n.natAbs)
    have hc : c.isDigit = true := isDigit_of_mem_numeral (n := n.natAbs) (by simp [hdigits])
    have hsign : splitSign (signedNumeral n ++ rest) = (false, numeral n.natAbs ++ rest) := by
      rw [signedNumeral, if_neg hneg, hdigits]
      exact (splitSign_cons_of_isDigit hc _).1
    have habs : (n.natAbs : Int) = n := by omega
    simp only [hsign, hscan, Option.map_some, numeralValue_numeral, Bool.false_eq_true, if_false,
      habs]

/-- The text of an exponent is read as the exponent. -/
theorem scanExponent?_text (exponent : Option Int) {rest : List Char} (hrest : EndsNumber rest) :
    scanExponent? (NumberParts.exponentText exponent ++ rest) = some (exponent, rest) := by
  cases exponent with
  | none =>
    change scanExponent? rest = _
    unfold scanExponent?
    split
    · exact absurd rfl (hrest 'e' rfl).2.2.1
    · exact absurd rfl (hrest 'E' rfl).2.2.2
    · rfl
  | some e => exact scanSignedExponent?_append e fun c hc => (hrest c hc).1

/-- Neither an exponent nor what follows a number starts with a digit or a point. -/
theorem head?_exponentText_append {exponent : Option Int} {rest : List Char}
    (hrest : EndsNumber rest) :
    ∀ c ∈ (NumberParts.exponentText exponent ++ rest).head?, c.isDigit = false ∧ c ≠ '.' := by
  cases exponent with
  | none => exact fun c hc => ⟨(hrest c hc).1, (hrest c hc).2.1⟩
  | some e =>
    intro c hc
    obtain rfl : 'e' = c := Option.some.inj hc
    decide

/-- The text of a fraction is read as its digits. -/
theorem scanFraction?_text {fraction : Option (List Char)}
    (hfraction : ∀ digits ∈ fraction, digits ≠ [] ∧ ∀ c ∈ digits, c.isDigit = true)
    {after : List Char} (hafter : ∀ c ∈ after.head?, c.isDigit = false ∧ c ≠ '.') :
    scanFraction? (NumberParts.fractionText fraction ++ after) = some (fraction, after) := by
  cases fraction with
  | none =>
    change scanFraction? after = _
    unfold scanFraction?
    split
    · exact absurd rfl (hafter '.' rfl).2
    · rfl
  | some digits =>
    obtain ⟨hne, hdigits⟩ := hfraction digits rfl
    change (scanDigits? (digits ++ after)).map _ = _
    rw [scanDigits?_append hne hdigits fun c hc => (hafter c hc).1]
    rfl

/-- The parts of a number are scanned from their text. -/
theorem scanNumber?_text {parts : NumberParts} (h : parts.IsWritten) {rest : List Char}
    (hrest : EndsNumber rest) : scanNumber? (parts.text ++ rest) = some (parts, rest) := by
  obtain ⟨negative, whole, fraction, exponent⟩ := parts
  obtain ⟨hne, hdigits, hzero, hfraction⟩ := h
  dsimp only at hne hdigits hzero hfraction
  have hexponent := scanExponent?_text exponent hrest
  have hafter : ∀ c ∈ (NumberParts.exponentText exponent ++ rest).head?,
      c.isDigit = false ∧ c ≠ '.' := head?_exponentText_append hrest
  have hfractions := scanFraction?_text hfraction hafter
  have hwhole : scanWhole? (whole ++ (NumberParts.fractionText fraction ++
      (NumberParts.exponentText exponent ++ rest))) =
      some (whole, NumberParts.fractionText fraction ++
        (NumberParts.exponentText exponent ++ rest)) := by
    refine scanWhole?_append hne hdigits hzero ?_
    cases fraction with
    | none => exact fun c hc => (hafter c hc).1
    | some digits =>
      intro c hc
      obtain rfl : '.' = c := Option.some.inj hc
      decide
  have hminus : splitMinus ((NumberParts.mk negative whole fraction exponent).text ++ rest) =
      (negative, whole ++ (NumberParts.fractionText fraction ++
        (NumberParts.exponentText exponent ++ rest))) := by
    simp only [NumberParts.text, List.append_assoc]
    cases negative with
    | true => rfl
    | false =>
      obtain ⟨c, others, rfl⟩ := List.exists_cons_of_ne_nil hne
      exact (splitSign_cons_of_isDigit (hdigits c List.mem_cons_self) _).2
  simp only [scanNumber?, hminus, hwhole, hfractions, hexponent, Option.bind_eq_bind,
    Option.bind_some, Option.pure_def]

/-! ## Integers -/

/-- The parts of an integer. -/
def integerParts (n : Int) : NumberParts := ⟨n < 0, numeral n.natAbs, none, none⟩

/-- The parts of an integer are written as its numeral. -/
theorem text_integerParts (n : Int) : (integerParts n).text = signedNumeral n := by
  simp [NumberParts.text, integerParts, signedNumeral, NumberParts.fractionText,
    NumberParts.exponentText]
  split <;> rfl

/-- The only numeral that starts with a zero is that of zero. -/
theorem noLeadingZero_numeral (n : Nat) (h : (numeral n).head? = some '0') :
    numeral n = ['0'] := by
  by_cases hn : n = 0
  · rw [hn]
    rfl
  · exact absurd h (head?_numeral_ne_zero hn)

/-- The parts of an integer are those of a written number. -/
theorem isWritten_integerParts (n : Int) : (integerParts n).IsWritten where
  whole_ne_nil := numeral_ne_nil _
  isDigit_whole := fun _ => isDigit_of_mem_numeral
  noLeadingZero := noLeadingZero_numeral _
  fraction := by
    intro digits hdigits
    cases hdigits

/-- Digits are taken into the significand as long as it fits. -/
theorem fillSignificand_eq {digits : List Char} {significand : Nat}
    (h : 10 ^ digits.length * significand + numeralValue digits < UInt64.size) :
    fillSignificand significand digits =
      (10 ^ digits.length * significand + numeralValue digits, []) := by
  induction digits generalizing significand with
  | nil => simp [fillSignificand, numeralValue]
  | cons c digits ih =>
    have hsplit : 10 ^ (c :: digits).length * significand + numeralValue (c :: digits) =
        10 ^ digits.length * (numeralValue [c] + 10 * significand) + numeralValue digits := by
      have happend := numeralValue_append [c] digits
      rw [List.singleton_append] at happend
      rw [happend, List.length_cons, Nat.pow_succ]
      ring
    rw [hsplit] at h ⊢
    have hnext : numeralValue [c] + 10 * significand < UInt64.size := by
      refine Nat.lt_of_le_of_lt ?_ h
      exact Nat.le_add_right_of_le (Nat.le_mul_of_pos_left _ (Nat.pow_pos (by decide)))
    rw [fillSignificand]
    simp only [if_pos hnext]
    exact ih h

/-- Digits that fit a significand are an integer. -/
theorem value?_of_lt (negative : Bool) {digits : List Char} (h : numeralValue digits < UInt64.size) :
    (⟨negative, digits, none, none⟩ : NumberParts).value? =
      some (integerOf negative (numeralValue digits)) := by
  have hvalue : 10 ^ digits.length * 0 + numeralValue digits = numeralValue digits := by
    rw [Nat.mul_zero, Nat.zero_add]
  have hfill : fillSignificand 0 digits = (numeralValue digits, []) := by
    rw [fillSignificand_eq (by rwa [hvalue]), hvalue]
  simp only [NumberParts.value?, hfill]

/-- An integer in range is the value of its parts. -/
theorem value?_integerParts {n : Int} (h : integers.contains n = true) :
    (integerParts n).value? = some (.integer n) := by
  obtain ⟨hlow, hhigh⟩ := (IntRange.contains_iff _ _).mp h
  have hfits : numeralValue (numeral n.natAbs) < UInt64.size := by
    rw [numeralValue_numeral]
    simp only [integers] at hlow hhigh
    have hsize : UInt64.size = 18446744073709551616 := rfl
    omega
  rw [integerParts, value?_of_lt _ hfits, numeralValue_numeral, integerOf]
  by_cases hneg : n < 0
  · have habs : -(n.natAbs : Int) = n := by omega
    have hpos : 0 < n.natAbs := by omega
    rw [habs, h]
    simp only [hneg, hpos, decide_true, Bool.not_true, Bool.and_true, Bool.false_eq_true, if_true,
      if_false]
  · have habs : (n.natAbs : Int) = n := by omega
    rw [habs]
    simp only [hneg, decide_false, Bool.not_false, if_true]

/-! ## Floating-point numbers -/

/-- The parts of digits with a plain decimal point at a position. -/
def plainParts (negative : Bool) (digits : List Char) (point : Int) : NumberParts :=
  if point ≤ 0 then ⟨negative, ['0'], some (List.replicate (-point).toNat '0' ++ digits), none⟩
  else if digits.length ≤ point.toNat then
    ⟨negative, digits ++ List.replicate (point.toNat - digits.length) '0', some ['0'], none⟩
  else ⟨negative, digits.take point.toNat, some (digits.drop point.toNat), none⟩

/-- The parts of digits as a mantissa with one digit before its point, and an exponent. -/
def scientificParts (negative : Bool) (digits : List Char) (point : Int) : NumberParts :=
  ⟨negative, digits.take 1, if digits.drop 1 = [] then none else some (digits.drop 1),
    some (point - 1)⟩

/-- The parts of a decimal in a layout. -/
def decimalParts (layout : FloatLayout) (negative : Bool) (d : Decimal) : NumberParts :=
  let point := Decimal.width d.coefficient + d.exponent
  if layout.lowestPoint ≤ point && point ≤ layout.highestPoint then
    plainParts negative (numeral d.coefficient) point
  else scientificParts negative (numeral d.coefficient) point

variable {f : BinaryFormat} {x : Binary f} {layout : FloatLayout}

/-- The parts of a finite number in a layout. -/
def floatParts (layout : FloatLayout) (x : Binary f) : NumberParts :=
  if x.isZero then ⟨x.negative, ['0'], some ['0'], none⟩
  else decimalParts layout x.negative (FloatLayout.normalize (x.shortest layout.tie))

/-- The parts with a plain point are written as the plain layout writes the digits. -/
theorem text_plainParts (negative : Bool) (digits : List Char) (point : Int) :
    (plainParts negative digits point).text =
      if negative then '-' :: FloatLayout.plain digits point else FloatLayout.plain digits point := by
  unfold plainParts FloatLayout.plain
  split
  · cases negative <;> simp [NumberParts.text, NumberParts.fractionText, NumberParts.exponentText]
  split <;> cases negative <;>
    simp [NumberParts.text, NumberParts.fractionText, NumberParts.exponentText]

section

variable (hmark : layout.exponentMark = 'e') (hwhole : layout.wholeMantissa = false)

include hmark hwhole

/-- The parts with an exponent are written as the scientific layout writes the digits. -/
theorem text_scientificParts (negative : Bool) (digits : List Char) (point : Int) :
    (scientificParts negative digits point).text =
      if negative then '-' :: layout.scientific digits point
      else layout.scientific digits point := by
  unfold scientificParts FloatLayout.scientific
  cases hdrop : digits.drop 1 <;> cases negative <;>
    simp [NumberParts.text, NumberParts.fractionText, NumberParts.exponentText, hmark, hwhole]

/-- The parts of a number are written as its text. -/
theorem text_floatParts (x : Binary f) : (floatParts layout x).text = layout.text x := by
  unfold floatParts FloatLayout.text
  by_cases hzero : x.isZero = true
  · rw [if_pos hzero, if_pos hzero]
    cases x.negative <;> rfl
  · rw [if_neg hzero, if_neg hzero]
    unfold decimalParts FloatLayout.decimal Decimal.width
    dsimp only
    split
    · exact text_plainParts _ _ _
    · exact text_scientificParts hmark hwhole _ _ _

end

section

variable {digits : List Char} (hne : digits ≠ []) (hdigits : ∀ c ∈ digits, c.isDigit = true)
  (hzero : digits.head? ≠ some '0')

include hne hdigits hzero

/-- The parts with a plain point are those of a written number. -/
theorem isWritten_plainParts (negative : Bool) (point : Int) :
    (plainParts negative digits point).IsWritten := by
  have hzeros : ∀ n, ∀ c ∈ List.replicate n '0', c.isDigit = true := isDigit_replicate_zero
  unfold plainParts
  split
  · refine ⟨List.cons_ne_nil _ _, hzeros 1, fun _ => rfl, ?_⟩
    rintro fraction ⟨rfl⟩
    exact ⟨by simp [hne], List.forall_mem_append.mpr ⟨hzeros _, hdigits⟩⟩
  split
  · refine ⟨by simp [hne], List.forall_mem_append.mpr ⟨hdigits, hzeros _⟩, ?_, ?_⟩
    · intro hhead
      rw [List.head?_append_of_ne_nil _ hne] at hhead
      exact absurd hhead hzero
    · rintro fraction ⟨rfl⟩
      exact ⟨List.cons_ne_nil _ _, hzeros 1⟩
  · next hpoint hlength =>
    refine ⟨by simp [hne]; omega, fun c hc => hdigits c (List.mem_of_mem_take hc), ?_, ?_⟩
    · intro hhead
      rw [List.head?_take, if_neg (by omega)] at hhead
      exact absurd hhead hzero
    · rintro fraction ⟨rfl⟩
      exact ⟨by simp; omega, fun c hc => hdigits c (List.mem_of_mem_drop hc)⟩

/-- The parts with an exponent are those of a written number. -/
theorem isWritten_scientificParts (negative : Bool) (point : Int) :
    (scientificParts negative digits point).IsWritten := by
  refine ⟨by simp [scientificParts, hne], fun c hc => hdigits c (List.mem_of_mem_take hc), ?_, ?_⟩
  · intro hhead
    rw [scientificParts, List.head?_take, if_neg (by omega)] at hhead
    exact absurd hhead hzero
  · intro fraction hfraction
    unfold scientificParts at hfraction
    dsimp only at hfraction
    split at hfraction
    · cases hfraction
    · next hdrop =>
      obtain rfl := Option.some.inj hfraction
      exact ⟨hdrop, fun c hc => hdigits c (List.mem_of_mem_drop hc)⟩

end

/-- The shortest decimal of a number other than zero has digits. -/
theorem coefficient_normalize_shortest_ne_zero (tie : TieRule) (hx : x.IsRegular) :
    (FloatLayout.normalize (x.shortest tie)).coefficient ≠ 0 := by
  have hrounds := Binary.roundsTo_shortest tie hx
  rw [← FloatLayout.value_normalize] at hrounds
  exact hrounds.coefficient_ne_zero hx.1

/-- A finite number that is not zero has shortest digits. -/
theorem isRegular_of_isFinite (hfinite : x.isFinite = true) (hzero : ¬ x.isZero = true) :
    x.IsRegular := by
  have hcode : x.code ≠ 0 := fun h => hzero (by simp [Binary.isZero, h])
  exact ⟨Nat.pos_of_ne_zero hcode, by simpa [Binary.isFinite] using hfinite⟩

/-- The parts of a finite number are those of a written number. -/
theorem isWritten_floatParts (layout : FloatLayout) (hfinite : x.isFinite = true) :
    (floatParts layout x).IsWritten := by
  unfold floatParts
  split
  · refine ⟨List.cons_ne_nil _ _, isDigit_replicate_zero 1, fun _ => rfl, ?_⟩
    rintro fraction ⟨rfl⟩
    exact ⟨List.cons_ne_nil _ _, isDigit_replicate_zero 1⟩
  · next hzero =>
    have hhead := head?_numeral_ne_zero
      (coefficient_normalize_shortest_ne_zero layout.tie (isRegular_of_isFinite hfinite hzero))
    unfold decimalParts
    dsimp only
    split
    · exact isWritten_plainParts (numeral_ne_nil _) (fun _ => isDigit_of_mem_numeral) hhead _ _
    · exact isWritten_scientificParts (numeral_ne_nil _) (fun _ => isDigit_of_mem_numeral) hhead _ _

end Json

end RecordCoercion
