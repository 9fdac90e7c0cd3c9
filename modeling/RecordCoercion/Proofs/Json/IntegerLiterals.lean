import RecordCoercion.Proofs.Json.FastDoubles
import RecordCoercion.Proofs.Json.Sources
import RecordCoercion.Proofs.Numeric.Literals

/-!
# Integers of a text that is read

A number that is written as an integer keeps its value wherever it stands in a text, if it lies in the
range `Json.integers` and is not minus zero (`Json.integer_literals_kept`). Minus zero becomes the
double of this name. An integer beyond the range has digits that do not fit a significand, or a sign and
digits that make no 64-bit integer, and in both cases the number is read as a double.
-/

set_option autoImplicit false

namespace RecordCoercion.Json

/-! ## The parts of an integer -/

/-- The parts of a number that is written as digits behind a sign, if any. -/
def wholeParts (negative : Bool) (digits : List (Fin 10)) : NumberParts :=
  ⟨negative, digitText digits, none, none⟩

/-- Digits are scanned at least as far as they are known to reach. -/
theorem length_after_of_scanDigits? {digits : List (Fin 10)} {rest whole after : List Char}
    (h : scanDigits? (digitText digits ++ rest) = some (whole, after)) :
    after.length ≤ rest.length := by
  have hdrop : (splitDigits (digitText digits ++ rest)).2 = rest.dropWhile Char.isDigit :=
    List.dropWhile_append_of_pos isDigit_of_mem_digitText
  unfold scanDigits? at h
  split at h
  · cases h
  · rw [Option.some.inj h] at hdrop
    obtain rfl : after = rest.dropWhile Char.isDigit := hdrop
    exact (List.dropWhile_suffix _).length_le

/-- The text of digits starts with a digit. -/
theorem exists_digitText_eq_cons {digits : List (Fin 10)} (h : digits ≠ []) :
    ∃ c others, digitText digits = c :: others ∧ c.isDigit = true := by
  obtain ⟨c, others, htext⟩ := List.exists_cons_of_ne_nil (digitText_eq_nil_iff.not.mpr h)
  exact ⟨c, others, htext, isDigit_of_mem_digitText c (by rw [htext]; exact List.mem_cons_self)⟩

/-- The sign that is split off a text of an integer is the minus sign of it. -/
theorem splitMinus_text_append {n : IntegerLiteral} (hplus : n.sign ≠ .plus) (rest : List Char) :
    splitMinus (n.text ++ rest) = (n.sign.negative, digitText n.digits ++ rest) := by
  obtain ⟨sign, digits, hne⟩ := n
  rw [IntegerLiteral.text, List.append_assoc]
  cases sign with
  | plus => exact absurd rfl hplus
  | minus => rfl
  | absent =>
    obtain ⟨c, others, htext, hc⟩ := exists_digitText_eq_cons hne
    dsimp only
    rw [htext]
    exact (splitSign_cons_of_isDigit hc _).2

/-- A number that takes exactly the text of an integer has the parts of it. -/
theorem parts_of_scanNumber? {n : IntegerLiteral} {rest last : List Char} {parts : NumberParts}
    (h : scanNumber? (n.text ++ rest) = some (parts, last)) (hlength : last.length = rest.length) :
    parts = wholeParts n.sign.negative n.digits := by
  obtain ⟨after, hdigits, hnegative, hafter⟩ := exists_of_scanNumber? h
  have hplus : n.sign ≠ .plus := by
    intro hplus
    rw [IntegerLiteral.text, hplus] at hdigits
    cases hdigits
  rw [splitMinus_text_append hplus] at hdigits hnegative
  have hle := length_after_of_scanDigits? hdigits
  rcases hafter with ⟨hfraction, hexponent, rfl⟩ | hlt
  · obtain ⟨htext, -⟩ := of_scanDigits? hdigits
    obtain ⟨hwhole, -⟩ := List.append_inj' htext hlength.symm
    obtain ⟨negative, whole, fraction, exponent⟩ := parts
    dsimp only at hnegative hfraction hexponent hwhole
    rw [wholeParts, hnegative, hfraction, hexponent, hwhole]
  · omega

/-- A sign or a digit starts a number and no other token. -/
theorem scanToken?_cons_of_number {c : Char} (hc : c = '-' ∨ c = '+' ∨ c.isDigit = true)
    (text : List Char) :
    scanToken? (c :: text) = (scanNumber? (c :: text)).map fun (parts, rest) =>
      (.scalar (parts.value?.getD .unreadable), (c :: text).length - rest.length) := by
  have hnot : ∀ other : Char, other ≠ '-' → other ≠ '+' → other.isDigit = false → c ≠ other := by
    rintro other hminus hplus hdigit rfl
    rcases hc with rfl | rfl | hc
    · exact hminus rfl
    · exact hplus rfl
    · rw [hdigit] at hc
      cases hc
  have hn := hnot 'n' (by decide) (by decide) (by decide)
  have ht := hnot 't' (by decide) (by decide) (by decide)
  have hf := hnot 'f' (by decide) (by decide) (by decide)
  rw [scanToken?]
  · -- no word starts like a number
    cases scanNumber? (c :: text) <;> simp [words, List.isPrefixOf, hn.symm, ht.symm, hf.symm]
  · exact List.cons_ne_nil _ _
  -- none of the other first characters starts a number
  all_goals
    rintro _ ⟨⟩
    exact absurd rfl (hnot _ (by decide) (by decide) (by decide))

/-- The text of an integer starts with a sign or a digit. -/
theorem exists_integerText_eq_cons (n : IntegerLiteral) :
    ∃ c text, n.text = c :: text ∧ (c = '-' ∨ c = '+' ∨ c.isDigit = true) := by
  obtain ⟨sign, digits, hne⟩ := n
  cases sign with
  | minus => exact ⟨'-', _, rfl, .inl rfl⟩
  | plus => exact ⟨'+', _, rfl, .inr (.inl rfl)⟩
  | absent =>
    obtain ⟨c, others, htext, hc⟩ := exists_digitText_eq_cons hne
    exact ⟨c, others, htext, .inr (.inr hc)⟩

/-- A token that takes exactly the text of an integer has the value of its parts. -/
theorem value_of_scanToken? {n : IntegerLiteral} {rest : List Char} {value : Json}
    (h : scanToken? (n.text ++ rest) = some (.scalar value, n.text.length)) :
    value = (wholeParts n.sign.negative n.digits).value?.getD .unreadable := by
  obtain ⟨c, text, htext, hc⟩ := exists_integerText_eq_cons n
  have hscan : (scanNumber? (n.text ++ rest)).map (fun (parts, after) =>
      (Token.scalar (parts.value?.getD .unreadable), (n.text ++ rest).length - after.length)) =
      some (.scalar value, n.text.length) := by
    rw [htext, List.cons_append] at h ⊢
    rw [← scanToken?_cons_of_number hc, h]
  obtain ⟨⟨parts, after⟩, hnumber, hpair⟩ := Option.map_eq_some_iff.mp hscan
  obtain ⟨hvalue, hlength⟩ := Prod.mk.inj hpair
  obtain rfl := Token.scalar.inj hvalue
  have hlt := length_of_scanNumber? hnumber
  rw [List.length_append] at hlength hlt
  rw [parts_of_scanNumber? hnumber (by omega)]

/-! ## The value of an integer -/

/-- A significand that leaves no digit is the number of all of them. -/
theorem of_fillSignificand_nil {digits : List Char} {significand filled : Nat}
    (h : fillSignificand significand digits = (filled, [])) (hfits : significand < UInt64.size) :
    filled = 10 ^ digits.length * significand + numeralValue digits ∧ filled < UInt64.size := by
  induction digits generalizing significand with
  | nil =>
    cases h
    exact ⟨by simp [numeralValue], hfits⟩
  | cons c digits ih =>
    rw [fillSignificand] at h
    split at h
    · next hnext =>
      obtain ⟨hfilled, hlt⟩ := ih h hnext
      refine ⟨?_, hlt⟩
      have happend := numeralValue_append [c] digits
      rw [List.singleton_append] at happend
      rw [hfilled, happend, List.length_cons, Nat.pow_succ]
      ring
    · cases h

/-- Digits that fit a significand are an integer. -/
theorem value?_wholeParts_of_lt (negative : Bool) {digits : List (Fin 10)}
    (h : digitValue digits < UInt64.size) :
    (wholeParts negative digits).value? = some (integerOf negative (digitValue digits)) := by
  rw [← numeralValue_digitText] at h ⊢
  exact value?_of_lt negative h

/-- Digits that do not fit a significand are a double, if anything. -/
theorem value?_wholeParts_of_ge (negative : Bool) {digits : List (Fin 10)}
    (h : UInt64.size ≤ digitValue digits) :
    ∃ significand exponent,
      (wholeParts negative digits).value? = floatOf? negative significand exponent := by
  obtain ⟨filled, dropped, hfill⟩ : ∃ filled dropped,
      fillSignificand 0 (digitText digits) = (filled, dropped) := ⟨_, _, rfl⟩
  cases dropped with
  | nil =>
    obtain ⟨hfilled, hlt⟩ := of_fillSignificand_nil hfill (by decide)
    rw [numeralValue_digitText, Nat.mul_zero, Nat.zero_add] at hfilled
    omega
  | cons c dropped =>
    simp only [NumberParts.value?, wholeParts, hfill]
    exact ⟨_, _, rfl⟩

/-- What is written as zero behind a minus sign. -/
def IsMinusZero (n : IntegerLiteral) : Prop := n.sign.negative = true ∧ n.value = 0

section

variable {n : IntegerLiteral}

/-- The digits of an integer in the range of documents fit 64 bits. -/
theorem lt_of_contains (h : integers.contains n.value = true) : digitValue n.digits < UInt64.size := by
  obtain ⟨hlow, hhigh⟩ := (IntRange.contains_iff _ _).mp h
  have hsize : UInt64.size = 18446744073709551616 := rfl
  simp only [integers] at hlow hhigh
  have hvalue : n.value.natAbs = digitValue n.digits := by
    unfold IntegerLiteral.value
    split <;> omega
  omega

/-- An integer in range is kept unless it is minus zero. -/
theorem integerOf_of_contains (h : integers.contains n.value = true) (hzero : ¬IsMinusZero n) :
    integerOf n.sign.negative (digitValue n.digits) = .integer n.value := by
  unfold integerOf
  by_cases hnegative : n.sign.negative = true
  · have hvalue : n.value = -(digitValue n.digits : Int) := by
      rw [IntegerLiteral.value, if_pos hnegative]
    have hpos : 0 < digitValue n.digits := by
      have hne : n.value ≠ 0 := fun h0 => hzero ⟨hnegative, h0⟩
      omega
    rw [hvalue] at h ⊢
    simp only [hnegative, hpos, h, Bool.not_true, Bool.false_eq_true, if_false, decide_true,
      Bool.and_true, if_true]
  · have hvalue : n.value = (digitValue n.digits : Int) := by
      rw [IntegerLiteral.value, if_neg hnegative]
    rw [hvalue, if_pos (by simpa using hnegative)]

/-- Minus zero is read as the floating-point number. -/
theorem integerOf_of_isMinusZero (h : IsMinusZero n) :
    integerOf n.sign.negative (digitValue n.digits) = .float (Binary.ofInt binary64 0).neg := by
  obtain ⟨hnegative, hvalue⟩ := h
  rw [IntegerLiteral.value, if_pos hnegative] at hvalue
  have hzero : digitValue n.digits = 0 := by omega
  rw [hnegative, hzero]
  rfl

/-- What fits a significand and is out of range has a minus sign and is a double. -/
theorem exists_integerOf_eq_float (hfits : digitValue n.digits < UInt64.size)
    (h : ¬integers.contains n.value = true) :
    ∃ x, integerOf n.sign.negative (digitValue n.digits) = .float x := by
  have hsize : UInt64.size = 18446744073709551616 := rfl
  have hnegative : n.sign.negative = true := by
    by_contra hpositive
    apply h
    rw [IntegerLiteral.value, if_neg hpositive, IntRange.contains_iff]
    simp only [integers]
    omega
  rw [IntegerLiteral.value, if_pos hnegative] at h
  refine ⟨(Binary.ofInt binary64 (digitValue n.digits)).neg, ?_⟩
  simp [integerOf, hnegative, h]

/-- A written integer is read as itself if it is in range and not minus zero, and as a double if not. -/
theorem value_of_integer {rest : List Char} {value : Json}
    (hscan : scanToken? (n.text ++ rest) = some (.scalar value, n.text.length))
    (hreadable : value.isReadable = true) :
    (integers.contains n.value = true → ¬IsMinusZero n → value = .integer n.value) ∧
      (IsMinusZero n → value = .float (Binary.ofInt binary64 0).neg) ∧
      (¬integers.contains n.value = true → ∃ x, value = .float x) := by
  have hvalue := value_of_scanToken? hscan
  by_cases hfits : digitValue n.digits < UInt64.size
  · rw [value?_wholeParts_of_lt _ hfits, Option.getD_some] at hvalue
    rw [hvalue]
    exact ⟨integerOf_of_contains, integerOf_of_isMinusZero, exists_integerOf_eq_float hfits⟩
  · have hcontains : ¬integers.contains n.value = true := fun h => hfits (lt_of_contains h)
    have hzero : ¬IsMinusZero n := by
      intro h
      apply hcontains
      rw [h.2]
      rfl
    obtain ⟨significand, exponent, hfloat⟩ :=
      value?_wholeParts_of_ge n.sign.negative (Nat.le_of_not_lt hfits)
    refine ⟨fun h => absurd h hcontains, fun h => absurd h hzero, fun _ => ?_⟩
    rw [hfloat, floatOf?] at hvalue
    cases hdouble : timesPowerOfTen? (.ofInt binary64 significand) exponent with
    | none =>
      rw [hdouble] at hvalue
      rw [hvalue] at hreadable
      cases hreadable
    | some x =>
      rw [hdouble] at hvalue
      exact ⟨_, hvalue⟩

end

/-! ## Integers inside a text -/

/-- The value of an integer is a 64-bit integer if it fits and an unbounded one if not. -/
theorem ofDocument_integer (n : Int) :
    (IntRange.bits64.contains n = true →
        ∃ k : Int64, k.toInt = n ∧ Value.ofDocument (.integer n) = .long k) ∧
      (¬IntRange.bits64.contains n = true → Value.ofDocument (.integer n) = .bigInt n) := by
  rw [Value.ofDocument]
  constructor
  · intro h
    obtain ⟨hlow, hhigh⟩ := (IntRange.contains_iff _ _).mp h
    rw [if_pos h]
    exact ⟨.ofInt n, Int64.toInt_ofInt_of_le hlow (Int.lt_add_one_of_le hhigh), rfl⟩
  · intro h
    rw [if_neg h]

/-- What a text is read as at all of its places. A text that is read has a source, and the places of
any source of it are the places of the value. Where a number is written as an integer, the value is this
integer if it is in range and not minus zero: a 64-bit integer if it fits, and an unbounded one if not.
Minus zero and the integers out of range are doubles there. -/
theorem integer_literals_kept {text : String} {document : Json} (h : ofText? text = some document) :
    (∃ source : Source, source.IsOf text.toList) ∧
    ∀ source : Source, source.IsOf text.toList →
      (∀ place, ((Value.ofDocument document).at? place).isSome = (source.at? place).isSome) ∧
      ∀ place literal, source.at? place = some (.scalar literal) →
        ∀ n : IntegerLiteral, literal.text = n.text →
          ∃ v, (Value.ofDocument document).at? place = some v ∧
            (integers.contains n.value = true → ¬IsMinusZero n →
              (IntRange.bits64.contains n.value = true → ∃ k : Int64, k.toInt = n.value ∧ v = .long k) ∧
              (¬IntRange.bits64.contains n.value = true → v = .bigInt n.value)) ∧
            (IsMinusZero n → v = .double (Binary.ofInt binary64 0).neg) ∧
            (¬integers.contains n.value = true → ∃ x, v = .double x) := by
  refine ⟨exists_source h, ?_⟩
  intro source hsource
  have hreadable : document.isReadable = true := (Option.filter_eq_some_iff.mp h).2
  rw [← Source.document_eq hsource h] at hreadable ⊢
  have hvalue := Source.at?_ofDocument hsource.haveScalars
  refine ⟨?_, ?_⟩
  · intro place
    rw [hvalue, Option.isSome_map]
  · intro place literal hplace n htext
    obtain ⟨rest, hscan⟩ := Source.exists_scanToken?_of_at? hsource hplace
    rw [htext] at hscan
    obtain ⟨hkept, hzero, hdouble⟩ :=
      value_of_integer hscan (Source.isReadable_of_at? hplace hreadable)
    refine ⟨Value.ofDocument literal.value, ?_, ?_, ?_, ?_⟩
    · rw [hvalue, hplace]
      rfl
    · intro hcontains hminus
      rw [hkept hcontains hminus]
      exact ofDocument_integer n.value
    · intro hminus
      rw [hzero hminus]
      rfl
    · intro hcontains
      obtain ⟨x, hx⟩ := hdouble hcontains
      exact ⟨x, by rw [hx]; rfl⟩

/-- The largest integer that is kept. -/
def largestInteger : IntegerLiteral :=
  ⟨.absent, [1, 8, 4, 4, 6, 7, 4, 4, 0, 7, 3, 7, 0, 9, 5, 5, 1, 6, 1, 5], by decide⟩

/-- The largest integer that is kept, in an array inside another. -/
def largestSource : Source :=
  .array [.scalar ⟨['7'], .integer 7⟩,
    .array [.scalar ⟨"18446744073709551615".toList, .integer 18446744073709551615⟩]]

/-- The largest integer of 64 bits is kept two arrays deep. -/
theorem integer_literals_kept_of_largest :
    largestSource.IsOf "[7,[18446744073709551615]]".toList ∧
      ofText? "[7,[18446744073709551615]]" = some largestSource.document ∧
      (Value.ofDocument largestSource.document).at? [.item 1, .item 0] =
        some (.bigInt 18446744073709551615) := by
  have hvalue : (integerParts 18446744073709551615).value? = some (.integer 18446744073709551615) :=
    value?_integerParts (by decide)
  have hends : EndsNumber [']', ']'] :=
    endsNumber_cons (by decide) (by decide) (by decide) (by decide) [']']
  have hscan := scanToken?_text (isWritten_integerParts 18446744073709551615) hends
  have htext : (integerParts 18446744073709551615).text = "18446744073709551615".toList := by
    decide +kernel
  rw [hvalue, htext] at hscan
  have hsource : largestSource.IsOf "[7,[18446744073709551615]]".toList :=
    .of_take rfl rfl (.of_take rfl rfl (.of_take rfl rfl (.of_take rfl rfl
      (.of_take rfl hscan (.of_take rfl rfl (.of_take rfl rfl .done))))))
  have hread : ofText? "[7,[18446744073709551615]]" = some largestSource.document := by
    rw [ofText?, read?, hsource.tokens?_eq]
    rfl
  refine ⟨hsource, hread, ?_⟩
  obtain ⟨v, hv, hkept, -⟩ := ((integer_literals_kept hread).2 largestSource hsource).2
    [.item 1, .item 0] _ rfl largestInteger (by decide)
  have hwide := (hkept (by decide +kernel) (by rintro ⟨⟨⟩, -⟩)).2 (by decide +kernel)
  have hinteger : largestInteger.value = 18446744073709551615 := by decide +kernel
  rw [hv, hwide, hinteger]

/-- The next integer is read as a double, although a value could hold it. -/
theorem next_integer_not_kept :
    (ofText? "18446744073709551616").map Value.ofDocument =
      some (.double (.ofBits 0x43F0000000000000)) := by
  have hfill : fillSignificand 0 "18446744073709551616".toList = (1844674407370955161, ['6']) := by
    decide +kernel
  have hvalue : (⟨false, "18446744073709551616".toList, none, none⟩ : NumberParts).value? =
      floatOf? false 1844674407370955161 1 := by
    simp only [NumberParts.value?, hfill]
    rfl
  have hdouble : floatOf? false 1844674407370955161 1 = some (.float (.ofBits 0x43F0000000000000)) := by
    have htimes : timesPowerOfTen? (.ofInt binary64 1844674407370955161) 1 =
        some (.ofBits 0x43F0000000000000) :=
      timesPowerOfTen?_of_isFinite (by decide) (by decide) (by decide +kernel) (by decide +kernel)
    rw [floatOf?, Nat.cast_ofNat, htimes]
    rfl
  have hscan : scanToken? "18446744073709551616".toList =
      some (.scalar (.float (.ofBits 0x43F0000000000000)), 20) := by
    have hnumber : scanNumber? "18446744073709551616".toList =
        some (⟨false, "18446744073709551616".toList, none, none⟩, []) := rfl
    have hdigit : '1' = '-' ∨ '1' = '+' ∨ '1'.isDigit = true := by decide
    have htoken := scanToken?_cons_of_number hdigit "8446744073709551616".toList
    rw [show '1' :: "8446744073709551616".toList = "18446744073709551616".toList from rfl, hnumber,
      Option.map_some] at htoken
    dsimp only at htoken
    rw [hvalue, hdouble] at htoken
    exact htoken
  have hsource : (Source.scalar ⟨"18446744073709551616".toList,
      .float (.ofBits 0x43F0000000000000)⟩).IsOf "18446744073709551616".toList :=
    .of_take rfl hscan .done
  rw [ofText?, read?, hsource.tokens?_eq]
  rfl

end RecordCoercion.Json
