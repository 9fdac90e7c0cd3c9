import RecordCoercion.Proofs.Numeric.ShortestDecimal
import RecordCoercion.Proofs.Text.Runs

/-!
# Written numbers are read back

The text of a decimal, plain or with an exponent, is read as a decimal of the same value
(`FloatLayout.readDecimal?_decimal`), and the shortest decimal of a finite number is read as the
number. With the sign in front this gives `readFloat?_text`: every finite number of a format is read
back from its text, zero with its sign.
-/

set_option autoImplicit false

namespace RecordCoercion

/-! ## Reading the parts of a decimal -/

/-- An exponent part is empty or starts with its mark. -/
theorem mark_of_readExponent? {text : List Char} {e : Int} (h : readExponent? text = some e) :
    ∀ c ∈ text.head?, c = 'e' ∨ c = 'E' := by
  intro c hc
  cases text with
  | nil => cases hc
  | cons first rest =>
    obtain rfl : first = c := Option.some.inj hc
    unfold readExponent? at h
    split at h <;> simp_all

/-- The text of an exponent does not start with a digit. -/
theorem isDigit_of_readExponent? {text : List Char} {e : Int} (h : readExponent? text = some e) :
    ∀ c ∈ text.head?, c.isDigit = false := by
  intro c hc
  obtain rfl | rfl := mark_of_readExponent? h c hc <;> decide

/-- A text is split behind the digits at its front. -/
theorem splitDigits_append {digits rest : List Char} (hdigits : ∀ c ∈ digits, c.isDigit = true)
    (hrest : ∀ c ∈ rest.head?, c.isDigit = false) : splitDigits (digits ++ rest) = (digits, rest) := by
  obtain ⟨htake, hdrop⟩ := span_append hdigits hrest
  rw [splitDigits, htake, hdrop]

/-- A decimal without a point. -/
theorem readDecimal?_whole {whole after : List Char} {e : Int} (hne : whole ≠ [])
    (hwhole : ∀ c ∈ whole, c.isDigit = true) (hafter : readExponent? after = some e) :
    readDecimal? (whole ++ after) = some ⟨numeralValue whole, e⟩ := by
  have hsplit : splitDigits (whole ++ after) = (whole, after) :=
    splitDigits_append hwhole (isDigit_of_readExponent? hafter)
  have hfraction : splitFraction after = ([], after) := by
    cases after with
    | nil => rfl
    | cons c rest => obtain rfl | rfl := mark_of_readExponent? hafter c rfl <;> rfl
  simp [readDecimal?, hsplit, hfraction, hne, hafter]

/-- A decimal with digits on both sides of its point. -/
theorem readDecimal?_point {whole fraction after : List Char} {e : Int} (hne : whole ≠ [])
    (hwhole : ∀ c ∈ whole, c.isDigit = true) (hfraction : ∀ c ∈ fraction, c.isDigit = true)
    (hafter : readExponent? after = some e) :
    readDecimal? (whole ++ '.' :: (fraction ++ after)) =
      some ⟨numeralValue (whole ++ fraction), e - fraction.length⟩ := by
  have hsplit : splitDigits (whole ++ '.' :: (fraction ++ after)) =
      (whole, '.' :: (fraction ++ after)) :=
    splitDigits_append hwhole (by rintro c ⟨⟩; decide)
  have hpoint : splitFraction ('.' :: (fraction ++ after)) = (fraction, after) :=
    splitDigits_append hfraction (isDigit_of_readExponent? hafter)
  simp [readDecimal?, hsplit, hpoint, hne, hafter]

/-! ## The two forms of a decimal -/

namespace FloatLayout

variable {digits : List Char}

/-- A plain decimal denotes its digits at its point. -/
theorem readDecimal?_plain (hne : digits ≠ []) (hdigits : ∀ c ∈ digits, c.isDigit = true)
    (e : Int) :
    ∃ d, readDecimal? (plain digits (digits.length + e)) = some d ∧
      d.value = (⟨numeralValue digits, e⟩ : Decimal).value := by
  have hempty : readExponent? [] = some 0 := rfl
  have hzero : ∀ c ∈ ['0'], c.isDigit = true := isDigit_replicate_zero 1
  unfold plain
  split
  · -- all digits stand behind the point
    next hpoint =>
    generalize hn : (-(digits.length + e)).toNat = n
    have hfraction : ∀ c ∈ List.replicate n '0' ++ digits, c.isDigit = true :=
      List.forall_mem_append.mpr ⟨isDigit_replicate_zero n, hdigits⟩
    have hread := readDecimal?_point (List.cons_ne_nil '0' []) hzero hfraction hempty
    have hvalue : numeralValue (['0'] ++ (List.replicate n '0' ++ digits)) = numeralValue digits := by
      rw [numeralValue_append, numeralValue_append, numeralValue_replicate_zero,
        show numeralValue ['0'] = 0 from rfl]
      omega
    have hexponent : (0 : Int) - (List.replicate n '0' ++ digits).length = e := by
      rw [List.length_append, List.length_replicate]
      omega
    rw [hvalue, hexponent, List.append_nil] at hread
    exact ⟨_, hread, rfl⟩
  next hpoint =>
  split
  · -- all digits stand before the point
    next hlength =>
    generalize hn : (digits.length + e).toNat - digits.length = n
    have hwhole : ∀ c ∈ digits ++ List.replicate n '0', c.isDigit = true :=
      List.forall_mem_append.mpr ⟨hdigits, isDigit_replicate_zero n⟩
    have hread := readDecimal?_point (by simp [hne]) hwhole hzero hempty
    have hvalue : numeralValue (digits ++ List.replicate n '0' ++ ['0']) =
        numeralValue digits * 10 ^ (n + 1) := by
      rw [numeralValue_append, numeralValue_append, numeralValue_replicate_zero,
        List.length_replicate, show numeralValue ['0'] = 0 from rfl, Nat.pow_succ]
      simp only [List.length_singleton]
      ring
    have hexponent : (0 : Int) - ['0'].length = e - (n + 1 : Nat) := by
      rw [List.length_singleton]
      omega
    rw [hvalue, hexponent, List.append_nil] at hread
    exact ⟨_, hread, Decimal.value_shift _ _ _⟩
  · -- the point stands among the digits
    next hlength =>
    generalize hn : (digits.length + e).toNat = n at hlength
    have hwhole : ∀ c ∈ digits.take n, c.isDigit = true :=
      fun c hc => hdigits c (List.mem_of_mem_take hc)
    have hfraction : ∀ c ∈ digits.drop n, c.isDigit = true :=
      fun c hc => hdigits c (List.mem_of_mem_drop hc)
    have hread := readDecimal?_point (by simp [hne]; omega) hwhole hfraction hempty
    have hexponent : (0 : Int) - (digits.drop n).length = e := by
      rw [List.length_drop]
      omega
    rw [List.take_append_drop, hexponent, List.append_nil] at hread
    exact ⟨_, hread, rfl⟩

/-- A decimal with an exponent denotes its digits at its point. -/
theorem readDecimal?_scientific (layout : FloatLayout)
    (hmark : layout.exponentMark = 'e' ∨ layout.exponentMark = 'E') (hne : digits ≠ [])
    (hdigits : ∀ c ∈ digits, c.isDigit = true) (e : Int) :
    ∃ d, readDecimal? (layout.scientific digits (digits.length + e)) = some d ∧
      d.value = (⟨numeralValue digits, e⟩ : Decimal).value := by
  obtain ⟨first, rest, rfl⟩ := List.exists_cons_of_ne_nil hne
  generalize hn : ((first :: rest).length + e : Int) - 1 = n
  have hafter : readExponent? (layout.exponentMark :: signedNumeral n) = some n := by
    rcases hmark with hmark | hmark <;> rw [hmark] <;> exact readSigned?_signedNumeral n
  have hzero : ∀ c ∈ ['0'], c.isDigit = true := isDigit_replicate_zero 1
  obtain ⟨hdigit, hrest⟩ := List.forall_mem_cons.mp hdigits
  have hfirst : ∀ c ∈ [first], c.isDigit = true := List.forall_mem_singleton.mpr hdigit
  unfold scientific
  rw [hn]
  cases rest with
  | nil =>
    -- a single digit has a zero behind its point, or no point
    have hn : n = e := by
      rw [← hn, List.length_singleton]
      omega
    by_cases hwhole : layout.wholeMantissa = true
    · have hread := readDecimal?_point (List.cons_ne_nil first []) hfirst hzero hafter
      have hvalue : numeralValue ([first] ++ ['0']) = numeralValue [first] * 10 ^ 1 := by
        rw [numeralValue_append, show numeralValue ['0'] = 0 from rfl, Nat.mul_comm]
        rfl
      rw [hvalue, hn] at hread
      exact ⟨_, by simpa [hwhole, hn] using hread, Decimal.value_shift _ 1 _⟩
    · have hread := readDecimal?_whole (List.cons_ne_nil first []) hfirst hafter
      rw [hn] at hread
      exact ⟨_, by simpa [hwhole, hn] using hread, rfl⟩
  | cons second rest =>
    have hread := readDecimal?_point (List.cons_ne_nil first []) hfirst hrest hafter
    have hexponent : n - (second :: rest).length = e := by
      rw [← hn, List.length_cons, List.length_cons]
      omega
    rw [hexponent] at hread
    exact ⟨_, hread, rfl⟩

/-- The text of a decimal denotes its value. -/
theorem readDecimal?_decimal (layout : FloatLayout)
    (hmark : layout.exponentMark = 'e' ∨ layout.exponentMark = 'E') (d : Decimal) :
    ∃ d', readDecimal? (layout.decimal d) = some d' ∧ d'.value = d.value := by
  have hne := numeral_ne_nil d.coefficient
  have hdigits : ∀ c ∈ numeral d.coefficient, c.isDigit = true := fun _ => isDigit_of_mem_numeral
  have hvalue : (⟨numeralValue (numeral d.coefficient), d.exponent⟩ : Decimal) = d := by
    rw [numeralValue_numeral]
  unfold decimal
  dsimp only
  split
  · obtain ⟨d', hread, hd'⟩ := readDecimal?_plain hne hdigits d.exponent
    exact ⟨d', hread, by rw [hd', hvalue]⟩
  · obtain ⟨d', hread, hd'⟩ := readDecimal?_scientific layout hmark hne hdigits d.exponent
    exact ⟨d', hread, by rw [hd', hvalue]⟩

/-- Carrying ten into the exponent keeps the value. -/
theorem value_normalize (d : Decimal) : (normalize d).value = d.value := by
  unfold normalize
  split
  · next hten =>
    have hshift := Decimal.value_shift 1 1 (d.exponent + 1)
    rw [show 1 * 10 ^ 1 = d.coefficient by omega, Nat.cast_one, Int.add_sub_cancel] at hshift
    exact hshift.symm
  · rfl

/-! ## Characters of a written number -/

/-- A plain decimal is made of digits and a point. -/
theorem isDigit_or_eq_of_mem_plain (hdigits : ∀ c ∈ digits, c.isDigit = true) (point : Int) :
    ∀ c ∈ plain digits point, c.isDigit = true ∨ c = '.' := by
  have hzeros : ∀ n, ∀ c ∈ List.replicate n '0', c.isDigit = true ∨ c = '.' :=
    fun n c hc => .inl (isDigit_replicate_zero n c hc)
  unfold plain
  split
  · simp only [List.forall_mem_cons, List.cons_append, List.forall_mem_append]
    exact ⟨.inl (by decide), .inr trivial, hzeros _, fun c hc => .inl (hdigits c hc)⟩
  split
  · simp only [List.forall_mem_append, List.forall_mem_cons]
    exact ⟨⟨fun c hc => .inl (hdigits c hc), hzeros _⟩, .inr trivial, .inl (by decide), by simp⟩
  · simp only [List.forall_mem_append, List.forall_mem_cons]
    exact ⟨fun c hc => .inl (hdigits c (List.mem_of_mem_take hc)), .inr trivial,
      fun c hc => .inl (hdigits c (List.mem_of_mem_drop hc))⟩

/-- The characters of the text of a decimal. -/
def IsNumberChar (layout : FloatLayout) (c : Char) : Prop :=
  c.isDigit = true ∨ c = '.' ∨ c = '-' ∨ c = layout.exponentMark

/-- Digits with an exponent are written in the characters of a number. -/
theorem isNumberChar_scientific (layout : FloatLayout) (hdigits : ∀ c ∈ digits, c.isDigit = true)
    (point : Int) : ∀ c ∈ layout.scientific digits point, layout.IsNumberChar c := by
  have hpoint : layout.IsNumberChar '.' := .inr (.inl rfl)
  have hexponent : ∀ n, ∀ c ∈ signedNumeral n, layout.IsNumberChar c := by
    intro n c hc
    obtain hdigit | hminus := isDigit_or_eq_of_mem_signedNumeral hc
    · exact .inl hdigit
    · exact .inr (.inr (.inl hminus))
  have hdrop : ∀ c ∈ digits.drop 1, c.isDigit = true := fun c hc => hdigits c (List.mem_of_mem_drop hc)
  unfold scientific
  simp only [List.forall_mem_append, List.forall_mem_cons]
  refine ⟨⟨fun c hc => .inl (hdigits c (List.mem_of_mem_take hc)), ?_⟩, .inr (.inr (.inr rfl)),
    hexponent _⟩
  split
  · split
    · simp only [List.forall_mem_cons]
      exact ⟨hpoint, .inl (by decide), by simp⟩
    · simp
  · simp only [List.forall_mem_cons]
    exact ⟨hpoint, fun c hc => .inl (hdrop c hc)⟩

/-- A decimal is written in the characters of a number. -/
theorem isNumberChar_decimal (layout : FloatLayout) (d : Decimal) :
    ∀ c ∈ layout.decimal d, layout.IsNumberChar c := by
  have hdigits : ∀ c ∈ numeral d.coefficient, c.isDigit = true := fun _ => isDigit_of_mem_numeral
  unfold decimal
  dsimp only
  split
  · intro c hc
    exact (isDigit_or_eq_of_mem_plain hdigits _ c hc).imp id .inl
  · exact isNumberChar_scientific layout hdigits _

/-- No blank is among them. -/
theorem IsNumberChar.isBlank {layout : FloatLayout} {c : Char}
    (hmark : layout.exponentMark = 'e' ∨ layout.exponentMark = 'E') (h : layout.IsNumberChar c) :
    isBlank c = false := by
  obtain hdigit | rfl | rfl | rfl := h
  · exact isBlank_of_isDigit hdigit
  · decide
  · decide
  · rcases hmark with hmark | hmark <;> rw [hmark] <;> decide

/-- An exponent is written exactly where the point is not among the plain positions. -/
theorem exponentMark_mem_decimal_iff (layout : FloatLayout)
    (hmark : layout.exponentMark = 'e' ∨ layout.exponentMark = 'E') (d : Decimal) :
    layout.exponentMark ∈ layout.decimal d ↔
      ¬ (layout.lowestPoint ≤ Decimal.width d.coefficient + d.exponent ∧
        Decimal.width d.coefficient + d.exponent ≤ layout.highestPoint) := by
  have hdigits : ∀ c ∈ numeral d.coefficient, c.isDigit = true := fun _ => isDigit_of_mem_numeral
  simp only [decimal, Bool.and_eq_true, decide_eq_true_eq]
  split
  · next hplain =>
    refine iff_of_false (fun hmem => ?_) (not_not.mpr hplain)
    have hchar := isDigit_or_eq_of_mem_plain hdigits _ _ hmem
    rcases hmark with hmark | hmark <;> rw [hmark] at hchar <;> revert hchar <;> decide
  · next hplain => exact iff_of_true (by simp [scientific]) hplain

end FloatLayout

/-! ## Reading numbers -/

/-- A decimal starts with a digit or a point, and so with no sign and no name. -/
theorem splitSign_of_readDecimal? {text : List Char} {d : Decimal} (h : readDecimal? text = some d) :
    splitSign text = (false, text) := by
  unfold splitSign
  split
  · cases h
  · cases h
  · rfl

variable {f : BinaryFormat}

/-- A decimal is read with the sign in front of it. -/
theorem readFloat?_of_readDecimal? {text : List Char} {d : Decimal}
    (hblank : ∀ c ∈ text, isBlank c = false) (h : readDecimal? text = some d) (negative : Bool) :
    readFloat? f (if negative then '-' :: text else text) =
      some (Binary.ofDecimal f negative d) := by
  have htrim : trim (if negative then '-' :: text else text) =
      if negative then '-' :: text else text := by
    refine trim_eq_self fun c hc => ?_
    split at hc
    · rcases List.mem_cons.mp hc with rfl | hc
      · decide
      · exact hblank c hc
    · exact hblank c hc
  have hsign : splitSign (if negative then '-' :: text else text) = (negative, text) := by
    cases negative with
    | false => exact splitSign_of_readDecimal? h
    | true => rfl
  have hnan : text ≠ "NaN".toList := by
    rintro rfl
    cases h
  have hinfinity : text ≠ "Infinity".toList := by
    rintro rfl
    cases h
  unfold readFloat?
  rw [htrim, hsign]
  simp only [if_neg hnan, if_neg hinfinity, h, Option.map_some]

/-- A finite number is read back from its text in any layout. -/
theorem readFloat?_text {layout : FloatLayout}
    (hmark : layout.exponentMark = 'e' ∨ layout.exponentMark = 'E') {x : Binary f}
    (hfinite : x.isFinite = true) : readFloat? f (layout.text x) = some x := by
  have hcode : x.code < f.infinityCode := by simpa [Binary.isFinite] using hfinite
  unfold FloatLayout.text
  by_cases hzero : x.isZero = true
  · have hread : readDecimal? ['0', '.', '0'] = some ⟨0, -1⟩ := by decide
    have hx : Binary.ofDecimal f x.negative ⟨0, -1⟩ = x := by
      obtain ⟨negative, code, hlt⟩ := x
      obtain rfl : code = 0 := by simpa [Binary.isZero] using hzero
      rfl
    simp only [if_pos hzero]
    have hblank : ∀ c ∈ ['0', '.', '0'], isBlank c = false := by simp [isBlank]
    rw [readFloat?_of_readDecimal? hblank hread, hx]
  · have hpos : 0 < x.code := by
      refine Nat.pos_of_ne_zero fun h => hzero ?_
      simp [Binary.isZero, h]
    obtain ⟨d, hread, hvalue⟩ :=
      layout.readDecimal?_decimal hmark (FloatLayout.normalize (x.shortest layout.tie))
    rw [FloatLayout.value_normalize] at hvalue
    have hblank : ∀ c ∈ layout.decimal (FloatLayout.normalize (x.shortest layout.tie)),
        isBlank c = false := fun c hc => (layout.isNumberChar_decimal _ c hc).isBlank hmark
    simp only [if_neg hzero]
    rw [readFloat?_of_readDecimal? hblank hread,
      Binary.ofDecimal_of_value_eq layout.tie ⟨hpos, hcode⟩ hvalue]

/-! ## Plain numbers -/

/-- The text of a regular number has an exponent exactly if the text of its shortest decimal has. -/
theorem exponentMark_mem_text_iff {layout : FloatLayout}
    (hmark : layout.exponentMark = 'e' ∨ layout.exponentMark = 'E') {x : Binary f}
    (hx : x.IsRegular) :
    layout.exponentMark ∈ layout.text x ↔
      layout.exponentMark ∈ layout.decimal (FloatLayout.normalize (x.shortest layout.tie)) := by
  have hminus : layout.exponentMark ≠ '-' := by
    rcases hmark with hmark | hmark <;> rw [hmark] <;> decide
  simp only [FloatLayout.text, if_neg (Binary.not_isZero hx.1)]
  split
  · simp [hminus]
  · rfl

/-- A number is written with an exponent exactly if it is below the power of ten at which the plain
numbers start, or not below the one at which they end. Both are given by the numbers that are written
as these powers. -/
theorem exponentMark_mem_text_iff_code {layout : FloatLayout}
    (hmark : layout.exponentMark = 'e' ∨ layout.exponentMark = 'E') {x low high : Binary f}
    (hx : x.IsRegular) (hlow : low.IsRegular) (hhigh : high.IsRegular)
    (hlowest : low.shortest layout.tie = ⟨1, layout.lowestPoint - 1⟩)
    (hhighest : high.shortest layout.tie = ⟨1, layout.highestPoint⟩) :
    layout.exponentMark ∈ layout.text x ↔ x.code < low.code ∨ high.code ≤ x.code := by
  have hvalue := FloatLayout.value_normalize (x.shortest layout.tie)
  have hpower : ∀ t : Int, (⟨1, t⟩ : Decimal).value = 10 ^ t := by
    intro t
    rw [Decimal.value, Nat.cast_one, one_mul]
  have hrounds := Binary.roundsTo_shortest layout.tie hx
  rw [← hvalue] at hrounds
  have hne := hrounds.coefficient_ne_zero hx.1
  have hbelow := Binary.value_shortest_lt_iff layout.tie hx hlow
  have habove := Binary.value_shortest_lt_iff layout.tie hx hhigh
  rw [hlowest, hpower, ← hvalue, Decimal.value_lt_iff hne] at hbelow
  rw [hhighest, hpower, ← hvalue, Decimal.value_lt_iff hne] at habove
  rw [exponentMark_mem_text_iff hmark hx, layout.exponentMark_mem_decimal_iff hmark]
  omega

end RecordCoercion
