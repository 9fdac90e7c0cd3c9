import RecordCoercion.Proofs.Conversion.Narrowing
import RecordCoercion.Proofs.Conversion.Truncation
import RecordCoercion.Proofs.Numeric.FloatLiterals

/-!
# Which texts become numbers

Text becomes a number of a kind if it is a literal of the kind, and not otherwise. For integers there is one
grammar, and the kinds differ in their ranges only; a point in time without a format takes the same literals,
between blanks (`convert_integer_text`). For floating-point numbers blanks around a literal do not matter, and
a decimal becomes the number nearest to it (`convert_float_text`). Acceptance goes by the same grammars.
-/

set_option autoImplicit false

namespace RecordCoercion

variable (defaults : FormatDefaults)

/-! ## Integers -/

/-- A text is a literal of an integer that lies in a range, or of any integer where there is no range. -/
def WritesInteger (text : List Char) (range : Option IntRange) (n : Int) : Prop :=
  ∃ literal : IntegerLiteral, literal.text = text ∧ literal.value = n ∧
    ∀ r ∈ range, r.contains n = true

/-- A text is a literal of an integer exactly if the integer is read of it and lies in the range. -/
theorem writesInteger_iff {text : List Char} {range : Option IntRange} {n : Int} :
    WritesInteger text range n ↔ readSigned? text = some n ∧ ∀ r ∈ range, r.contains n = true := by
  rw [readSigned?_eq_some_iff]
  constructor
  · rintro ⟨literal, htext, hvalue, hrange⟩
    exact ⟨⟨literal, htext, hvalue⟩, hrange⟩
  · rintro ⟨⟨literal, htext, hvalue⟩, hrange⟩
    exact ⟨literal, htext, hvalue, hrange⟩

/-- The same with a range: the integer is read of the text and lies in it. -/
theorem writesInteger_some_iff {text : List Char} {range : IntRange} {n : Int} :
    WritesInteger text (some range) n ↔ readSigned? text = some n ∧ range.contains n = true := by
  rw [writesInteger_iff]
  exact and_congr_right fun _ => ⟨fun h => h range rfl, fun h r hr => Option.some.inj hr ▸ h⟩

namespace NumericKind

/-- An integer kind with a range reads the literals of the integers in its range. -/
theorem readBounded?_eq_some_iff {range : IntRange} {make : Int → Value} {text : List Char} {w : Value} :
    readBounded? range make text = some w ↔ ∃ n, WritesInteger text (some range) n ∧ make n = w := by
  simp only [readBounded?, Option.bind_eq_some_iff, Option.ite_none_right_eq_some, Option.some.injEq,
    writesInteger_some_iff, and_assoc]

/-- The text of an integer in the range of a kind is read as this integer. -/
theorem read?_of_writesInteger {kind : NumericKind} (hkind : kind.kind.isIntegral = true)
    {text : List Char} {n : Int} (h : WritesInteger text kind.range? n) :
    ∃ w, kind.read? text = some w ∧ w.kind? = some kind.kind ∧ w.integer? = some n := by
  cases kind
  case byte =>
    obtain ⟨hlo, hhi⟩ := (IntRange.contains_iff _ _).mp (writesInteger_some_iff.mp h).2
    refine ⟨_, readBounded?_eq_some_iff.mpr ⟨n, h, rfl⟩, rfl, congrArg some ?_⟩
    exact Int8.toInt_ofInt_of_le hlo (Int.lt_add_one_of_le hhi)
  case short =>
    obtain ⟨hlo, hhi⟩ := (IntRange.contains_iff _ _).mp (writesInteger_some_iff.mp h).2
    refine ⟨_, readBounded?_eq_some_iff.mpr ⟨n, h, rfl⟩, rfl, congrArg some ?_⟩
    exact Int16.toInt_ofInt_of_le hlo (Int.lt_add_one_of_le hhi)
  case int =>
    obtain ⟨hlo, hhi⟩ := (IntRange.contains_iff _ _).mp (writesInteger_some_iff.mp h).2
    refine ⟨_, readBounded?_eq_some_iff.mpr ⟨n, h, rfl⟩, rfl, congrArg some ?_⟩
    exact Int32.toInt_ofInt_of_le hlo (Int.lt_add_one_of_le hhi)
  case long =>
    obtain ⟨hlo, hhi⟩ := (IntRange.contains_iff _ _).mp (writesInteger_some_iff.mp h).2
    refine ⟨_, readBounded?_eq_some_iff.mpr ⟨n, h, rfl⟩, rfl, congrArg some ?_⟩
    exact Int64.toInt_ofInt_of_le hlo (Int.lt_add_one_of_le hhi)
  case bigInt =>
    refine ⟨.bigInt n, ?_, rfl, rfl⟩
    rw [read?, (writesInteger_iff.mp h).1, Option.map_some]
  case float | double => cases hkind

/-- What is read as a value of an integral kind is the text of an integer in its range. -/
theorem writesInteger_of_read? {kind : NumericKind} (hkind : kind.kind.isIntegral = true)
    {text : List Char} {w : Value} (h : kind.read? text = some w) :
    ∃ n, WritesInteger text kind.range? n := by
  cases kind
  case byte | short | int | long =>
    obtain ⟨n, hn, -⟩ := readBounded?_eq_some_iff.mp h
    exact ⟨n, hn⟩
  case bigInt =>
    obtain ⟨n, hn, -⟩ := Option.map_eq_some_iff.mp h
    exact ⟨n, writesInteger_iff.mpr ⟨hn, fun _ hr => nomatch hr⟩⟩
  case float | double => cases hkind

end NumericKind

namespace TemporalKind

variable {text : List Char}

/-- Without a format the text of a 64-bit integer between blanks is read as an instant. -/
theorem readInstant_of_writesInteger {n : Int} (h : WritesInteger (trim text) (some .bits64) n) :
    ∃ i : Instant, readInstant none text = .ok (some i) ∧ i.epochMillis.toInt = n := by
  obtain ⟨hread, hrange⟩ := writesInteger_some_iff.mp h
  obtain ⟨hlo, hhi⟩ := (IntRange.contains_iff _ _).mp hrange
  have hne : (trim text).isEmpty = false := by
    cases htrim : trim text with
    | nil =>
      rw [htrim] at hread
      cases hread
    | cons c rest => rfl
  refine ⟨⟨.ofInt n⟩, ?_, Int64.toInt_ofInt_of_le hlo (Int.lt_add_one_of_le hhi)⟩
  simp only [readInstant, hne, hread, hrange, Bool.false_eq_true, if_false, if_true]

/-- Without a format, a text that is not blank and no literal of 64 bits is not read as an instant. -/
theorem readInstant_of_not_writesInteger (hblank : trim text ≠ [])
    (h : ∀ n, ¬ WritesInteger (trim text) (some .bits64) n) :
    readInstant none text = .error .notEpochMillis := by
  have hne : ¬ (trim text).isEmpty = true := by rwa [List.isEmpty_iff]
  simp only [readInstant, if_neg hne]
  cases hread : readSigned? (trim text) with
  | none => rfl
  | some n =>
    have hrange : ¬ IntRange.bits64.contains n = true := fun hrange =>
      h n (writesInteger_some_iff.mpr ⟨hread, hrange⟩)
    exact if_neg hrange

end TemporalKind

/-- Text becomes an integer of a kind just if it is a literal of an integer in the range of the kind, and
then it becomes this integer. A point in time that has no format takes the literals of 64-bit integers
between blanks; a blank text becomes null. What is not taken is refused for being no literal or no count of
milliseconds. -/
theorem convert_integer_text (text field : String) :
    (∀ kind : NumericKind, kind.kind.isIntegral = true →
      (∀ n, WritesInteger text.toList kind.range? n →
        accepts defaults kind.type (.string text) = true ∧
        ∃ w, convert defaults kind.type (.string text) field = .ok w ∧ w.kind? = some kind.kind ∧
          w.integer? = some n) ∧
      ((∀ n, ¬ WritesInteger text.toList kind.range? n) →
        accepts defaults kind.type (.string text) = false ∧
        convert defaults kind.type (.string text) field =
          .error (.failed ⟨.string text, kind.kind, field, .invalidLiteral kind.kind⟩))) ∧
    ∀ (kind : TemporalKind) (format : Option TemporalFormat),
      defaults.effective? (kind.type format) = none →
      (∀ n, WritesInteger (trim text.toList) (some .bits64) n →
        accepts defaults (kind.type format) (.string text) = true ∧
        ∃ i, convert defaults (kind.type format) (.string text) field = .ok (kind.value i) ∧
          i.epochMillis.toInt = n) ∧
      (trim text.toList = [] →
        accepts defaults (kind.type format) (.string text) = false ∧
        convert defaults (kind.type format) (.string text) field = .ok .null) ∧
      (trim text.toList ≠ [] → (∀ n, ¬ WritesInteger (trim text.toList) (some .bits64) n) →
        accepts defaults (kind.type format) (.string text) = false ∧
        convert defaults (kind.type format) (.string text) field =
          .error (.failed ⟨.string text, kind.kind, field, .notEpochMillis⟩)) := by
  refine ⟨fun kind hkind => ⟨fun n hn => ?_, fun hno => ?_⟩,
    fun kind format hformat => ⟨fun n hn => ?_, fun hblank => ?_, fun hblank hno => ?_⟩⟩
  · obtain ⟨w, hread, hw⟩ := NumericKind.read?_of_writesInteger hkind hn
    rw [accepts_numeric_text, convert_numeric_text, hread]
    exact ⟨rfl, w, rfl, hw⟩
  · have hread : kind.read? text.toList = none :=
      Option.eq_none_iff_forall_ne_some.mpr fun w hw =>
        (NumericKind.writesInteger_of_read? hkind hw).elim hno
    rw [accepts_numeric_text, convert_numeric_text, hread]
    exact ⟨rfl, rfl⟩
  · obtain ⟨i, hread, hi⟩ := TemporalKind.readInstant_of_writesInteger hn
    rw [accepts_temporal_text, convert_temporal_text, hformat, hread]
    exact ⟨rfl, i, rfl, hi⟩
  · rw [accepts_temporal_text, convert_temporal_text,
      (TemporalKind.readInstant_eq_ok_none_iff _ _).mpr hblank]
    exact ⟨rfl, rfl⟩
  · rw [accepts_temporal_text, convert_temporal_text, hformat,
      TemporalKind.readInstant_of_not_writesInteger hblank hno]
    exact ⟨rfl, rfl⟩

/-- With leading zeros the least byte is still taken, and so is the same text between blanks as a point in
time, but not as a byte. -/
theorem convert_integer_text_of_least_byte :
    convert .empty .byte (.string "-00128") "n" = .ok (.byte (-128)) ∧
      convert .empty (.date none) (.string " -00128\n") "n" = .ok (.date ⟨-128⟩) ∧
      convert .empty .byte (.string " -00128\n") "n" =
        .error (.failed ⟨.string " -00128\n", .byte, "n", .invalidLiteral .byte⟩) := by
  have hliteral : ∀ range : IntRange, range.contains (-128) = true →
      WritesInteger "-00128".toList (some range) (-128) := fun range hrange =>
    ⟨⟨.minus, [0, 0, 1, 2, 8], by simp⟩, by decide, by decide,
      fun r hr => Option.some.inj hr ▸ hrange⟩
  refine ⟨?_, ?_, ?_⟩
  · obtain ⟨-, w, hw, hkind, hinteger⟩ :=
      ((convert_integer_text .empty "-00128" "n").1 .byte rfl).1 _ (hliteral .bits8 (by decide))
    rw [show DeclaredType.byte = NumericKind.byte.type from rfl, hw]
    obtain ⟨m, rfl⟩ : ∃ m, w = .byte m := by
      cases w <;> cases hkind
      exact ⟨_, rfl⟩
    have hm : m = -128 := Int8.toInt_inj.mp (Option.some.inj hinteger)
    rw [hm]
  · have htrim : trim " -00128\n".toList = "-00128".toList := by decide
    obtain ⟨-, i, hi, hmillis⟩ :=
      ((convert_integer_text .empty " -00128\n" "n").2 .date none rfl).1 (-128)
        (htrim ▸ hliteral .bits64 (by decide))
    have hinstant : i = ⟨-128⟩ := by
      obtain ⟨millis⟩ := i
      exact congrArg Instant.mk (Int64.toInt_inj.mp hmillis)
    exact hinstant ▸ hi
  · refine (((convert_integer_text .empty " -00128\n" "n").1 .byte rfl).2 fun n hn => ?_).2
    have hread := (writesInteger_iff.mp hn).1
    revert hread
    rw [show readSigned? " -00128\n".toList = none by decide]
    exact fun h => nomatch h

/-! ## Floating-point numbers -/

section

variable {text : String} (field : String)

/-- A text that is no literal becomes no floating-point number. -/
theorem refused_of_no_literal (h : ∀ literal : FloatLiteral, literal.text ≠ trim text.toList)
    {kind : NumericKind} (hkind : kind.kind.isFloating = true) :
    accepts defaults kind.type (.string text) = false ∧
      convert defaults kind.type (.string text) field =
        .error (.failed ⟨.string text, kind.kind, field, .invalidLiteral kind.kind⟩) := by
  have hno : ∀ f : BinaryFormat, readFloat? f text.toList = none := fun f =>
    Option.eq_none_iff_forall_ne_some.mpr fun x hx =>
      (exists_of_readFloat? hx).elim fun literal hliteral => h literal hliteral.1
  have hread : kind.read? text.toList = none := by
    cases kind <;> cases hkind
    case float => rw [NumericKind.read?, hno, Option.map_none]
    case double => rw [NumericKind.read?, hno, Option.map_none]
  rw [accepts_numeric_text, convert_numeric_text, hread]
  exact ⟨rfl, rfl⟩

/-- A text becomes a floating-point number just if it is a literal, up to blanks around it, and then it
becomes the number that the literal denotes: of a decimal the nearest one with its sign, which is infinite
where the decimal is too large. Whatever else begins with a letter behind a sign than the two names is
refused. -/
theorem convert_float_text (text : String) :
    (∀ literal : FloatLiteral, literal.text = trim text.toList →
      (accepts defaults .float (.string text) = true ∧
        ∃ x, convert defaults .float (.string text) field = .ok (.float x) ∧ literal.Denotes x) ∧
      (accepts defaults .double (.string text) = true ∧
        ∃ x, convert defaults .double (.string text) field = .ok (.double x) ∧ literal.Denotes x)) ∧
    (∀ kind : NumericKind, kind.kind.isFloating = true →
      ((∀ literal : FloatLiteral, literal.text ≠ trim text.toList) ∨
        ∃ (sign : Sign) (name : List Char), trim text.toList = sign.text ++ name ∧
          (∃ c ∈ name.head?, c.isAlpha = true) ∧ name ≠ "NaN".toList ∧
          name ≠ "Infinity".toList) →
      accepts defaults kind.type (.string text) = false ∧
        convert defaults kind.type (.string text) field =
          .error (.failed ⟨.string text, kind.kind, field, .invalidLiteral kind.kind⟩)) := by
  refine ⟨fun literal hliteral => ⟨?_, ?_⟩, fun kind hkind hno => ?_⟩
  · obtain ⟨x, hx, hdenotes⟩ := readFloat?_literal (f := binary32) hliteral
    have hread : NumericKind.float.read? text.toList = some (.float x) := by
      rw [NumericKind.read?, hx, Option.map_some]
    have haccepts := accepts_numeric_text defaults .float text
    have hconvert := convert_numeric_text defaults .float text field
    rw [hread] at haccepts hconvert
    exact ⟨haccepts, x, hconvert, hdenotes⟩
  · obtain ⟨x, hx, hdenotes⟩ := readFloat?_literal (f := binary64) hliteral
    have hread : NumericKind.double.read? text.toList = some (.double x) := by
      rw [NumericKind.read?, hx, Option.map_some]
    have haccepts := accepts_numeric_text defaults .double text
    have hconvert := convert_numeric_text defaults .double text field
    rw [hread] at haccepts hconvert
    exact ⟨haccepts, x, hconvert, hdenotes⟩
  · refine refused_of_no_literal defaults field (fun literal hliteral => ?_) hkind
    obtain hno | ⟨sign, name, htext, hletter, hnan, hinfinity⟩ := hno
    · exact hno literal hliteral
    · obtain rfl | rfl := FloatLiteral.eq_name (hliteral.trans htext) hletter
      · exact hnan rfl
      · exact hinfinity rfl

end

/-- In single precision a decimal halfway between two numbers becomes the even one, and the short name of
infinity is refused. -/
theorem convert_float_text_of_25_bits :
    convert .empty .float (.string " -1677721.7e1\n") "n" = .ok (.float (.ofBits 0xcb800000)) ∧
      (Binary.ofBits 0xcb800000 : Binary binary32).IsNearest (-16777217) ∧
      convert .empty .double (.string "-inf") "n" =
        .error (.failed ⟨.string "-inf", .double, "n", .invalidLiteral .double⟩) := by
  have hfloat : convert .empty .float (.string " -1677721.7e1\n") "n" =
      .ok (.float (.ofBits 0xcb800000)) := by
    have hread : readFloat? binary32 " -1677721.7e1\n".toList = some (.ofBits 0xcb800000) := by
      decide +kernel
    have hconvert := convert_numeric_text .empty .float " -1677721.7e1\n" "n"
    rw [NumericKind.read?, hread] at hconvert
    exact hconvert
  let decimal : DecimalLiteral :=
    ⟨[1, 6, 7, 7, 7, 2, 1], some [7], some (.small, ⟨.absent, [1], by simp⟩), by simp⟩
  have htext : (⟨.minus, .decimal decimal⟩ : FloatLiteral).text = trim " -1677721.7e1\n".toList := by
    decide
  have hvalue : signed true decimal.value = -16777217 := by
    have hwhole : digitValue decimal.whole = 1677721 := by decide
    have hfraction : digitValue decimal.fractionDigits = 7 := by decide
    have hpower : decimal.power = 1 := by decide
    rw [DecimalLiteral.value, hwhole, hfraction, hpower, signed_true]
    norm_num [decimal, DecimalLiteral.fractionDigits]
  obtain ⟨⟨-, x, hx, -, hnearest⟩, -⟩ := (convert_float_text .empty "n" _).1 _ htext
  rw [hfloat] at hx
  cases hx
  refine ⟨hfloat, hvalue ▸ hnearest, ?_⟩
  exact ((convert_float_text .empty "n" "-inf").2 .double rfl
    (.inr ⟨.minus, "inf".toList, by decide, ⟨'i', rfl, by decide⟩, by decide, by decide⟩)).2

end RecordCoercion
