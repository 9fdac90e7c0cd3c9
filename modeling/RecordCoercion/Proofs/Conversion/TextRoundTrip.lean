import RecordCoercion.Proofs.Conversion.Scalars
import RecordCoercion.Proofs.Numeric.FloatText

/-!
# Single values survive text

Every value of a kind that is not text and not made of other values becomes a text that its own kind
accepts, and that text becomes the value again (`text_roundtrip`). Integers of any size, truth values,
characters and instants come back as they were, and so do floating-point numbers down to the sign of
zero; "not a number" comes back as the canonical one of its kind.
-/

set_option autoImplicit false

namespace RecordCoercion

/-! ## Floating-point values -/

section

variable {f : BinaryFormat}

/-- The texts of the infinities are read as the infinities. -/
theorem readFloat?_infinity (negative : Bool) :
    readFloat? f (if negative then "-Infinity" else "Infinity").toList =
      some (.infinity negative) := by
  unfold readFloat?
  cases negative <;> simp only [Bool.false_eq_true, if_false, if_true] <;> rfl

/-- Every number is read back from its text, and "not a number" from its name. -/
theorem readFloat?_valueText (x : Binary f) :
    readFloat? f x.valueText = some (if x.isNaN then .nan false else x) := by
  unfold Binary.valueText
  by_cases hnan : x.isNaN = true
  · rw [if_pos hnan, if_pos hnan]
    rfl
  rw [if_neg hnan, if_neg hnan]
  by_cases hinfinite : x.isInfinite = true
  · rw [if_pos hinfinite, readFloat?_infinity]
    obtain ⟨negative, code, hlt⟩ := x
    obtain rfl : code = f.infinityCode := by simpa [Binary.isInfinite] using hinfinite
    rfl
  · rw [if_neg hinfinite]
    refine readFloat?_text (.inr rfl) ?_
    simp only [Binary.isNaN, Binary.isInfinite, Binary.isFinite, decide_eq_true_eq] at *
    omega

/-- A magnitude from one thousandth to below ten million. -/
def Binary.IsPlain (x : Binary f) : Prop :=
  (Binary.ofDecimal f false ⟨1, -3⟩).code ≤ x.code ∧ x.code < (Binary.ofDecimal f false ⟨1, 7⟩).code

/-- The two ends of the plain magnitudes are written as the powers of ten that they are nearest to. -/
theorem shortest_plain_ends (hf : f = binary32 ∨ f = binary64) :
    (Binary.ofDecimal f false ⟨1, -3⟩).IsRegular ∧ (Binary.ofDecimal f false ⟨1, 7⟩).IsRegular ∧
      (Binary.ofDecimal f false ⟨1, -3⟩).shortest .up = ⟨1, -3⟩ ∧
      (Binary.ofDecimal f false ⟨1, 7⟩).shortest .up = ⟨1, 7⟩ := by
  unfold Binary.IsRegular
  rcases hf with rfl | rfl <;> decide +kernel

/-- A finite number other than zero is written with `E` exactly if its magnitude is not plain. -/
theorem mem_valueText_iff (hf : f = binary32 ∨ f = binary64) {x : Binary f} (hx : x.IsRegular) :
    'E' ∈ x.valueText ↔ ¬ x.IsPlain := by
  obtain ⟨hlow, hhigh, hlowest, hhighest⟩ := shortest_plain_ends hf
  obtain ⟨hpos, hfinite⟩ := hx
  have hnan : ¬ x.isNaN = true := by
    simp only [Binary.isNaN, decide_eq_true_eq]
    omega
  have hinfinite : ¬ x.isInfinite = true := by
    simp only [Binary.isInfinite, decide_eq_true_eq]
    omega
  have hcode : Value.floatLayout.exponentMark ∈ Value.floatLayout.text x ↔ _ :=
    exponentMark_mem_text_iff_code (.inr rfl) ⟨hpos, hfinite⟩ hlow hhigh hlowest hhighest
  rw [Binary.valueText, if_neg hnan, if_neg hinfinite, Binary.IsPlain]
  refine hcode.trans ?_
  omega

end

/-! ## Texts of values -/

/-- The kinds of values that are neither text nor made of other values. -/
def FieldKind.isScalar (kind : FieldKind) : Bool := !kind.isComposite && kind != .string

/-- Whether a value is the "not a number" of one of the two floating-point kinds. -/
def Value.isNaN : Value → Bool
  | float x => x.isNaN
  | double x => x.isNaN
  | _ => false

/-- A value comes back: it is the same, or "not a number" of the same kind. -/
def Value.ComesBackAs (v w : Value) : Prop :=
  if v.isNaN then w.isNaN = true ∧ w.kind? = v.kind? else w = v

/-- A text is accepted by a type without default formats, and becomes a value in any field. -/
structure TextReadAs (type : DeclaredType) (text : List Char) (w : Value) : Prop where
  accepted : accepts .empty type (.string (String.ofList text)) = true
  converted : ∀ field, convert .empty type (.string (String.ofList text)) field = .ok w

variable {text : List Char} {w : Value}

/-- A text that a kind of numbers reads becomes a value of this kind. -/
theorem TextReadAs.numeric {kind : NumericKind} (h : kind.read? text = some w) :
    TextReadAs kind.type text w := by
  constructor
  · rw [accepts_numeric_text, String.toList_ofList, h, Option.isSome_some]
  · intro field
    rw [convert_numeric_text, String.toList_ofList, h]

/-- A value that is not "not a number" comes back as itself. -/
theorem Value.comesBackAs_self {v : Value} (h : v.isNaN = false) : v.ComesBackAs v := by
  rw [ComesBackAs, h]
  rfl

/-- "Not a number" comes back as any "not a number" of its kind. -/
theorem Value.comesBackAs_nan {v w : Value} (hv : v.isNaN = true) (hw : w.isNaN = true)
    (hkind : w.kind? = v.kind?) : v.ComesBackAs w := by
  rw [ComesBackAs, hv]
  exact ⟨hw, hkind⟩


/-- A number is read back from its text by whichever of the two kinds holds it. -/
theorem Binary.exists_read?_valueText {f : BinaryFormat} (x : Binary f) (make : Binary f → Value)
    (hnan : ∀ y, (make y).isNaN = y.isNaN) (hkind : ∀ y, (make y).kind? = (make x).kind?) :
    ∃ w, (readFloat? f x.valueText).map make = some w ∧ (make x).ComesBackAs w := by
  rw [readFloat?_valueText, Option.map_some]
  refine ⟨_, rfl, ?_⟩
  by_cases h : x.isNaN = true
  · rw [if_pos h]
    exact Value.comesBackAs_nan ((hnan x).trans h) ((hnan _).trans (isNaN_nan false)) (hkind _)
  · rw [if_neg h]
    exact Value.comesBackAs_self ((hnan x).trans (Bool.eq_false_iff.mpr h))

/-- An integer of a range is read back by the kind of the range. -/
theorem readBounded?_signedNumeral {range : IntRange} {n : Int} {make : Int → Value}
    (hrange : range.lo ≤ n ∧ n ≤ range.hi) :
    NumericKind.readBounded? range make (signedNumeral n) = some (make n) := by
  rw [NumericKind.readBounded?, readSigned?_signedNumeral, Option.bind_some]
  exact if_pos ((range.contains_iff n).mpr hrange)

/-- A number is read back from its text by its own kind. -/
theorem NumericKind.exists_read?_text {v : Value} {kind : NumericKind}
    (hkind : v.kind? = some kind.kind) : ∃ w, kind.read? v.text = some w ∧ v.ComesBackAs w := by
  have hself : kind.read? v.text = some v → v.isNaN = false →
      ∃ w, kind.read? v.text = some w ∧ v.ComesBackAs w :=
    fun hread hnan => ⟨v, hread, Value.comesBackAs_self hnan⟩
  cases kind <;> cases v <;> cases hkind
  case byte n =>
    refine hself ((readBounded?_signedNumeral ⟨n.le_toInt, n.toInt_le⟩).trans ?_) rfl
    rw [Int8.ofInt_toInt]
  case short n =>
    refine hself ((readBounded?_signedNumeral ⟨n.le_toInt, n.toInt_le⟩).trans ?_) rfl
    rw [Int16.ofInt_toInt]
  case int n =>
    refine hself ((readBounded?_signedNumeral ⟨n.le_toInt, n.toInt_le⟩).trans ?_) rfl
    rw [Int32.ofInt_toInt]
  case long n =>
    refine hself ((readBounded?_signedNumeral ⟨n.le_toInt, n.toInt_le⟩).trans ?_) rfl
    rw [Int64.ofInt_toInt]
  case bigInt n => exact hself (congrArg (Option.map Value.bigInt) (readSigned?_signedNumeral n)) rfl
  case float x => exact x.exists_read?_valueText .float (fun _ => rfl) fun _ => rfl
  case double x => exact x.exists_read?_valueText .double (fun _ => rfl) fun _ => rfl

/-- Without a format an instant is read from its milliseconds. -/
theorem readInstant_signedNumeral (i : Instant) :
    TemporalKind.readInstant none (signedNumeral i.epochMillis.toInt) = .ok (some i) := by
  have htrim : trim (signedNumeral i.epochMillis.toInt) = signedNumeral i.epochMillis.toInt :=
    trim_eq_self fun _ => isBlank_of_mem_signedNumeral
  have hne : (signedNumeral i.epochMillis.toInt).isEmpty = false := by
    unfold signedNumeral
    split
    · rfl
    · rw [List.isEmpty_eq_false_iff]
      exact numeral_ne_nil _
  have hrange : IntRange.bits64.contains i.epochMillis.toInt = true := by
    have hlo := i.epochMillis.le_toInt
    have hhi := i.epochMillis.toInt_lt
    rw [IntRange.contains_iff]
    simp only [IntRange.bits64]
    omega
  simp only [TemporalKind.readInstant, htrim, hne, readSigned?_signedNumeral, hrange,
    Int64.ofInt_toInt, Bool.false_eq_true, if_false, if_true]

/-- The milliseconds of an instant are read as the instant by every kind of points in time. -/
theorem TextReadAs.temporal (kind : TemporalKind) (i : Instant) :
    TextReadAs (kind.type none) (signedNumeral i.epochMillis.toInt) (kind.value i) := by
  have hformat : FormatDefaults.empty.effective? (kind.type none) = none := by
    cases kind <;> rfl
  constructor
  · rw [accepts_temporal_text, hformat, String.toList_ofList, readInstant_signedNumeral]
  · intro field
    rw [convert_temporal_text, hformat, String.toList_ofList, readInstant_signedNumeral]

/-- A value without a format becomes the text that it is rendered as. -/
theorem convert_to_text {v : Value} {text : List Char}
    (h : v.rendered? = some (String.ofList text)) (field : String) :
    convert .empty (.string none) v field = .ok (.string (String.ofList text)) := by
  have hv : v ≠ .null := by
    rintro rfl
    cases h
  rw [convert_string _ hv, toText, Value.render_none, h]

/-- A value that is neither text nor made of other values is rendered as a text from which its kind
reads it back. -/
theorem exists_textReadAs {v : Value} {kind : FieldKind} (hkind : v.kind? = some kind)
    (hscalar : kind.isScalar = true) :
    ∃ text w, v.rendered? = some (String.ofList text) ∧ TextReadAs (.bare kind) text w ∧
      v.ComesBackAs w := by
  have hnumeric : ∀ number : NumericKind, v.kind? = some number.kind →
      v.rendered? = some v.display → ∃ text w, v.rendered? = some (String.ofList text) ∧
        TextReadAs number.type text w ∧ v.ComesBackAs w := by
    intro number hnumber hrendered
    obtain ⟨w, hread, hback⟩ := NumericKind.exists_read?_text hnumber
    exact ⟨v.text, w, hrendered, .numeric hread, hback⟩
  cases v <;> cases hkind <;> try cases hscalar
  case boolean b =>
    refine ⟨_, .boolean b, rfl, ?_, Value.comesBackAs_self rfl⟩
    cases b <;> exact ⟨rfl, fun field => rfl⟩
  case byte n => exact hnumeric .byte rfl rfl
  case short n => exact hnumeric .short rfl rfl
  case int n => exact hnumeric .int rfl rfl
  case long n => exact hnumeric .long rfl rfl
  case bigInt n => exact hnumeric .bigInt rfl rfl
  case float x => exact hnumeric .float rfl rfl
  case double x => exact hnumeric .double rfl rfl
  case char c =>
    refine ⟨[c], .char c, rfl, ⟨?_, fun field => ?_⟩, Value.comesBackAs_self rfl⟩
    · exact (accepts_char _ (Value.ne_null_of_kind? rfl)).trans (by simp [acceptsChar])
    · exact (convert_char _ (Value.ne_null_of_kind? rfl) field).trans (by simp [toChar, settled])
  case date i => exact ⟨_, .date i, rfl, .temporal .date i, Value.comesBackAs_self rfl⟩
  case time i => exact ⟨_, .time i, rfl, .temporal .time i, Value.comesBackAs_self rfl⟩
  case timestamp i =>
    exact ⟨_, .timestamp i, rfl, .temporal .timestamp i, Value.comesBackAs_self rfl⟩

/-- A value of a kind that is neither text nor made of other values becomes a text, without a format.
Its kind accepts the text, and the value comes back from it. A floating-point number other than zero
shows `E` in its text outside the plain magnitudes and only there. -/
theorem text_roundtrip :
    (∀ (v : Value) (kind : FieldKind), v.kind? = some kind → kind.isScalar = true →
      ∃ (text : String) (w : Value),
        (∀ field, convert .empty (.string none) v field = .ok (.string text)) ∧
        accepts .empty (.bare kind) (.string text) = true ∧
        (∀ field, convert .empty (.bare kind) (.string text) field = .ok w) ∧
        v.ComesBackAs w) ∧
      ∀ (f : BinaryFormat), f = binary32 ∨ f = binary64 → ∀ x : Binary f, x.IsRegular →
        ('E' ∈ x.valueText ↔ ¬ x.IsPlain) := by
  refine ⟨fun v kind hkind hscalar => ?_, fun f hf x hx => mem_valueText_iff hf hx⟩
  obtain ⟨text, w, hrendered, hread, hback⟩ := exists_textReadAs hkind hscalar
  exact ⟨_, w, convert_to_text hrendered, hread.accepted, hread.converted, hback⟩

/-- The negative double next to zero comes back from its text, which shows `E`. -/
theorem text_roundtrip_next_to_zero :
    (∃ (text : String) (w : Value),
      (∀ field, convert .empty (.string none) (.double ⟨true, 1, by decide⟩) field =
        .ok (.string text)) ∧
      accepts .empty .double (.string text) = true ∧
      (∀ field, convert .empty .double (.string text) field = .ok w) ∧
      (Value.double ⟨true, 1, by decide⟩).ComesBackAs w) ∧
      'E' ∈ (⟨true, 1, by decide⟩ : Binary binary64).valueText := by
  refine ⟨text_roundtrip.1 (.double ⟨true, 1, by decide⟩) .double rfl rfl, ?_⟩
  refine (text_roundtrip.2 binary64 (.inr rfl) ⟨true, 1, by decide⟩ ⟨by decide, by decide⟩).mpr ?_
  unfold Binary.IsPlain
  decide +kernel

end RecordCoercion
