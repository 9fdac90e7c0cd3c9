import RecordCoercion.Proofs.Conversion.Families

/-!
# Single conversions and their tests

For each kind that is not made of other types there is a conversion and a test, written apart.
`Agrees` says that the two give the same verdict and that what comes out has the kind asked for, and
there is one theorem for each pair. Conversion to a point in time has a third outcome, null for a
blank text (`Value.IsBlankText`), and conversion to text fails on formats that cannot write.
-/

set_option autoImplicit false

namespace RecordCoercion

/-- A conversion to a kind gives a value of that kind if a test says yes and fails otherwise. -/
def Agrees (kind : FieldKind) (accepted : Bool) : Except Reason Value → Prop
  | .ok w => accepted = true ∧ w.kind? = some kind
  | .error _ => accepted = false

/-- What a conversion gives is of the kind it converts to. -/
theorem Agrees.kind_of_ok {kind : FieldKind} {accepted : Bool} {result : Except Reason Value}
    {w : Value} (h : Agrees kind accepted result) (hw : result = .ok w) : w.kind? = some kind := by
  subst hw
  exact h.2

/-- The conversion to truth values succeeds where its test says yes. -/
theorem toBoolean_agrees (v : Value) : Agrees .boolean (acceptsBoolean v) (toBoolean v) := by
  cases v <;> try rfl
  case boolean b => exact ⟨rfl, rfl⟩
  case string text =>
    simp only [toBoolean, acceptsBoolean]
    cases readBoolean? text.toList with
    | some b => exact ⟨rfl, rfl⟩
    | none => rfl

/-- The conversion to characters succeeds where its test says yes. -/
theorem toChar_agrees (v : Value) : Agrees .char (acceptsChar v) (toChar v) := by
  cases v <;> try rfl
  case char c => exact ⟨rfl, rfl⟩
  case string text =>
    have hempty : text.isEmpty = text.toList.isEmpty := by
      rw [Bool.eq_iff_iff, String.isEmpty_iff, List.isEmpty_iff, String.toList_eq_nil_iff]
    simp only [toChar, acceptsChar, hempty]
    cases text.toList with
    | nil => rfl
    | cons c rest => exact ⟨rfl, rfl⟩

/-- The conversion to arrays succeeds for arrays. -/
theorem toArray_agrees (v : Value) : Agrees .array (v.kind? == some .array) (toArray v) := by
  cases v <;> try rfl
  case array items => exact ⟨rfl, rfl⟩

/-- Maps and records become maps, and nothing else does. -/
theorem toMap_agrees (v : Value) :
    Agrees .map (v.kind? == some .map || v.kind? == some .record) (toMap v) := by
  cases v <;> try rfl
  case map entries => exact ⟨rfl, rfl⟩
  case record schema members => exact ⟨rfl, rfl⟩

/-! ## Numbers -/

/-- A finite number, and no other, has an integer part. -/
theorem Binary.isSome_truncate? {f : BinaryFormat} (x : Binary f) :
    x.truncate?.isSome = x.isFinite := by
  unfold Binary.truncate?
  split <;> simp_all

namespace NumericKind

/-- What a kind of numbers reads of a text is of this kind. -/
theorem kind?_of_read? {kind : NumericKind} {text : List Char} {w : Value}
    (h : kind.read? text = some w) : w.kind? = some kind.kind := by
  cases kind <;>
    simp only [read?, readBounded?, Option.map_eq_some_iff, Option.bind_eq_some_iff] at h
  case byte | short | int | long =>
    obtain ⟨n, -, hn⟩ := h
    split at hn
    · cases hn
      rfl
    · cases hn
  case bigInt | float | double =>
    obtain ⟨x, -, rfl⟩ := h
    rfl

/-- What a kind of numbers makes of a number is of this kind. -/
theorem kind?_of_ofNumber? {kind : NumericKind} {number : Number} {w : Value}
    (h : kind.ofNumber? number = some w) : w.kind? = some kind.kind := by
  cases kind <;> cases number <;> simp only [ofNumber?, Option.some.injEq] at h <;>
    first
    | (subst h; rfl)
    | (obtain ⟨n, -, rfl⟩ := Option.map_eq_some_iff.mp h; rfl)

/-- Only an unbounded integer is not made of every number, but of the finite ones. -/
theorem isSome_ofNumber? (kind : NumericKind) (number : Number) :
    (kind.ofNumber? number).isSome = (kind != bigInt || number.isFinite) := by
  cases kind <;> cases number <;> try rfl
  case bigInt.floating x => simp [ofNumber?, Number.isFinite, Binary.isSome_truncate?]

/-- A kind of numbers accepts its own values. -/
theorem accepts_of_kind? {kind : NumericKind} {v : Value} (h : v.kind? = some kind.kind) :
    kind.accepts v = true := by
  cases kind <;> cases v <;> cases h <;> rfl

/-- Apart from text, a kind accepts by the instant or the number that a value holds. -/
theorem accepts_of_not_text (kind : NumericKind) {v : Value} (h : v.kind? ≠ some .string) :
    kind.accepts v =
      match v.instant?, Number.ofValue? v with
      | some _, _ => kind == long
      | none, some number => kind != bigInt || number.isFinite
      | none, none => false := by
  cases v <;> first | rfl | exact absurd rfl h

/-- The conversion to a kind of numbers succeeds where its test says yes. -/
theorem convert_agrees (kind : NumericKind) (v : Value) :
    Agrees kind.kind (kind.accepts v) (kind.convert v) := by
  unfold convert
  split
  next native => exact ⟨accepts_of_kind? native, native⟩
  next foreign =>
    split
    next text =>
      simp only [accepts]
      cases hread : kind.read? text.toList with
      | some w => exact ⟨rfl, kind?_of_read? hread⟩
      | none => rfl
    next hstring =>
      have hkind : v.kind? ≠ some .string := by
        cases v <;> first | exact absurd rfl (hstring _) | simp [Value.kind?]
      rw [accepts_of_not_text kind hkind]
      cases v.instant? with
      | some i =>
        by_cases hlong : kind = long
        · subst hlong
          exact ⟨rfl, rfl⟩
        · simp [Agrees, hlong]
      | none =>
        cases Number.ofValue? v with
        | some number =>
          simp only [← isSome_ofNumber?]
          cases hnumber : kind.ofNumber? number with
          | some w => exact ⟨rfl, kind?_of_ofNumber? hnumber⟩
          | none => rfl
        | none => rfl

end NumericKind

/-! ## Points in time -/

/-- A text of blanks only, which stands for no point in time. -/
def Value.IsBlankText (v : Value) : Prop := ∃ text, v = .string text ∧ trim text.toList = []

namespace TemporalKind

/-- Nothing is read from a blank text, and from no other. -/
theorem readInstant_eq_ok_none_iff (format : Option TemporalFormat) (text : List Char) :
    readInstant format text = .ok none ↔ trim text = [] := by
  by_cases hblank : trim text = []
  · simp [readInstant, hblank]
  · cases format with
    | none =>
      simp only [readInstant, List.isEmpty_iff, hblank, if_false, iff_false]
      split <;> try split
      all_goals simp
    | some format =>
      simp only [readInstant, List.isEmpty_iff, hblank, if_false, iff_false]
      split <;> simp

/-- An instant as a value of a kind of points in time is of this kind. -/
@[simp] theorem kind?_value (kind : TemporalKind) (i : Instant) :
    (kind.value i).kind? = some kind.kind := by
  cases kind <;> rfl

variable (kind : TemporalKind) (format : Option TemporalFormat)

/-- The conversion of a text follows what is read from it. -/
theorem convert_string (text : String) :
    kind.convert format (.string text) =
      match readInstant format text.toList with
      | .ok (some i) => .ok (kind.value i)
      | .ok none => .ok .null
      | .error reason => .error reason := rfl

/-- Blank text is no point in time, and converts to null. -/
theorem convert_of_isBlankText {v : Value} (h : v.IsBlankText) :
    kind.convert format v = .ok .null := by
  obtain ⟨text, rfl, hblank⟩ := h
  rw [convert_string, (readInstant_eq_ok_none_iff format _).mpr hblank]

/-- Blank text is not accepted as a point in time, although it converts. -/
theorem accepts_of_isBlankText {v : Value} (h : v.IsBlankText) : accepts format v = false := by
  obtain ⟨text, rfl, hblank⟩ := h
  simp only [accepts, (readInstant_eq_ok_none_iff format _).mpr hblank]

/-- Apart from blank text, conversion to points in time agrees with the test for them. -/
theorem convert_agrees {v : Value} (h : ¬ v.IsBlankText) :
    Agrees kind.kind (accepts format v) (kind.convert format v) := by
  cases v
  case string text =>
    have hread : readInstant format text.toList ≠ .ok none := by
      rw [ne_eq, readInstant_eq_ok_none_iff]
      exact fun hblank => h ⟨text, rfl, hblank⟩
    rw [convert_string]
    simp only [accepts]
    cases hr : readInstant format text.toList with
    | error reason => rfl
    | ok i? =>
      cases i? with
      | none => exact absurd hr hread
      | some i => exact ⟨rfl, kind?_value kind i⟩
  case null | boolean | char | array | map | record => rfl
  all_goals exact ⟨rfl, kind?_value kind _⟩

end TemporalKind

/-! ## Text -/

/-- Only the permissive offset writes nothing. -/
theorem Item.text?_eq_none_iff (m : Moment) (item : Item) :
    item.text? m = none ↔ item = .offset .permissive := by
  cases item <;> try simp [Item.text?]
  case offset style => cases style <;> simp [OffsetStyle.text?]

/-- Something in a list has no image exactly if the list has none. -/
theorem mapM_eq_none_iff {α β : Type} {f : α → Option β} {l : List α} :
    l.mapM f = none ↔ ∃ a ∈ l, f a = none := by
  induction l with
  | nil => simp
  | cons a rest ih =>
    cases ha : f a with
    | none => simp [List.mapM_cons, ha]
    | some b => cases hrest : rest.mapM f <;> simp_all [List.mapM_cons]

/-- The items of a format have a text at a moment, unless the format cannot write. -/
theorem TemporalFormat.textOfItems?_eq_none_iff (format : TemporalFormat) (m : Moment) :
    textOfItems? m format.items = none ↔ format.isRenderable = false := by
  rw [textOfItems?, Option.map_eq_none_iff, mapM_eq_none_iff]
  simp [Item.text?_eq_none_iff, isRenderable]

/-- A format cannot write an instant that the calendar reaches if it holds an item that can only be
read. Instants beyond the calendar are written without the format. -/
def TemporalFormat.CannotWrite (format : TemporalFormat) (i : Instant) : Prop :=
  format.isRenderable = false ∧ i.moment?.isSome = true

/-- An instant has no text in a format for want of items exactly if the format cannot write it. -/
theorem TemporalFormat.render_eq_unrenderable_iff {format : TemporalFormat} {i : Instant} :
    format.render i = .error .unrenderable ↔ format.CannotWrite i := by
  unfold render CannotWrite
  cases i.moment? with
  | none => simp
  | some m =>
    rw [← format.textOfItems?_eq_none_iff m]
    cases ht : textOfItems? m format.items <;> simp [ht]

/-- An instant has a text, unless its format cannot write it. -/
theorem Value.instantText_cases (format : Option TemporalFormat) (i : Instant) :
    (∃ text, instantText format i = .ok text) ∨ ∃ f, format = some f ∧ f.CannotWrite i := by
  cases format with
  | none => exact .inl ⟨signedNumeral i.epochMillis.toInt, rfl⟩
  | some f =>
    cases hr : f.render i with
    | ok text => exact .inl ⟨text, by unfold instantText; simp only [hr]⟩
    | error e =>
      cases e with
      | outOfRange =>
        exact .inl ⟨signedNumeral i.epochMillis.toInt, by unfold instantText; simp only [hr]⟩
      | unrenderable => exact .inr ⟨f, rfl, TemporalFormat.render_eq_unrenderable_iff.mp hr⟩

/-- A value that is not null becomes text, unless it is an instant that its format cannot write. -/
theorem toText_cases (format : Option TemporalFormat) {v : Value} (hv : v ≠ .null) :
    (∃ text, toText format v = .ok (.string text)) ∨
      ∃ f i, format = some f ∧ v.instant? = some i ∧ f.CannotWrite i := by
  have hinstant : ∀ i, v.instant? = some i → v.render format =
        (Value.instantText format i).map (fun text => some (String.ofList text)) →
      (∃ text, toText format v = .ok (.string text)) ∨
        ∃ f i, format = some f ∧ v.instant? = some i ∧ f.CannotWrite i := by
    intro i hi hrender
    obtain ⟨text, ht⟩ | ⟨f, hf, hcannot⟩ := Value.instantText_cases format i
    · exact .inl ⟨String.ofList text, by rw [toText, hrender, ht]; rfl⟩
    · exact .inr ⟨f, i, hf, hi, hcannot⟩
  cases v
  case null => exact absurd rfl hv
  case date i | time i | timestamp i => exact hinstant i rfl rfl
  case string s => exact .inl ⟨s, rfl⟩
  all_goals exact .inl ⟨Value.display _, rfl⟩

/-- An instant that a format cannot write has no text. -/
theorem Value.render_of_cannotWrite {format : TemporalFormat} {v : Value} {i : Instant}
    (hi : v.instant? = some i) (h : format.CannotWrite i) :
    v.render (some format) = .error ⟨format⟩ := by
  have hrender := TemporalFormat.render_eq_unrenderable_iff.mpr h
  have htext : Value.instantText (some format) i = .error ⟨format⟩ := by
    unfold Value.instantText
    simp only [hrender]
  cases v <;> cases hi <;> simp only [Value.render, htext, Except.map]

/-- Such an instant stops the conversion to text. -/
theorem toText_of_cannotWrite {format : TemporalFormat} {v : Value} {i : Instant}
    (hi : v.instant? = some i) (h : format.CannotWrite i) :
    toText (some format) v = .error (.unrenderable format) := by
  rw [toText, Value.render_of_cannotWrite hi h]

/-! ## Numbers and points in time of text -/

section

variable (defaults : FormatDefaults)

/-- A numeric type accepts the texts that its kind reads. -/
theorem accepts_numeric_text (kind : NumericKind) (text : String) :
    accepts defaults kind.type (.string text) = (kind.read? text.toList).isSome :=
  accepts_numeric defaults (by simp) kind

/-- The conversion of a text to a number follows what is read from it. -/
theorem convert_numeric_text (kind : NumericKind) (text field : String) :
    convert defaults kind.type (.string text) field =
      match kind.read? text.toList with
      | some w => .ok w
      | none => .error (.failed ⟨.string text, kind.kind, field, .invalidLiteral kind.kind⟩) := by
  have hother : (Value.string text).kind? ≠ some kind.kind := by
    cases kind <;> exact fun h => nomatch h
  rw [convert_numeric defaults (by simp), NumericKind.convert, if_neg hother]
  cases kind.read? text.toList <;> rfl

/-- A temporal type accepts the texts that are read to an instant in its effective format. -/
theorem accepts_temporal_text (kind : TemporalKind) (format : Option TemporalFormat) (text : String) :
    accepts defaults (kind.type format) (.string text) =
      match TemporalKind.readInstant (defaults.effective? (kind.type format)) text.toList with
      | .ok (some _) => true
      | _ => false := by
  rw [accepts_temporal defaults (by simp), ← defaults.effective?_temporal]
  rfl

/-- The conversion of a text to a point in time follows what is read from it. -/
theorem convert_temporal_text (kind : TemporalKind) (format : Option TemporalFormat)
    (text field : String) :
    convert defaults (kind.type format) (.string text) field =
      match TemporalKind.readInstant (defaults.effective? (kind.type format)) text.toList with
      | .ok (some i) => .ok (kind.value i)
      | .ok none => .ok .null
      | .error reason => .error (.failed ⟨.string text, kind.kind, field, reason⟩) := by
  rw [convert_temporal defaults (by simp), ← defaults.effective?_temporal, TemporalKind.convert_string]
  cases TemporalKind.readInstant (defaults.effective? (kind.type format)) text.toList with
  | error reason => rfl
  | ok i? => cases i? <;> rfl

end

end RecordCoercion
