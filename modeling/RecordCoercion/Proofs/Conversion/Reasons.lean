import RecordCoercion.Proofs.Conversion.Location
import RecordCoercion.Proofs.Conversion.Shape
import RecordCoercion.Proofs.Numeric.Widening

/-!
# Why conversions fail

Each reason for a failure but the general one is due to certain types and values (`Reason.IsDue`), and no
two reasons to the same ones. A conversion that fails at its own level, and not in a member of a record,
gives the reason that is due, and the general one where none is (`Reason.IsExact`). It fails so where the
value is not accepted, up to what becomes null and what is taken apart (`IsTakenApart`).
`convert_reason_exact` is the top.
-/

set_option autoImplicit false

namespace RecordCoercion

namespace Value

/-- A value is a text. -/
def IsText (v : Value) : Prop := v.kind? = some .string

/-- A value is a floating-point number, and an infinity or "not a number". -/
inductive IsNotFinite : Value → Prop
  | float {x : Binary binary32} (h : x.isFinite = false) : IsNotFinite (.float x)
  | double {x : Binary binary64} (h : x.isFinite = false) : IsNotFinite (.double x)

/-- A value of the kind of texts is a text. -/
theorem exists_of_isText {v : Value} (h : v.IsText) : ∃ text, v = .string text := by
  cases v <;> cases h
  exact ⟨_, rfl⟩

end Value

namespace Reason

variable (defaults : FormatDefaults) (type : DeclaredType) (v : Value)

/-- The types and values that a reason is due to. The general reason is due to none: it is given where
no other one is due. -/
def IsDue : Reason → Prop
  | incompatible => False
  | invalidLiteral kind =>
    (type.kind = .boolean ∨ type.kind.isNumeric = true) ∧ v.IsText ∧ kind = type.kind
  | notEpochMillis => type.kind.isTemporal = true ∧ v.IsText ∧ defaults.effective? type = none
  | formatMismatch format =>
    type.kind.isTemporal = true ∧ v.IsText ∧ defaults.effective? type = some format
  | emptyText => type = .char ∧ v = .string ""
  | nonFinite => type = .bigInt ∧ v.IsNotFinite
  | missingSchema => type = .record none ∧ v.kind? = some .map
  | noMatchingCandidate displays =>
    ∃ candidates, type = .choice candidates ∧ displays = candidates.map DeclaredType.display

/-- A reason is the one that the type and the value call for: a special one exactly if it is due, and the
general one exactly if none is. -/
structure IsExact (reason : Reason) : Prop where
  special : ∀ other : Reason, other ≠ .incompatible →
    (reason = other ↔ other.IsDue defaults type v)
  general : reason = .incompatible ↔ ∀ other : Reason, ¬ other.IsDue defaults type v

variable {defaults type v} {reason : Reason}

/-- The general reason is due to nothing. -/
theorem IsDue.ne_incompatible (h : reason.IsDue defaults type v) : reason ≠ .incompatible := by
  rintro rfl
  exact h

/-- The only reason that is due is the exact one. -/
theorem IsExact.of_isDue (h : ∀ other : Reason, other.IsDue defaults type v ↔ reason = other) :
    reason.IsExact defaults type v := by
  have hdue : reason.IsDue defaults type v := (h reason).mpr rfl
  exact ⟨fun other _ => (h other).symm, iff_of_false hdue.ne_incompatible fun hnone => hnone reason hdue⟩

/-- Where no reason is due the general one is exact. -/
theorem IsExact.of_forall_not_isDue (h : ∀ other : Reason, ¬ other.IsDue defaults type v) :
    incompatible.IsExact defaults type v :=
  ⟨fun other hother => iff_of_false hother.symm (h other), iff_of_true rfl h⟩

end Reason

/-! ## What is due to each family of types -/

/-- The reason for which a text is not read: it is not in the format, or no count of milliseconds where
there is none. -/
def Reason.unread : Option TemporalFormat → Reason
  | some format => .formatMismatch format
  | none => .notEpochMillis

section

variable {defaults : FormatDefaults} {v : Value} {reason : Reason}

section

-- the families are told apart by computing their kinds
attribute [local simp] Reason.IsDue DeclaredType.kind FieldKind.isNumeric FieldKind.isIntegral
  FieldKind.isFloating FieldKind.isTemporal

/-- To a truth value, a bad literal is due and nothing else. -/
theorem isDue_boolean_iff :
    reason.IsDue defaults .boolean v ↔ v.IsText ∧ reason = .invalidLiteral .boolean := by
  cases reason <;> simp

/-- To a number, a bad literal is due, and to an integer of any width also what is not finite. -/
theorem isDue_numeric_iff (kind : NumericKind) :
    reason.IsDue defaults kind.type v ↔
      (v.IsText ∧ reason = .invalidLiteral kind.kind) ∨
        (kind = .bigInt ∧ v.IsNotFinite ∧ reason = .nonFinite) := by
  cases kind <;> cases reason <;> simp [NumericKind.type, NumericKind.kind]

/-- To a character, empty text is due and nothing else. -/
theorem isDue_char_iff :
    reason.IsDue defaults .char v ↔ v = .string "" ∧ reason = .emptyText := by
  cases reason <;> simp

/-- To a point in time, a text that is not read in the effective format is due. -/
theorem isDue_temporal_iff (kind : TemporalKind) (format : Option TemporalFormat) :
    reason.IsDue defaults (kind.type format) v ↔
      v.IsText ∧ reason = .unread (defaults.effective? (kind.type format)) := by
  cases heffective : defaults.effective? (kind.type format) <;> cases kind <;> cases reason <;>
    simp_all [TemporalKind.type, Reason.unread]
  all_goals exact fun _ => eq_comm

/-- To an array nothing special is due. -/
theorem not_isDue_array : ¬ reason.IsDue defaults .array v := by
  cases reason <;> simp

/-- To a map nothing special is due. -/
theorem not_isDue_map : ¬ reason.IsDue defaults .map v := by
  cases reason <;> simp

/-- To a record without a schema, a map is due and nothing else. -/
theorem isDue_record_iff (schema : Option RecordSchema) :
    reason.IsDue defaults (.record schema) v ↔
      schema = none ∧ v.kind? = some .map ∧ reason = .missingSchema := by
  cases reason <;> simp

/-- To a choice, the list of its candidates is due. -/
theorem isDue_choice_iff (candidates : List DeclaredType) :
    reason.IsDue defaults (.choice candidates) v ↔
      reason = .noMatchingCandidate (candidates.map DeclaredType.display) := by
  cases reason <;> simp

end

/-! ## What the single conversions give -/

/-- The conversion to truth values fails for a bad literal or, of no text, in general. -/
theorem reason_of_toBoolean (h : toBoolean v = .error reason) :
    (v.IsText ∧ reason = .invalidLiteral .boolean) ∨ (¬ v.IsText ∧ reason = .incompatible) := by
  by_cases htext : v.IsText
  · obtain ⟨text, rfl⟩ := Value.exists_of_isText htext
    simp only [toBoolean] at h
    split at h <;> cases h
    exact .inl ⟨htext, rfl⟩
  · refine .inr ⟨htext, ?_⟩
    cases v <;> first | exact absurd rfl htext | cases h
    all_goals rfl

/-- The conversion to characters fails for empty text or in general. -/
theorem reason_of_toChar (h : toChar v = .error reason) :
    (v = .string "" ∧ reason = .emptyText) ∨ (v ≠ .string "" ∧ reason = .incompatible) := by
  cases v
  case string text =>
    simp only [toChar] at h
    split at h
    next => cases h
    next hempty =>
      cases h
      rw [String.toList_eq_nil_iff.mp hempty]
      exact .inl ⟨rfl, rfl⟩
  case char => cases h
  all_goals
    cases h
    exact .inr ⟨by simp, rfl⟩

/-- Only an infinity or "not a number" has no integer. -/
theorem isNotFinite_of_ofNumber? {kind : NumericKind} {number : Number}
    (hnumber : Number.ofValue? v = some number) (h : kind.ofNumber? number = none) :
    kind = .bigInt ∧ v.IsNotFinite := by
  have hsome := kind.isSome_ofNumber? number
  rw [h, Option.isSome_none, eq_comm, Bool.or_eq_false_iff] at hsome
  obtain ⟨hkind, hfinite⟩ := hsome
  refine ⟨by simpa using hkind, ?_⟩
  cases v <;> cases hnumber
  case float x =>
    refine .float (Bool.eq_false_iff.mpr fun hx => ?_)
    rw [Number.isFinite, (Binary.convert_spec BinaryFormat.binary32_le_binary64 hx).1] at hfinite
    cases hfinite
  case double x => exact .double hfinite
  all_goals cases hfinite

/-- A value that is not finite is a number and no point in time. -/
theorem Value.IsNotFinite.exists_number (h : v.IsNotFinite) :
    ∃ number, Number.ofValue? v = some number ∧ v.instant? = none := by
  cases h <;> exact ⟨_, rfl, rfl⟩

/-- The conversion to numbers fails for a bad literal, for what is not finite or in general. -/
theorem reason_of_convert_numeric {kind : NumericKind} (h : kind.convert v = .error reason) :
    (v.IsText ∧ reason = .invalidLiteral kind.kind) ∨
      (kind = .bigInt ∧ v.IsNotFinite ∧ reason = .nonFinite) ∨
      (¬ v.IsText ∧ ¬ (kind = .bigInt ∧ v.IsNotFinite) ∧ reason = .incompatible) := by
  unfold NumericKind.convert at h
  split at h
  next => cases h
  next =>
    split at h
    next text =>
      split at h <;> cases h
      exact .inl ⟨rfl, rfl⟩
    next hstring =>
      have htext : ¬ v.IsText := by
        intro htext
        obtain ⟨text, rfl⟩ := Value.exists_of_isText htext
        exact hstring text rfl
      right
      split at h
      next i _ hinstant =>
        split at h <;> cases h
        refine .inr ⟨htext, ?_, rfl⟩
        rintro ⟨-, hfinite⟩
        obtain ⟨_, -, hnone⟩ := hfinite.exists_number
        rw [hnone] at hinstant
        cases hinstant
      next number _ hnumber =>
        split at h <;> cases h
        next hnone =>
          obtain ⟨hkind, hfinite⟩ := isNotFinite_of_ofNumber? hnumber hnone
          exact .inl ⟨hkind, hfinite, rfl⟩
      next _ hnumber =>
        cases h
        refine .inr ⟨htext, ?_, rfl⟩
        rintro ⟨-, hfinite⟩
        obtain ⟨_, hsome, -⟩ := hfinite.exists_number
        rw [hsome] at hnumber
        cases hnumber

/-- A text that gives no point in time is not blank. Without a format it is no count of milliseconds of
64 bits. -/
theorem reason_of_readInstant {format : Option TemporalFormat} {text : List Char}
    (h : TemporalKind.readInstant format text = .error reason) :
    reason = .unread format ∧ trim text ≠ [] ∧
      (format = none → ∀ n, readSigned? (trim text) = some n →
        IntRange.bits64.contains n = false) := by
  simp only [TemporalKind.readInstant] at h
  split at h
  next => cases h
  next hblank =>
    have hblank : trim text ≠ [] := by simpa using hblank
    split at h
    next =>
      split at h
      next n hn =>
        split at h <;> cases h
        next hrange =>
          refine ⟨rfl, hblank, fun _ m hm => ?_⟩
          cases hn.symm.trans hm
          exact Bool.eq_false_iff.mpr hrange
      next hn =>
        cases h
        refine ⟨rfl, hblank, fun _ m hm => ?_⟩
        rw [hn] at hm
        cases hm
    next format =>
      split at h <;> cases h
      exact ⟨rfl, hblank, by simp⟩

/-- The conversion to points in time fails for a text that is not read or, of no text, in general. -/
theorem reason_of_convert_temporal {kind : TemporalKind} {format : Option TemporalFormat}
    (h : kind.convert format v = .error reason) :
    (v.IsText ∧ reason = .unread format) ∨ (¬ v.IsText ∧ reason = .incompatible) := by
  by_cases htext : v.IsText
  · obtain ⟨text, rfl⟩ := Value.exists_of_isText htext
    rw [TemporalKind.convert_string] at h
    split at h <;> cases h
    next hread => exact .inl ⟨htext, (reason_of_readInstant hread).1⟩
  · refine .inr ⟨htext, ?_⟩
    cases v <;> first | exact absurd rfl htext | cases h
    all_goals rfl

/-- The conversion to arrays fails in general only. -/
theorem reason_of_toArray (h : toArray v = .error reason) : reason = .incompatible := by
  cases v <;> cases h <;> rfl

/-- The conversion to maps fails in general only. -/
theorem reason_of_toMap (h : toMap v = .error reason) : reason = .incompatible := by
  cases v <;> cases h <;> rfl

/-! ## Failures at their own level -/

variable {type : DeclaredType}

/-- A failure that has nothing to do with members gives the exact reason. -/
theorem FailsItself.isExact (h : FailsItself defaults v type reason) :
    reason.IsExact defaults type v := by
  cases h with
  | boolean h =>
    obtain ⟨htext, rfl⟩ | ⟨htext, rfl⟩ := reason_of_toBoolean h
    · exact .of_isDue fun other => isDue_boolean_iff.trans (by simp [htext, eq_comm])
    · exact .of_forall_not_isDue fun other => by simp [isDue_boolean_iff, htext]
  | @numeric kind _ h =>
    obtain ⟨htext, rfl⟩ | ⟨rfl, hfinite, rfl⟩ | ⟨htext, hfinite, rfl⟩ := reason_of_convert_numeric h
    · have hfinite : ¬ v.IsNotFinite := by
        rintro (_ | _) <;> cases htext
      exact .of_isDue fun other => (isDue_numeric_iff kind).trans (by simp [htext, hfinite, eq_comm])
    · have htext : ¬ v.IsText := by
        rintro htext
        cases hfinite <;> cases htext
      exact .of_isDue fun other => (isDue_numeric_iff .bigInt).trans (by simp [htext, hfinite, eq_comm])
    · refine .of_forall_not_isDue fun other hdue => ?_
      obtain ⟨htext', -⟩ | ⟨hkind, hfinite', -⟩ := (isDue_numeric_iff kind).mp hdue
      · exact htext htext'
      · exact hfinite ⟨hkind, hfinite'⟩
  | char h =>
    obtain ⟨hempty, rfl⟩ | ⟨hempty, rfl⟩ := reason_of_toChar h
    · exact .of_isDue fun other => isDue_char_iff.trans (by simp [hempty, eq_comm])
    · exact .of_forall_not_isDue fun other => by simp [isDue_char_iff, hempty]
  | @temporal kind format _ h =>
    have heffective := defaults.effective?_temporal kind format
    obtain ⟨htext, rfl⟩ | ⟨htext, rfl⟩ := reason_of_convert_temporal h
    · exact .of_isDue fun other =>
        (isDue_temporal_iff kind format).trans (by simp [heffective, htext, eq_comm])
    · exact .of_forall_not_isDue fun other => by simp [isDue_temporal_iff, htext]
  | array h =>
    rw [reason_of_toArray h]
    exact .of_forall_not_isDue fun other => not_isDue_array
  | map h =>
    rw [reason_of_toMap h]
    exact .of_forall_not_isDue fun other => not_isDue_map
  | bareRecord hmap =>
    exact .of_isDue fun other => (isDue_record_iff none).trans (by simp [hmap, eq_comm])
  | @record schema hmap _ => exact .of_forall_not_isDue fun other => by simp [isDue_record_iff, hmap]
  | choice _ => exact .of_isDue fun other => (isDue_choice_iff _).trans eq_comm

/-- Members are smaller than what they are members of. -/
theorem Reaches.sizeOf_le {t : DeclaredType} {x : Value} {names : List String}
    (h : Reaches type v names t x) : sizeOf x + names.length ≤ sizeOf v := by
  induction h with
  | here type v => exact le_rfl
  | @member schema entries key name type t v x names hmem _ _ _ ih =>
    have hsize := List.sizeOf_lt_of_mem hmem
    simp only [Prod.mk.sizeOf_spec] at hsize
    simp only [Value.map.sizeOf_spec, List.length_cons]
    omega

/-- A failure that names the value itself has nothing to do with its members. -/
theorem convert_eq_failed_iff (hv : v ≠ .null) (field : String) :
    convert defaults type v field = .error (.failed ⟨v, type.kind, field, reason⟩) ↔
      FailsItself defaults v type reason := by
  refine ⟨fun herror => ?_, fun hfails => hfails.convert_eq hv field⟩
  cases hasOutcome defaults type v with
  | value w h =>
    rw [h] at herror
    cases herror
  | failure names t x _ hreach _ hfails h =>
    rw [h] at herror
    simp only [Except.error.injEq, ConversionError.failed.injEq, Failure.mk.injEq] at herror
    obtain ⟨rfl, -, -, rfl⟩ := herror
    have hsize := hreach.sizeOf_le
    obtain rfl : names = [] := List.eq_nil_of_length_eq_zero (by omega)
    cases hreach
    exact hfails
  | stuck format _ h =>
    rw [h] at herror
    cases herror

/-- A conversion that its test says no to fails. -/
theorem Agrees.exists_error {kind : FieldKind} {result : Except Reason Value}
    (h : Agrees kind false result) : ∃ reason, result = .error reason := by
  cases result with
  | ok w => cases h.1
  | error reason => exact ⟨reason, rfl⟩

/-- A record is not accepted by the type of maps and a map not by a record type, but neither fails at its
own level: the one becomes a map, and of the other it is the entries that may fail. -/
def IsTakenApart (type : DeclaredType) (v : Value) : Prop :=
  (type = .map ∧ v.kind? = some .record) ∨
    ((∃ schema, type = .record (some schema)) ∧ v.kind? = some .map)

/-- What is neither accepted nor becomes null, and is not taken apart either, fails. -/
theorem exists_failsItself (hv : v ≠ .null) (haccepts : accepts defaults type v = false)
    (hnull : ¬ BecomesNull type v) (hapart : ¬ IsTakenApart type v) :
    ∃ reason, FailsItself defaults v type reason := by
  cases type using DeclaredType.familyCases with
  | boolean =>
    rw [accepts_boolean defaults hv] at haccepts
    obtain ⟨reason, h⟩ := (haccepts ▸ toBoolean_agrees v).exists_error
    exact ⟨reason, .boolean h⟩
  | numeric kind =>
    rw [accepts_numeric defaults hv] at haccepts
    obtain ⟨reason, h⟩ := (haccepts ▸ kind.convert_agrees v).exists_error
    exact ⟨reason, .numeric h⟩
  | char =>
    rw [accepts_char defaults hv] at haccepts
    obtain ⟨reason, h⟩ := (haccepts ▸ toChar_agrees v).exists_error
    exact ⟨reason, .char h⟩
  | string format =>
    rw [accepts_string defaults hv] at haccepts
    cases haccepts
  | temporal kind format =>
    rw [accepts_temporal defaults hv] at haccepts
    have hblank : ¬ v.IsBlankText := fun hblank =>
      hnull (.inr ⟨by rw [kind.kind_type, kind.isComposite_kind.2], hblank⟩)
    obtain ⟨reason, h⟩ := (haccepts ▸ kind.convert_agrees _ hblank).exists_error
    exact ⟨reason, .temporal h⟩
  | array =>
    rw [accepts_array defaults hv] at haccepts
    obtain ⟨reason, h⟩ := (haccepts ▸ toArray_agrees v).exists_error
    exact ⟨reason, .array h⟩
  | map =>
    rw [accepts_map defaults hv, beq_eq_false_iff_ne] at haccepts
    have hrecord : v.kind? ≠ some .record := fun hrecord => hapart (.inl ⟨rfl, hrecord⟩)
    have hagrees := toMap_agrees v
    rw [beq_eq_false_iff_ne.mpr haccepts, beq_eq_false_iff_ne.mpr hrecord] at hagrees
    obtain ⟨reason, h⟩ := hagrees.exists_error
    exact ⟨reason, .map h⟩
  | record schema =>
    rw [accepts_record defaults hv, beq_eq_false_iff_ne] at haccepts
    by_cases hmap : v.kind? = some .map
    · cases schema with
      | none => exact ⟨_, .bareRecord hmap⟩
      | some schema => exact absurd (.inr ⟨⟨schema, rfl⟩, hmap⟩) hapart
    · exact ⟨_, .record hmap haccepts⟩
  | choice candidates =>
    rw [accepts_choice defaults hv, List.any_eq_false] at haccepts
    exact ⟨_, .choice fun candidate hmem => by simpa using haccepts candidate hmem⟩

/-- What fails is not accepted. -/
theorem FailsItself.accepts_eq_false (h : FailsItself defaults v type reason) (hv : v ≠ .null) :
    accepts defaults type v = false := by
  rw [Bool.eq_false_iff]
  intro haccepts
  have herror := h.convert_eq hv ""
  obtain ⟨w, hw, -⟩ | ⟨format, -, -, hstuck⟩ := convert_cases_of_accepts haccepts ""
  · rw [herror] at hw
    cases hw
  · rw [herror] at hstuck
    cases hstuck

/-- What becomes null does not fail. -/
theorem FailsItself.not_becomesNull (h : FailsItself defaults v type reason) (hv : v ≠ .null) :
    ¬ BecomesNull type v := by
  rintro (hnull | ⟨htemporal, hblank⟩)
  · exact hv hnull
  · obtain ⟨kind, format, rfl⟩ := DeclaredType.exists_temporal htemporal
    have herror := h.convert_eq hv ""
    rw [convert_temporal defaults hv, kind.convert_of_isBlankText _ hblank] at herror
    cases herror

/-- What is taken apart does not fail at its own level. -/
theorem FailsItself.not_isTakenApart (h : FailsItself defaults v type reason) :
    ¬ IsTakenApart type v := by
  rintro (⟨htype, hrecord⟩ | ⟨⟨schema, htype⟩, hmap⟩)
  · obtain ⟨bound, members, rfl⟩ := Value.exists_of_kind?_record hrecord
    cases h with
    | map h => cases h
    | @numeric kind _ _ => cases kind <;> cases htype
    | @temporal kind _ _ _ => cases kind <;> cases htype
    | _ => cases htype
  · cases h with
    | record hother _ => exact hother hmap
    | @numeric kind _ _ => cases kind <;> cases htype
    | @temporal kind _ _ _ => cases kind <;> cases htype
    | _ => cases htype

/-- A failure is at its own level, or in a member of the record that a map is to become. -/
theorem failed_eq_or_exists_schema (hv : v ≠ .null) {field : String} {failure : Failure}
    (h : convert defaults type v field = .error (.failed failure)) :
    failure = ⟨v, type.kind, field, failure.reason⟩ ∨
      (∃ schema, type = .record (some schema)) ∧ v.kind? = some .map := by
  cases hasOutcome defaults type v with
  | value w hvalue =>
    rw [hvalue] at h
    cases h
  | failure names t x reason hreach _ _ herror =>
    rw [herror] at h
    cases h
    cases hreach with
    | here => exact .inl rfl
    | @member schema _ _ _ _ _ _ _ _ _ _ _ _ => exact .inr ⟨⟨schema, rfl⟩, rfl⟩
  | stuck format _ hstuck =>
    rw [hstuck] at h
    cases h

/-- What is no count of milliseconds is a text that is not blank. -/
theorem FailsItself.exists_text (h : FailsItself defaults v type .notEpochMillis) :
    ∃ text, v = .string text ∧ trim text.toList ≠ [] ∧
      ∀ n, readSigned? (trim text.toList) = some n → IntRange.bits64.contains n = false := by
  obtain ⟨htemporal, htext, -⟩ := (h.isExact.special .notEpochMillis (by simp)).mp rfl
  obtain ⟨text, rfl⟩ := Value.exists_of_isText htext
  obtain ⟨kind, format, rfl⟩ := DeclaredType.exists_temporal htemporal
  have herror := h.convert_eq (by simp) ""
  rw [convert_temporal defaults (by simp), TemporalKind.convert_string, kind.kind_type] at herror
  cases hread : TemporalKind.readInstant (format.or (defaults.format? kind.kind)) text.toList with
  | ok i? =>
    rw [hread] at herror
    cases i? <;> cases herror
  | error reason =>
    rw [hread] at herror
    cases herror
    obtain ⟨hreason, hblank, hcount⟩ := reason_of_readInstant hread
    refine ⟨text, rfl, hblank, hcount ?_⟩
    cases hformat : format.or (defaults.format? kind.kind) with
    | none => rfl
    | some format =>
      rw [hformat] at hreason
      cases hreason

end

/-- A conversion that fails at its own level gives the reason that is due to the type and the value, and
the general one where none is due. It fails so exactly if the value is not accepted, does not become null
and is not taken apart; and only a failure in a member of a record that is made of a map is not at its own
level. Conversion to text never fails. -/
theorem convert_reason_exact (defaults : FormatDefaults) (type : DeclaredType) {v : Value}
    (hv : v ≠ .null) (field : String) :
    (∀ reason, convert defaults type v field = .error (.failed ⟨v, type.kind, field, reason⟩) →
      reason.IsExact defaults type v ∧
      (reason = .notEpochMillis → ∃ text, v = .string text ∧ trim text.toList ≠ [] ∧
        ∀ n, readSigned? (trim text.toList) = some n → IntRange.bits64.contains n = false)) ∧
    ((∃ reason, convert defaults type v field =
        .error (.failed ⟨v, type.kind, field, reason⟩)) ↔
      accepts defaults type v = false ∧ ¬ BecomesNull type v ∧ ¬ IsTakenApart type v) ∧
    (∀ failure, convert defaults type v field = .error (.failed failure) →
      failure = ⟨v, type.kind, field, failure.reason⟩ ∨
        (∃ schema, type = .record (some schema)) ∧ v.kind? = some .map) ∧
    ∀ format w failure, convert defaults (.string format) w field ≠ .error (.failed failure) := by
  simp only [convert_eq_failed_iff hv]
  refine ⟨fun reason h => ⟨h.isExact, ?_⟩, ⟨?_, ?_⟩, fun failure => failed_eq_or_exists_schema hv, ?_⟩
  · rintro rfl
    exact h.exists_text
  · rintro ⟨reason, h⟩
    exact ⟨h.accepts_eq_false hv, h.not_becomesNull hv, h.not_isTakenApart⟩
  · rintro ⟨haccepts, hnull, hapart⟩
    exact exists_failsItself hv haccepts hnull hapart
  · intro format w failure herror
    by_cases hw : w = .null
    · rw [hw, convert_null] at herror
      cases herror
    rw [convert_string defaults hw] at herror
    obtain ⟨text, htext⟩ | ⟨f, i, rfl, hi, hcannot⟩ := toText_cases format hw
    · rw [htext] at herror
      cases herror
    · rw [toText_of_cannotWrite hi hcannot] at herror
      cases herror

/-- "Not a number" in single precision is no integer for the reason that it is not finite, and a date that
is not in the conventional format of dates for this one. -/
theorem convert_reason_exact_not_finite_and_wrong_format :
    Value.float (.nan false) ≠ .null ∧ Reason.nonFinite.IsExact .empty .bigInt (.float (.nan false)) ∧
      Value.string "2020-02-30" ≠ .null ∧
      (Reason.formatMismatch .isoDate).IsExact .standard (.date none) (.string "2020-02-30") := by
  have hnan : convert .empty .bigInt (.float (.nan false)) "n" =
      .error (.failed ⟨.float (.nan false), .bigInt, "n", .nonFinite⟩) := rfl
  have hdate : convert .standard (.date none) (.string "2020-02-30") "d" =
      .error (.failed ⟨.string "2020-02-30", .date, "d", .formatMismatch .isoDate⟩) := by
    rfl
  exact ⟨by simp, ((convert_reason_exact .empty .bigInt (by simp) "n").1 _ hnan).1, by simp,
    ((convert_reason_exact .standard (.date none) (by simp) "d").1 _ hdate).1⟩

end RecordCoercion
