import RecordCoercion.Proofs.Conversion.MapToRecord
import RecordCoercion.Proofs.Conversion.Scalars

/-!
# Acceptance agrees with conversion

`accepts` and `convert` are written apart, each as its own case analysis over types and values.
`verdict` brings the two together, by induction over the type, because a choice hands over to the
candidate that accepts: what is accepted converts to a value that is not null, unless a format cannot
write, and what is refused converts in two cases only, records to maps and maps to records
(`ConvertsUnaccepted`). `convert_ok_iff_accepts` is the top.
-/

set_option autoImplicit false

namespace RecordCoercion

/-- The conversions of what is not accepted: a record becomes a map, and a map becomes a record if all
entries that belong to a field convert. -/
inductive ConvertsUnaccepted (defaults : FormatDefaults) (field : String) :
    DeclaredType → Value → Prop
  | mapOfRecord (bound : RecordSchema) (members : Members) :
      ConvertsUnaccepted defaults field .map (.record bound members)
  | recordOfMap {schema : RecordSchema} {entries : Entries}
      (h : ∀ kept ∈ keptEntries schema entries, ∃ w, kept.convert defaults field = .ok w) :
      ConvertsUnaccepted defaults field (.record (some schema)) (.map entries)

/-- What the test for a type and the conversion to it come to together. -/
inductive Verdict (defaults : FormatDefaults) (type : DeclaredType) (v : Value) (field : String) :
    Prop
  | accepted (w : Value) (haccepts : accepts defaults type v = true)
      (h : convert defaults type v field = .ok w) (hw : w ≠ .null)
  | unrenderable (format : TemporalFormat) (haccepts : accepts defaults type v = true)
      (hholds : type.HoldsTextFormat format) (hformat : format.isRenderable = false)
      (h : convert defaults type v field = .error (.unrenderable format))
  | refused (haccepts : accepts defaults type v = false)
      (h : ∀ w, convert defaults type v field = .ok w → w ≠ .null →
        ConvertsUnaccepted defaults field type v)

section

variable {defaults : FormatDefaults} {type : DeclaredType} {v : Value} {field : String}

/-- A conversion that agrees with its test is accepted if it gives a value and refused if it does
not. -/
theorem Agrees.verdict {kind : FieldKind} {accepted : Bool} {result : Except Reason Value}
    (h : Agrees kind accepted result) (haccepts : accepts defaults type v = accepted)
    (hconvert : convert defaults type v field = settled v kind field result) :
    Verdict defaults type v field := by
  cases result with
  | ok w =>
    obtain ⟨haccepted, hkind⟩ := h
    exact .accepted w (haccepts.trans haccepted) hconvert (Value.ne_null_of_kind? hkind)
  | error reason =>
    refine .refused (haccepts.trans h) ?_
    rintro w hw -
    rw [hconvert, settled_eq_ok_iff] at hw
    cases hw

/-- What converts to a record is a record, or a map all of whose entries that belong to a field
convert. -/
theorem source_of_record {schema : Option RecordSchema} {w : Value} (hv : v ≠ .null)
    (h : convert defaults (.record schema) v field = .ok w) :
    v.kind? = some .record ∨
      ∃ s entries, schema = some s ∧ v = .map entries ∧
        ∀ kept ∈ keptEntries s entries, ∃ w, kept.convert defaults field = .ok w := by
  by_cases hrecord : v.kind? = some .record
  · exact .inl hrecord
  · right
    by_cases hmap : v.kind? = some .map
    · obtain ⟨entries, rfl⟩ := Value.exists_of_kind?_map hmap
      cases schema with
      | none =>
        rw [convert_bareRecord_of_map] at h
        cases h
      | some s =>
        exact ⟨s, entries, rfl, rfl, convert_map_isOk_iff.mp ⟨w, h⟩⟩
    · rw [convert_record_of_other defaults hv schema hmap hrecord] at h
      cases h

/-- A record type accepts records, and maps become records without being accepted. -/
theorem record_verdict (schema : Option RecordSchema) (hv : v ≠ .null) :
    Verdict defaults (.record schema) v field := by
  have haccepts := accepts_record defaults hv schema
  by_cases hkind : v.kind? = some .record
  · obtain ⟨bound, members, rfl⟩ := Value.exists_of_kind?_record hkind
    exact .accepted _ haccepts (convert_record_of_record defaults schema bound members field) hv
  · refine .refused (by rw [haccepts, beq_eq_false_iff_ne]; exact hkind) ?_
    rintro w hw -
    obtain hrecord | ⟨s, entries, rfl, rfl, hkept⟩ := source_of_record hv hw
    · exact absurd hrecord hkind
    · exact .recordOfMap hkept

/-- Maps are accepted as maps, and records become maps without being accepted. -/
theorem map_verdict (hv : v ≠ .null) : Verdict defaults .map v field := by
  have haccepts := accepts_map defaults hv
  by_cases hkind : v.kind? = some .record
  · obtain ⟨bound, members, rfl⟩ := Value.exists_of_kind?_record hkind
    exact .refused haccepts fun _ _ _ => .mapOfRecord bound members
  · have hsame : accepts defaults .map v = (v.kind? == some .map || v.kind? == some .record) := by
      rw [haccepts, beq_eq_false_iff_ne.mpr hkind, Bool.or_false]
    exact (toMap_agrees v).verdict hsame (convert_map defaults hv field)

/-- A choice goes by the verdict on the chosen candidate. -/
theorem choice_verdict {candidates : List DeclaredType} (hv : v ≠ .null)
    (ih : ∀ candidate ∈ candidates, Verdict defaults candidate v field) :
    Verdict defaults (.choice candidates) v field := by
  have haccepts := accepts_choice defaults hv candidates
  obtain ⟨index, candidate, hchosen⟩ | hnone := choose?_cases defaults candidates v
  · obtain ⟨hmem, hcandidate⟩ := accepts_of_choose? defaults hchosen
    have hyes : accepts defaults (.choice candidates) v = true := by
      rw [haccepts, List.any_eq_true]
      exact ⟨candidate, hmem, hcandidate⟩
    have hconvert := convert_choice_of_choose? defaults hchosen field
    cases ih candidate hmem with
    | accepted w _ h hw => exact .accepted w hyes (hconvert.trans h) hw
    | unrenderable format _ hholds hformat h =>
      exact .unrenderable format hyes (.candidate hmem hholds) hformat (hconvert.trans h)
    | refused hno _ =>
      -- the exceptions are refused, so none of them is chosen
      rw [hcandidate] at hno
      cases hno
  · refine .refused (by rw [haccepts, List.any_eq_false]; simpa using hnone) ?_
    rintro w hw -
    rw [convert_choice_of_forall defaults hv hnone] at hw
    cases hw

/-- Test and conversion come to a verdict on every value that is not null. -/
theorem verdict (defaults : FormatDefaults) (type : DeclaredType) (hv : v ≠ .null)
    (field : String) : Verdict defaults type v field := by
  induction type using DeclaredType.familyInduction with
  | boolean =>
    exact (toBoolean_agrees v).verdict (accepts_boolean defaults hv)
      (convert_boolean defaults hv field)
  | numeric kind =>
    exact (kind.convert_agrees v).verdict (accepts_numeric defaults hv kind)
      (convert_numeric defaults hv kind field)
  | char =>
    exact (toChar_agrees v).verdict (accepts_char defaults hv) (convert_char defaults hv field)
  | string format =>
    have haccepts := accepts_string defaults hv format
    have hconvert := convert_string defaults hv format field
    obtain ⟨text, ht⟩ | ⟨f, i, rfl, hi, hcannot⟩ := toText_cases format hv
    · exact .accepted (.string text) haccepts (hconvert.trans ht) (by simp)
    · exact .unrenderable f haccepts .here hcannot.1 (hconvert.trans (toText_of_cannotWrite hi hcannot))
  | temporal kind format =>
    have haccepts := accepts_temporal defaults hv kind format
    have hconvert := convert_temporal defaults hv kind format field
    by_cases hblank : v.IsBlankText
    · rw [TemporalKind.accepts_of_isBlankText _ hblank] at haccepts
      refine .refused haccepts fun w hw hne => ?_
      rw [hconvert, kind.convert_of_isBlankText _ hblank] at hw
      cases hw
      exact absurd rfl hne
    · exact (kind.convert_agrees _ hblank).verdict haccepts hconvert
  | array =>
    exact (toArray_agrees v).verdict (accepts_array defaults hv) (convert_array defaults hv field)
  | map => exact map_verdict hv
  | bareRecord => exact record_verdict none hv
  | record schema _ => exact record_verdict (some schema) hv
  | choice candidates ih => exact choice_verdict hv ih

/-- What is accepted converts to a value, or a format for text cannot write. -/
theorem convert_cases_of_accepts (h : accepts defaults type v = true) (field : String) :
    (∃ w, convert defaults type v field = .ok w ∧ w ≠ .null) ∨
      ∃ format, type.HoldsTextFormat format ∧ format.isRenderable = false ∧
        convert defaults type v field = .error (.unrenderable format) := by
  cases verdict defaults type (ne_null_of_accepts h) field with
  | accepted w _ hconvert hw => exact .inl ⟨w, hconvert, hw⟩
  | unrenderable format _ hholds hformat hconvert =>
    exact .inr ⟨format, hholds, hformat, hconvert⟩
  | refused hno _ =>
    rw [h] at hno
    cases hno

/-- What is accepted converts to a value, provided that all formats for text can write. -/
theorem convert_of_accepts (hwrites : type.WritesText) (h : accepts defaults type v = true) :
    ∃ w, convert defaults type v field = .ok w ∧ w ≠ .null := by
  obtain hvalue | ⟨format, hholds, hformat, -⟩ := convert_cases_of_accepts h field
  · exact hvalue
  · rw [hwrites format hholds] at hformat
    cases hformat

/-- What converts to a value was accepted, or is one of the exceptions. -/
theorem accepts_of_convert {w : Value} (hv : v ≠ .null)
    (h : convert defaults type v field = .ok w) (hw : w ≠ .null) :
    accepts defaults type v = true ∨ ConvertsUnaccepted defaults field type v := by
  cases verdict defaults type hv field with
  | accepted _ haccepts _ _ => exact .inl haccepts
  | unrenderable _ haccepts _ _ _ => exact .inl haccepts
  | refused _ hexception => exact .inr (hexception w h hw)

/-- The exceptions do convert to values. -/
theorem ConvertsUnaccepted.exists_ok (h : ConvertsUnaccepted defaults field type v) :
    ∃ w, convert defaults type v field = .ok w ∧ w ≠ .null := by
  cases h with
  | mapOfRecord bound members =>
    refine ⟨.map (flattened bound members), ?_, by simp⟩
    rw [convert_map defaults (by simp)]
    rfl
  | recordOfMap h =>
    obtain ⟨value, hvalue⟩ := exists_values h
    exact ⟨_, convert_map_of_forall_ok hvalue, by simp⟩

/-- What converts to a choice was accepted. -/
theorem accepts_of_convert_choice {candidates : List DeclaredType} {w : Value} (hv : v ≠ .null)
    (h : convert defaults (.choice candidates) v field = .ok w) :
    accepts defaults (.choice candidates) v = true := by
  rw [accepts_choice defaults hv, List.any_eq_true]
  obtain ⟨index, candidate, hchosen⟩ | hnone := choose?_cases defaults candidates v
  · exact ⟨candidate, accepts_of_choose? defaults hchosen⟩
  · rw [convert_choice_of_forall defaults hv hnone] at h
    cases h

/-- What does not convert to a choice was accepted by no candidate, and the reason says so. -/
theorem error_of_choice {candidates : List DeclaredType} {e : ConversionError} (hv : v ≠ .null)
    (hwrites : DeclaredType.WritesText (.choice candidates))
    (h : convert defaults (.choice candidates) v field = .error e) :
    e = .failed ⟨v, .choice, field, .noMatchingCandidate (candidates.map DeclaredType.display)⟩ := by
  obtain ⟨index, candidate, hchosen⟩ | hnone := choose?_cases defaults candidates v
  · obtain ⟨hmem, haccepts⟩ := accepts_of_choose? defaults hchosen
    obtain ⟨w, hw, -⟩ := convert_of_accepts (hwrites.of_candidate hmem) haccepts
    rw [convert_choice_of_choose? defaults hchosen, hw] at h
    cases h
  · rw [convert_choice_of_forall defaults hv hnone] at h
    cases h
    rfl

end

/-- A conversion gives a value exactly if the value is accepted, or is a record that is to become a
map, or a map that is to become a record and whose entries that belong to a field all convert. A
choice accepts exactly what it converts, gives no null, and fails for no other reason than that no
candidate accepts. -/
theorem convert_ok_iff_accepts (defaults : FormatDefaults) (type : DeclaredType)
    (hwrites : type.WritesText) (v : Value) (hv : v ≠ .null) (field : String) :
    ((∃ w, convert defaults type v field = .ok w ∧ w ≠ .null) ↔
      accepts defaults type v = true ∨
      (type = .map ∧ ∃ bound members, v = .record bound members) ∨
      ∃ schema entries, type = .record (some schema) ∧ v = .map entries ∧
        ∀ key x name t, (key, x) ∈ entries → key.rendered? = some name →
          schema.typeOf? name = some t →
          ∃ w, convert defaults t x (memberPath field name) = .ok w) ∧
    ∀ candidates, type = .choice candidates →
      ((∃ w, convert defaults type v field = .ok w) ↔ accepts defaults type v = true) ∧
      convert defaults type v field ≠ .ok .null ∧
      ∀ e, convert defaults type v field = .error e →
        e = .failed
          ⟨v, .choice, field, .noMatchingCandidate (candidates.map DeclaredType.display)⟩ := by
  refine ⟨⟨?_, ?_⟩, ?_⟩
  · rintro ⟨w, h, hw⟩
    obtain haccepts | hexception := accepts_of_convert hv h hw
    · exact .inl haccepts
    · right
      cases hexception with
      | mapOfRecord bound members => exact .inl ⟨rfl, bound, members, rfl⟩
      | recordOfMap hkept =>
        refine .inr ⟨_, _, rfl, rfl, fun key x name t hmem hname htype => ?_⟩
        exact hkept ⟨name, t, x⟩ (mem_keptEntries.mpr ⟨key, hmem, hname, htype⟩)
  · rintro (h | ⟨rfl, bound, members, rfl⟩ | ⟨schema, entries, rfl, rfl, h⟩)
    · exact convert_of_accepts hwrites h
    · exact (ConvertsUnaccepted.mapOfRecord bound members).exists_ok
    · refine (ConvertsUnaccepted.recordOfMap fun kept hkept => ?_).exists_ok
      obtain ⟨key, hmem, hname, htype⟩ := mem_keptEntries.mp hkept
      exact h key kept.value kept.name kept.type hmem hname htype
  · rintro candidates rfl
    refine ⟨⟨?_, ?_⟩, ?_, fun e => error_of_choice hv hwrites⟩
    · rintro ⟨w, h⟩
      exact accepts_of_convert_choice hv h
    · intro h
      obtain ⟨w, hw, -⟩ := convert_of_accepts hwrites h
      exact ⟨w, hw⟩
    · intro hnull
      obtain ⟨w, hw, hne⟩ := convert_of_accepts hwrites (accepts_of_convert_choice hv hnull)
      rw [hnull] at hw
      cases hw
      exact hne rfl

/-- A date converts to a choice within a choice, although the first choice has no candidates and the
second candidate refuses it. -/
theorem convert_nested_choice_ok :
    DeclaredType.WritesText
        (.choice [.choice [], .boolean, .choice [.string (some .isoDate)]]) ∧
      Value.date ⟨0⟩ ≠ .null ∧
      ∃ w, convert .empty (.choice [.choice [], .boolean, .choice [.string (some .isoDate)]])
        (.date ⟨0⟩) "day" = .ok w ∧ w ≠ .null := by
  have hwrites : DeclaredType.WritesText
      (.choice [.choice [], .boolean, .choice [.string (some .isoDate)]]) := by
    rintro format (_ | _ | ⟨hmem, hformat⟩)
    simp only [List.mem_cons, List.not_mem_nil, or_false] at hmem
    obtain rfl | rfl | rfl := hmem
    · obtain _ | _ | ⟨hmem, _⟩ := hformat
      cases hmem
    · cases hformat
    · obtain _ | _ | ⟨hmem, hformat⟩ := hformat
      rw [List.mem_singleton] at hmem
      subst hmem
      cases hformat
      rfl
  have haccepts : accepts .empty
      (.choice [.choice [], .boolean, .choice [.string (some .isoDate)]]) (.date ⟨0⟩) = true := rfl
  exact ⟨hwrites, by simp,
    (convert_ok_iff_accepts .empty _ hwrites (.date ⟨0⟩) (by simp) "day").1.mpr (.inl haccepts)⟩

end RecordCoercion
