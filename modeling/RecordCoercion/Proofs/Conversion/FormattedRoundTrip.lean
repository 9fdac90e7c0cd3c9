import RecordCoercion.Proofs.Conversion.Rendering
import RecordCoercion.Proofs.Temporal.FreePattern

/-!
# Points in time survive formatted text

A point in time that is written in a format and read back with it is the same up to what the format
leaves out (`formatted_roundtrip`): the time of day, the date, or the milliseconds. The format may
hold its numbers in any order and any text around them, since no text can shift the numbers: each of
them fills its places, and blanks at the ends of the text do not count.
-/

set_option autoImplicit false

namespace RecordCoercion

open TemporalFormat (ofParts)

/-- An instant on the calendar is a moment of its date and time. -/
theorem Instant.moment?_of_onCalendar {i : Instant} (h : i.OnCalendar) :
    i.moment? = some (momentOfMillis i.epochMillis.toInt) := by
  have hsome := i.isSome_moment?_iff.mpr h
  simp only [moment?] at hsome ⊢
  split at hsome
  · next hyear => exact if_pos hyear
  · cases hsome

/-- A point in time is converted to the text that a format writes. -/
theorem convert_to_rendered {defaults : FormatDefaults} {format : TemporalFormat} {i : Instant}
    {text : List Char} (kind : TemporalKind) (hrender : format.render i = .ok text) (field : String) :
    convert defaults (.string (some format)) (kind.value i) field =
      .ok (.string (String.ofList text)) := by
  have hinstant : Value.instantText (some format) i = .ok text := by
    unfold Value.instantText
    dsimp only
    rw [hrender]
  have htext : (kind.value i).render (some format) =
      (Value.instantText (some format) i).map fun text => some (String.ofList text) := by
    cases kind <;> rfl
  rw [TemporalFormat.convert_eq_toText, toText, htext, hinstant]
  rfl

/-- A point in time on the calendar is written as the parts of a pattern say. -/
theorem convert_to_parts {defaults : FormatDefaults} (parts : List PatternPart) (kind : TemporalKind)
    {i : Instant} (h : i.OnCalendar) (field : String) :
    convert defaults (.string (some (ofParts parts))) (kind.value i) field =
      .ok (.string (String.ofList
        (partsText (Instant.momentOfMillis i.epochMillis.toInt) parts))) := by
  refine convert_to_rendered kind ?_ field
  unfold TemporalFormat.render
  rw [Instant.moment?_of_onCalendar h]
  dsimp only
  rw [TemporalFormat.textOfItems?_ofParts]

/-- A text that is not blank is read with the format of the type. -/
theorem convert_from_text {defaults : FormatDefaults} {format : TemporalFormat} {text : List Char}
    {j : Instant} (kind : TemporalKind) (hne : trim text ≠ [])
    (hread : format.read? (trim text) = some j) (field : String) :
    convert defaults (kind.type (some format)) (.string (String.ofList text)) field =
      .ok (kind.value j) := by
  have hinstant : TemporalKind.readInstant (some format) text = .ok (some j) := by
    rw [TemporalKind.readInstant, if_neg (by simpa using hne)]
    simp only [hread]
  rw [convert_temporal_text, defaults.effective?_temporal, Option.some_or, String.toList_ofList, hinstant]

/-- A point in time on the calendar, written in a pattern that has each field of a selection once, and
otherwise any text, is read back with the same pattern as what the selection tells of it. If the year
is among the fields it has to have four digits at most. The conventional formats have such
patterns. -/
theorem formatted_roundtrip :
    (∀ (selection : Selection) (parts : List PatternPart),
      (partFields parts).Perm selection.fields →
      ∀ i : Instant, i.OnCalendar →
      (.year ∈ selection.fields →
        0 ≤ (Instant.momentOfMillis i.epochMillis.toInt).date.year ∧
          (Instant.momentOfMillis i.epochMillis.toInt).date.year ≤ 9999) →
      ∀ kind : TemporalKind, ∃ (text : String) (j : Instant),
        (∀ defaults field, convert defaults (.string (some (ofParts parts))) (kind.value i) field =
          .ok (.string text)) ∧
        (∀ defaults field, convert defaults (kind.type (some (ofParts parts))) (.string text) field =
          .ok (kind.value j)) ∧
        j.epochMillis.toInt = selection.truncate i.epochMillis.toInt) ∧
      ∃ date clock dateTime : List PatternPart,
        FormatDefaults.standard = ⟨some (ofParts date), some (ofParts clock), some (ofParts dateTime)⟩ ∧
        partFields date = Selection.date.fields ∧ partFields clock = Selection.clock.fields ∧
        partFields dateTime = Selection.dateTime.fields := by
  refine ⟨fun selection parts hfields i hcalendar hyear kind => ?_, ?_⟩
  · generalize hm : Instant.momentOfMillis i.epochMillis.toInt = m at hyear
    have hinDay : m.InDay := by
      rw [← hm]
      exact Moment.inDay_momentOfMillis _
    -- the pattern has the fields of the selection in an order of its own, which does not count
    obtain ⟨hexists, hmillis⟩ := selection.keep_fields_spec i.epochMillis.toInt
    rw [hm, ← CivilTime.keep_perm hfields] at hexists hmillis
    have hshort : .yearOfCentury ∉ partFields parts :=
      fun hf => selection.yearOfCentury_notMem_fields (hfields.mem_iff.mp hf)
    have hyear : .year ∈ partFields parts → 0 ≤ m.date.year ∧ m.date.year ≤ 9999 :=
      fun hf => hyear (hfields.mem_iff.mp hf)
    have hread := TemporalFormat.read?_trim_partsText hinDay hyear hshort hexists
    obtain ⟨j, hj, hjmillis⟩ := Option.map_eq_some_iff.mp hread
    obtain ⟨f, hf⟩ := selection.exists_mem_fields
    have hne : trim (partsText m parts) ≠ [] :=
      trim_partsText_ne_nil (hfields.mem_iff.mpr hf) (filled_partFields hinDay hyear hshort)
    refine ⟨String.ofList (partsText m parts), j, ?_, ?_, hjmillis.trans hmillis⟩
    · intro defaults field
      rw [← hm]
      exact convert_to_parts parts kind hcalendar field
    · intro defaults field
      exact convert_from_text kind hne hj field
  · refine ⟨[.field .year, .char '-' (by decide), .field .month, .char '-' (by decide), .field .day],
      [.field .hour, .char ':' (by decide), .field .minute, .char ':' (by decide), .field .second],
      [.field .year, .char '-' (by decide), .field .month, .char '-' (by decide), .field .day,
        .char ' ' (by decide), .field .hour, .char ':' (by decide), .field .minute,
        .char ':' (by decide), .field .second], rfl, rfl, rfl, rfl⟩

/-- The millisecond before 1970, written as seconds, minutes and hours with blanks around them, comes
back as the last second of the first day of 1970. -/
theorem formatted_roundtrip_millisecond_before_1970 :
    ∃ (text : String) (j : Instant),
      (∀ defaults field,
        convert defaults (.string (some (ofParts [.char ' ' (by decide), .field .second,
          .field .minute, .field .hour, .char ' ' (by decide)]))) (.time ⟨-1⟩) field =
          .ok (.string text)) ∧
      (∀ defaults field,
        convert defaults (.time (some (ofParts [.char ' ' (by decide), .field .second,
          .field .minute, .field .hour, .char ' ' (by decide)]))) (.string text) field =
          .ok (.time j)) ∧
      j.epochMillis.toInt = 86399000 := by
  have hfields : (partFields [.char ' ' (by decide), .field .second, .field .minute, .field .hour,
      .char ' ' (by decide)]).Perm Selection.clock.fields := by decide
  have hmillis : Selection.clock.truncate (-1) = 86399000 := by decide
  rw [← hmillis]
  exact formatted_roundtrip.1 .clock _ hfields ⟨-1⟩ (by decide) (by decide) .time

end RecordCoercion
