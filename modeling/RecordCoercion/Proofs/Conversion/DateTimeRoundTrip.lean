import RecordCoercion.Proofs.Conversion.FormattedRoundTrip
import RecordCoercion.Proofs.Temporal.DateTimeText

/-!
# Displayed points in time are read back

The displayed text of a point in time on the calendar and its text in the format `%+` differ in their
fraction and their offset. The format reads both as the point in time to the millisecond
(`date_time_read_back`), so that the displayed text identifies it; beyond the calendar the displayed text is
the count of milliseconds.
-/

set_option autoImplicit false

namespace RecordCoercion

open TemporalFormat (rfc3339)

namespace Instant

variable {i : Instant} (h : i.OnCalendar)

include h

/-- The civil time of an instant on the calendar is on the calendar. -/
theorem onCalendar_civilTime : (momentOfMillis i.epochMillis.toInt).civilTime.OnCalendar := by
  have hsome := i.isSome_moment?_iff.mpr h
  simp only [moment?] at hsome
  split at hsome
  next hyear =>
    rw [Bool.and_eq_true, decide_eq_true_eq, decide_eq_true_eq] at hyear
    exact hyear
  next => cases hsome

/-- An instant on the calendar is displayed as its date and time in UTC, with milliseconds. -/
theorem display_of_onCalendar :
    i.display = (momentOfMillis i.epochMillis.toInt).dateTimeText (.dotted 3) ++ ['Z'] := by
  unfold display
  rw [moment?_of_onCalendar h]

/-- An instant on the calendar is written by `%+` as its date and time with the offset of UTC. -/
theorem render_rfc3339 :
    rfc3339.render i = .ok ((momentOfMillis i.epochMillis.toInt).dateTimeText .fitting ++
      "+00:00".toList) := by
  unfold TemporalFormat.render
  rw [moment?_of_onCalendar h, TemporalFormat.items_rfc3339]
  simp [TemporalFormat.textOfItems?, Item.text?]

/-- The written date-time of an instant is converted to the instant. -/
theorem convert_dateTimeText {style : FractionStyle} (hstyle : style.TellsMillis) {zone : List Char}
    (hzone : IsUtc zone) (defaults : FormatDefaults) (field : String) (kind : TemporalKind) :
    convert defaults (kind.type (some rfc3339))
        (.string (String.ofList ((momentOfMillis i.epochMillis.toInt).dateTimeText style ++ zone))) field =
      .ok (kind.value i) := by
  have hblank := isBlank_of_mem_dateTimeText (Moment.inDay_momentOfMillis i.epochMillis.toInt) hstyle hzone
  have htrim := trim_eq_self hblank
  have hmillis := TemporalFormat.readMillis?_dateTimeText (onCalendar_civilTime h) hstyle hzone
  refine convert_from_text kind ?_ ?_ field
  · rw [htrim]
    obtain rfl | rfl := hzone <;> simp
  · rw [htrim, TemporalFormat.read?, hmillis, Option.map_some, Int64.ofInt_toInt]

/-- The displayed text of an instant on the calendar is no number. -/
theorem display_ne_signedNumeral (n : Int) : i.display ≠ signedNumeral n := by
  intro heq
  have hlast : 'Z' ∈ signedNumeral n := by
    rw [← heq, display_of_onCalendar h]
    exact List.mem_append_right _ (List.mem_singleton_self _)
  obtain hdigit | hminus := isDigit_or_eq_of_mem_signedNumeral hlast
  · cases hdigit
  · cases hminus

/-- The year of a displayed text is signed outside of the four digits, and `Z` ends the text. -/
theorem display_ends :
    (i.display.head? = some '-' ↔ (momentOfMillis i.epochMillis.toInt).date.year < 0) ∧
      (i.display.head? = some '+' ↔ 9999 < (momentOfMillis i.epochMillis.toInt).date.year) ∧
      i.display.getLast? = some 'Z' := by
  obtain ⟨rest, hrest⟩ : ∃ rest, i.display =
      NumericField.yearText .zeros (momentOfMillis i.epochMillis.toInt).date.year ++ rest := by
    rw [display_of_onCalendar h]
    simp only [Moment.dateTimeText, Moment.dateText, List.append_assoc]
    exact ⟨_, rfl⟩
  obtain ⟨hminus, hplus⟩ := head?_yearText_append (momentOfMillis i.epochMillis.toInt).date.year rest
  rw [← hrest] at hminus hplus
  refine ⟨hminus, hplus, ?_⟩
  rw [display_of_onCalendar h, List.getLast?_concat]

end Instant

/-- An instant off the calendar is displayed as its milliseconds. -/
theorem Instant.display_of_not_onCalendar {i : Instant} (h : ¬ i.OnCalendar) :
    i.display = signedNumeral i.epochMillis.toInt := by
  have hnone : i.moment? = none := by
    rw [← Instant.isSome_moment?_iff, Bool.not_eq_true, Option.isSome_eq_false_iff] at h
    simpa using h
  unfold display
  rw [hnone]

/-- Different instants have different displayed texts. -/
theorem Instant.display_injective : Function.Injective Instant.display := by
  intro i j hdisplay
  by_cases hi : i.OnCalendar
  · by_cases hj : j.OnCalendar
    · -- both are what the displayed text is converted to
      have hread : ∀ k : Instant, k.OnCalendar →
          convert .empty (TemporalKind.timestamp.type (some rfc3339))
            (.string (String.ofList k.display)) "" = .ok (.timestamp k) := by
        intro k hk
        rw [display_of_onCalendar hk]
        exact convert_dateTimeText hk (.inr rfl) (.inl rfl) .empty "" .timestamp
      have hsame := hread i hi
      rw [hdisplay, hread j hj] at hsame
      cases hsame
      rfl
    · rw [display_of_not_onCalendar hj] at hdisplay
      exact absurd hdisplay (display_ne_signedNumeral hi _)
  · by_cases hj : j.OnCalendar
    · rw [display_of_not_onCalendar hi] at hdisplay
      exact absurd hdisplay.symm (display_ne_signedNumeral hj _)
    · rw [display_of_not_onCalendar hi, display_of_not_onCalendar hj] at hdisplay
      have hread := readSigned?_signedNumeral i.epochMillis.toInt
      rw [hdisplay, readSigned?_signedNumeral] at hread
      obtain ⟨millis⟩ := i
      obtain ⟨millis'⟩ := j
      exact congrArg Instant.mk (Int64.toInt_inj.mp (Option.some.inj hread).symm)

/-- An instant on the calendar is read back to the millisecond, by the format `%+` as any kind of point in
time, from its displayed text and from its text in this format. The displayed text has a signed year outside
of the years 0 to 9999 and `Z` at its end; for an instant beyond the calendar it is the count of milliseconds.
So the displayed texts of two instants differ. -/
theorem date_time_read_back :
    (∀ i : Instant, i.OnCalendar →
      (∀ (defaults : FormatDefaults) (field : String) (kind : TemporalKind),
        convert defaults (kind.type (some rfc3339)) (.string (String.ofList i.display)) field =
          .ok (kind.value i) ∧
        ∃ text, rfc3339.render i = .ok text ∧
          convert defaults (.string (some rfc3339)) (kind.value i) field =
            .ok (.string (String.ofList text)) ∧
          convert defaults (kind.type (some rfc3339)) (.string (String.ofList text)) field =
            .ok (kind.value i)) ∧
      (i.display.head? = some '-' ↔ (Instant.momentOfMillis i.epochMillis.toInt).date.year < 0) ∧
      (i.display.head? = some '+' ↔ 9999 < (Instant.momentOfMillis i.epochMillis.toInt).date.year) ∧
      i.display.getLast? = some 'Z') ∧
    (∀ i : Instant, ¬ i.OnCalendar → i.display = signedNumeral i.epochMillis.toInt) ∧
    Function.Injective Instant.display := by
  refine ⟨fun i hi => ⟨fun defaults field kind => ⟨?_, ?_⟩, Instant.display_ends hi⟩,
    fun i hi => Instant.display_of_not_onCalendar hi, Instant.display_injective⟩
  · rw [Instant.display_of_onCalendar hi]
    exact Instant.convert_dateTimeText hi (.inr rfl) (.inl rfl) defaults field kind
  · have hrender := Instant.render_rfc3339 hi
    exact ⟨_, hrender, convert_to_rendered kind hrender field,
      Instant.convert_dateTimeText hi (.inl rfl) (.inr rfl) defaults field kind⟩

/-- The last millisecond before the year 0 and the first one of the year 10000 are read back from their
displayed texts. -/
theorem date_time_read_back_beyond_four_digits :
    Instant.OnCalendar ⟨-62167219200001⟩ ∧ Instant.OnCalendar ⟨253402300800000⟩ ∧
      convert .empty (.timestamp (some rfc3339)) (.string "-0001-12-31T23:59:59.999Z") "t" =
        .ok (.timestamp ⟨-62167219200001⟩) ∧
      convert .empty (.timestamp (some rfc3339)) (.string "+10000-01-01T00:00:00.000Z") "t" =
        .ok (.timestamp ⟨253402300800000⟩) := by
  have hbefore : Instant.OnCalendar ⟨-62167219200001⟩ := by decide
  have hafter : Instant.OnCalendar ⟨253402300800000⟩ := by decide
  have hdisplay : String.ofList (Instant.display ⟨-62167219200001⟩) = "-0001-12-31T23:59:59.999Z" := by
    decide
  have hdisplay' : String.ofList (Instant.display ⟨253402300800000⟩) = "+10000-01-01T00:00:00.000Z" := by
    decide
  refine ⟨hbefore, hafter, ?_, ?_⟩
  · rw [← hdisplay]
    exact ((date_time_read_back.1 _ hbefore).1 .empty "t" .timestamp).1
  · rw [← hdisplay']
    exact ((date_time_read_back.1 _ hafter).1 .empty "t" .timestamp).1

end RecordCoercion
