import RecordCoercion.Proofs.Conversion.DateTimeRoundTrip
import RecordCoercion.Proofs.Temporal.EpochSecond

/-!
# Points in time as seconds since 1970

With the patterns `%s` and `%s%.3f` a point in time on the calendar is written as its second since 1970,
the second being the one at or before it. From 1970 on the text is read back, as the start of the second
or to the millisecond. Before 1970 the second has a minus, and no text with a minus is read with these
patterns (`epoch_seconds_roundtrip`).
-/

set_option autoImplicit false

namespace RecordCoercion

open TemporalFormat (epochSeconds epochSecondsWithMillis)

namespace Instant

/-- The second since 1970 at or before a count of milliseconds. -/
theorem epochSeconds_momentOfMillis (millis : Int) :
    (momentOfMillis millis).epochSeconds = millis / 1000 := by
  show millis / (86400000 : Nat) * 86400 + ((millis % (86400000 : Nat)).toNat : Int) / 1000 = _
  omega

/-- The milliseconds of the second are what is left of an instant by its seconds. -/
theorem millisOfSecond_momentOfMillis (millis : Int) :
    ((momentOfMillis millis).millisOfSecond : Int) = millis % 1000 := by
  show (((millis % (86400000 : Nat)).toNat % 1000 : Nat) : Int) = millis % 1000
  omega

/-- The second of a point in time, written out. -/
def secondText (i : Instant) : List Char := signedNumeral (i.epochMillis.toInt / 1000)

/-- The second of a point in time, written out with its milliseconds. -/
def secondTextWithMillis (i : Instant) : List Char :=
  i.secondText ++ '.' :: padLeft '0' 3 (numeral (i.epochMillis.toInt % 1000).toNat)

/-- The texts of a point in time are those of its moment. -/
theorem secondText_eq (i : Instant) :
    signedNumeral (momentOfMillis i.epochMillis.toInt).epochSeconds = i.secondText ∧
      signedNumeral (momentOfMillis i.epochMillis.toInt).epochSeconds ++
          '.' :: padLeft '0' 3 (numeral (momentOfMillis i.epochMillis.toInt).millisOfSecond) =
        i.secondTextWithMillis := by
  have hmillis := millisOfSecond_momentOfMillis i.epochMillis.toInt
  have hnat : (momentOfMillis i.epochMillis.toInt).millisOfSecond =
      (i.epochMillis.toInt % 1000).toNat := by omega
  rw [epochSeconds_momentOfMillis, hnat]
  exact ⟨rfl, rfl⟩

/-- The seconds of an instant have a text. -/
theorem secondText_ne_nil (i : Instant) : i.secondText ≠ [] := by
  unfold secondText signedNumeral
  split
  · exact List.cons_ne_nil _ _
  · exact numeral_ne_nil _

/-- Blanks around the texts do not come into play, since they have none. -/
theorem trim_secondText (i : Instant) :
    trim i.secondText = i.secondText ∧ trim i.secondTextWithMillis = i.secondTextWithMillis := by
  have hsecond : ∀ c ∈ i.secondText, isBlank c = false := fun _ => isBlank_of_mem_signedNumeral
  refine ⟨trim_eq_self hsecond, trim_eq_self ?_⟩
  unfold secondTextWithMillis
  rw [List.forall_mem_append, List.forall_mem_cons]
  exact ⟨hsecond, by decide, fun c hc => isBlank_of_isDigit (isDigit_of_mem_padLeft c hc)⟩

variable {i : Instant}

/-- Before 1970 the texts start with a minus. -/
theorem exists_secondText_eq_minus (h : i.epochMillis.toInt < 0) :
    ∃ digits, i.secondText = '-' :: digits := by
  unfold secondText signedNumeral
  rw [if_pos (by omega)]
  exact ⟨_, rfl⟩

/-- The day of an instant on the calendar is a day of the calendar. -/
theorem isCalendarDay_of_onCalendar (h : i.OnCalendar) :
    isCalendarDay ((momentOfMillis i.epochMillis.toInt).epochSeconds / 86400) = true := by
  obtain ⟨hfrom, huntil⟩ := onCalendar_civilTime h
  have hday : (momentOfMillis i.epochMillis.toInt).epochSeconds / 86400 =
      (momentOfMillis i.epochMillis.toInt).day := by
    rw [epochSeconds_momentOfMillis]
    show _ = i.epochMillis.toInt / (86400000 : Nat)
    omega
  rw [hday, isCalendarDay, Bool.and_eq_true, decide_eq_true_eq, decide_eq_true_eq]
  exact ⟨hfrom, huntil⟩

/-- The seconds of an instant on the calendar have 64 bits. -/
theorem contains_epochSeconds_of_onCalendar (h : i.OnCalendar) :
    IntRange.bits64.contains (momentOfMillis i.epochMillis.toInt).epochSeconds = true := by
  obtain ⟨hfrom, huntil⟩ := h
  rw [IntRange.contains_iff, epochSeconds_momentOfMillis]
  simp only [IntRange.bits64]
  omega

/-! ## Writing -/

/-- `%s` writes the whole seconds of an instant on the calendar. -/
theorem render_epochSeconds (h : i.OnCalendar) : epochSeconds.render i = .ok i.secondText := by
  unfold TemporalFormat.render
  rw [moment?_of_onCalendar h]
  simp only [TemporalFormat.textOfItems?_epochSeconds, i.secondText_eq.1]

/-- `%s%.3f` writes the seconds of an instant on the calendar and its milliseconds. -/
theorem render_epochSecondsWithMillis (h : i.OnCalendar) :
    epochSecondsWithMillis.render i = .ok i.secondTextWithMillis := by
  unfold TemporalFormat.render
  rw [moment?_of_onCalendar h]
  simp only [TemporalFormat.textOfItems?_epochSecondsWithMillis, i.secondText_eq.2]

/-! ## Reading -/

section

variable (h : i.OnCalendar) (hnonneg : 0 ≤ i.epochMillis.toInt)

include h hnonneg

/-- From 1970 on the second is read back, without the milliseconds of the point in time. -/
theorem readMillis?_secondText :
    epochSeconds.readMillis? i.secondText = some (i.epochMillis.toInt / 1000 * 1000) := by
  have hseconds := epochSeconds_momentOfMillis i.epochMillis.toInt
  have hread := TemporalFormat.readMillis?_epochSeconds (by omega)
    (contains_epochSeconds_of_onCalendar h) (isCalendarDay_of_onCalendar h)
  rwa [i.secondText_eq.1, hseconds] at hread

/-- From 1970 on the milliseconds are read back with the second. -/
theorem readMillis?_secondTextWithMillis :
    epochSecondsWithMillis.readMillis? i.secondTextWithMillis = some i.epochMillis.toInt := by
  have hseconds := epochSeconds_momentOfMillis i.epochMillis.toInt
  have hmillis := millisOfSecond_momentOfMillis i.epochMillis.toInt
  have hread := TemporalFormat.readMillis?_epochSecondsWithMillis (by omega)
    (contains_epochSeconds_of_onCalendar h) (isCalendarDay_of_onCalendar h)
  have htotal : i.epochMillis.toInt / 1000 * 1000 + i.epochMillis.toInt % 1000 =
      i.epochMillis.toInt := by omega
  rwa [i.secondText_eq.2, hseconds, hmillis, htotal] at hread

end

/-- Before 1970 neither text is read. -/
theorem read?_eq_none_of_neg (h : i.epochMillis.toInt < 0) :
    epochSeconds.read? i.secondText = none ∧
      epochSecondsWithMillis.read? i.secondTextWithMillis = none := by
  obtain ⟨digits, hdigits⟩ := exists_secondText_eq_minus h
  have hwhole := TemporalFormat.readMillis?_of_minus TemporalFormat.items_epochSeconds digits
  have hmillis := TemporalFormat.readMillis?_of_minus TemporalFormat.items_epochSecondsWithMillis
    (digits ++ '.' :: padLeft '0' 3 (numeral (i.epochMillis.toInt % 1000).toNat))
  unfold TemporalFormat.read? secondTextWithMillis
  rw [hdigits, List.cons_append, hwhole, hmillis]
  exact ⟨rfl, rfl⟩

end Instant

/-! ## Conversion -/

/-- A text that is not blank and that a format does not read is refused for the format. -/
theorem convert_from_mismatch {defaults : FormatDefaults} {format : TemporalFormat} {text : List Char}
    (kind : TemporalKind) (hne : trim text ≠ []) (hread : format.read? (trim text) = none)
    (field : String) :
    convert defaults (kind.type (some format)) (.string (String.ofList text)) field =
      .error (.failed ⟨.string (String.ofList text), kind.kind, field, .formatMismatch format⟩) := by
  have hinstant : TemporalKind.readInstant (some format) text = .error (.formatMismatch format) := by
    rw [TemporalKind.readInstant, if_neg (by simpa using hne)]
    simp only [hread]
  rw [convert_temporal_text, defaults.effective?_temporal, Option.some_or, String.toList_ofList, hinstant]

/-- A point in time on the calendar is written as its second since 1970, with `%s`, or with its
milliseconds too, with `%s%.3f`. From 1970 on the texts are converted back, the one to the start of the
second and the other to the point in time itself. Before 1970 the texts have a minus, and both are
refused for their format. -/
theorem epoch_seconds_roundtrip {i : Instant} (h : i.OnCalendar) (kind : TemporalKind)
    (defaults : FormatDefaults) (field : String) :
    (convert defaults (.string (some epochSeconds)) (kind.value i) field =
        .ok (.string (String.ofList i.secondText)) ∧
      convert defaults (.string (some epochSecondsWithMillis)) (kind.value i) field =
        .ok (.string (String.ofList i.secondTextWithMillis))) ∧
    (0 ≤ i.epochMillis.toInt →
      (∃ j : Instant, convert defaults (kind.type (some epochSeconds))
          (.string (String.ofList i.secondText)) field = .ok (kind.value j) ∧
        j.epochMillis.toInt = i.epochMillis.toInt / 1000 * 1000) ∧
      convert defaults (kind.type (some epochSecondsWithMillis))
          (.string (String.ofList i.secondTextWithMillis)) field = .ok (kind.value i)) ∧
    (i.epochMillis.toInt < 0 →
      convert defaults (kind.type (some epochSeconds)) (.string (String.ofList i.secondText)) field =
        .error (.failed ⟨.string (String.ofList i.secondText), kind.kind, field,
          .formatMismatch epochSeconds⟩) ∧
      convert defaults (kind.type (some epochSecondsWithMillis))
          (.string (String.ofList i.secondTextWithMillis)) field =
        .error (.failed ⟨.string (String.ofList i.secondTextWithMillis), kind.kind, field,
          .formatMismatch epochSecondsWithMillis⟩)) := by
  obtain ⟨htrim, htrimMillis⟩ := i.trim_secondText
  have hne : trim i.secondText ≠ [] := by
    rw [htrim]
    exact i.secondText_ne_nil
  have hneMillis : trim i.secondTextWithMillis ≠ [] := by
    rw [htrimMillis]
    exact List.append_ne_nil_of_left_ne_nil i.secondText_ne_nil _
  refine ⟨⟨convert_to_rendered kind (Instant.render_epochSeconds h) field,
    convert_to_rendered kind (Instant.render_epochSecondsWithMillis h) field⟩, ?_, ?_⟩
  · intro hnonneg
    have hread := Instant.readMillis?_secondText h hnonneg
    have hreadMillis := Instant.readMillis?_secondTextWithMillis h hnonneg
    refine ⟨⟨⟨Int64.ofInt (i.epochMillis.toInt / 1000 * 1000)⟩, ?_, ?_⟩, ?_⟩
    · apply convert_from_text kind hne
      rw [htrim, TemporalFormat.read?, hread, Option.map_some]
    · have huntil := h.2
      exact Int64.toInt_ofInt_of_le (by omega) (by omega)
    · apply convert_from_text kind hneMillis
      rw [htrimMillis, TemporalFormat.read?, hreadMillis, Option.map_some, Int64.ofInt_toInt]
  · intro hneg
    obtain ⟨hread, hreadMillis⟩ := Instant.read?_eq_none_of_neg hneg
    refine ⟨convert_from_mismatch kind hne ?_ field, convert_from_mismatch kind hneMillis ?_ field⟩
    · rw [htrim, hread]
    · rw [htrimMillis, hreadMillis]

/-- A timestamp in the year 2020 loses its milliseconds with `%s`. -/
theorem epoch_seconds_roundtrip_of_2020 :
    Instant.OnCalendar ⟨1577836800123⟩ ∧
      convert .empty (.string (some epochSeconds)) (.timestamp ⟨1577836800123⟩) "t" =
        .ok (.string "1577836800") ∧
      ∃ j : Instant, convert .empty (.timestamp (some epochSeconds)) (.string "1577836800") "t" =
          .ok (.timestamp j) ∧ j.epochMillis.toInt = 1577836800000 := by
  have hcalendar : Instant.OnCalendar ⟨1577836800123⟩ := by decide
  have htext : String.ofList (Instant.secondText ⟨1577836800123⟩) = "1577836800" := by decide
  obtain ⟨⟨hwritten, -⟩, hread, -⟩ :=
    epoch_seconds_roundtrip hcalendar .timestamp .empty "t"
  rw [htext] at hwritten hread
  exact ⟨hcalendar, hwritten, (hread (by decide)).1⟩

/-- The last second before 1970 is written as `-1`, which is not read back. -/
theorem minus_one_second_refused :
    Instant.OnCalendar ⟨-1000⟩ ∧
      convert .empty (.string (some epochSeconds)) (.timestamp ⟨-1000⟩) "t" = .ok (.string "-1") ∧
      convert .empty (.timestamp (some epochSeconds)) (.string "-1") "t" =
        .error (.failed ⟨.string "-1", .timestamp, "t", .formatMismatch epochSeconds⟩) := by
  refine ⟨by decide, ?_, ?_⟩ <;> rfl

end RecordCoercion
