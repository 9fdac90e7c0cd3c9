import RecordCoercion.Proofs.Temporal.DateTimeText

/-!
# Seconds since 1970 in a text

The specifier `%s` stands for a whole point in time. A text that gives a second since 1970, and perhaps
a fraction of it, leaves out the date and the time of day, so these are filled in from the second
itself: its day by year and ordinal, and its time of day (`TemporalFields.resolve_ofEpochSecond`).
Nothing is lost on the way, and the milliseconds are those of the second and its fraction
(`TemporalFields.epochMillis?_ofEpochSecond`). Seconds before 1970 are written with a minus, but a
reader takes digits only (`NumericField.scanValue?_timestamp_minus`).
-/

set_option autoImplicit false

namespace RecordCoercion

namespace Calendar

/-- A day is found again from its year and its position in it. -/
theorem dayOfOrdinal?_ordinalOfDay (day : Int) :
    dayOfOrdinal? (yearOfDay day) (ordinalOfDay day) = some day := by
  have hfrom := daysBeforeYear_yearOfDay_le day
  have huntil := lt_daysBeforeYear_yearOfDay_succ day
  rw [daysBeforeYear_succ] at huntil
  have hcast : (ordinalOfDay day : Int) = day - daysBeforeYear (yearOfDay day) + 1 := by
    unfold ordinalOfDay
    omega
  have hplace : (1 ≤ (ordinalOfDay day : Int) &&
      (ordinalOfDay day : Int) ≤ yearLength (yearOfDay day)) = true := by
    rw [Bool.and_eq_true, decide_eq_true_eq, decide_eq_true_eq]
    omega
  rw [dayOfOrdinal?, if_pos hplace, Option.some_inj]
  omega

/-- The ordinal of a day is that of a day of a leap year at most. -/
theorem ordinalOfDay_bounds (day : Int) : 1 ≤ ordinalOfDay day ∧ ordinalOfDay day ≤ 366 := by
  have huntil := lt_daysBeforeYear_yearOfDay_succ day
  have hlength : yearLength (yearOfDay day) ≤ 366 := by
    unfold yearLength
    split <;> omega
  rw [daysBeforeYear_succ] at huntil
  unfold ordinalOfDay
  omega

end Calendar

namespace TemporalFields

/-! ## The point in time of a second -/

/-- The fields of a text that gives a second since 1970, perhaps with nanoseconds, and nothing else. -/
def ofEpochSecond (second : Int) (nanosecond : Option Nat) : TemporalFields :=
  { empty with timestamp := some second, nanosecond }

/-- These fields with the day of the second, by year and ordinal, and its time of day. -/
def withDayAndClock (second : Int) (nanosecond : Option Nat) : TemporalFields :=
  { ofEpochSecond second nanosecond with
    second := some (second % 60).toNat
    year := some (Calendar.yearOfDay (second / 86400))
    ordinal := some (Calendar.ordinalOfDay (second / 86400))
    afternoon := some (decide (12 ≤ second / 3600 % 24))
    hourOfHalf := some ((second / 3600 % 24).toNat % 12)
    minute := some (second / 60 % 60).toNat }

variable {second : Int} (hday : isCalendarDay (second / 86400) = true) (nanosecond : Option Nat)

include hday in
/-- The day and the time of day of a second on the calendar are in their ranges. -/
theorem withEpochSecond?_ofEpochSecond :
    (ofEpochSecond second nanosecond).withEpochSecond? second =
      some (withDayAndClock second nanosecond) := by
  have hsecond : NumericField.second.range.contains (second % 60) = true := by
    rw [IntRange.contains_iff]
    simp only [NumericField.range]
    omega
  have hyear : NumericField.year.range.contains (Calendar.yearOfDay (second / 86400)) = true := by
    rw [isCalendarDay, Bool.and_eq_true, decide_eq_true_eq, decide_eq_true_eq] at hday
    rw [IntRange.contains_iff]
    simp only [NumericField.range, IntRange.bits32]
    simp only [firstYear, lastYear] at hday
    omega
  have hordinal : NumericField.ordinal.range.contains
      (Calendar.ordinalOfDay (second / 86400)) = true := by
    have hbounds := Calendar.ordinalOfDay_bounds (second / 86400)
    rw [IntRange.contains_iff]
    simp only [NumericField.range]
    omega
  have hhour : NumericField.hour.range.contains (second / 3600 % 24) = true := by
    rw [IntRange.contains_iff]
    simp only [NumericField.range]
    omega
  have hminute : NumericField.minute.range.contains (second / 60 % 60) = true := by
    rw [IntRange.contains_iff]
    simp only [NumericField.range]
    omega
  simp [withEpochSecond?, withDayAndClock, ofEpochSecond, empty, set?, settle?, setAfternoon?,
    setHourOfHalf?, hsecond, hyear, hordinal, hhour, hminute]

include hday in
/-- The day is that of the second. -/
theorem resolveDay_withDayAndClock :
    (withDayAndClock second nanosecond).resolveDay = .ok (second / 86400) := by
  have hcandidate : (withDayAndClock second nanosecond).candidateDay
      (some (Calendar.yearOfDay (second / 86400))) none = some (some (second / 86400)) := by
    rw [← Calendar.dayOfOrdinal?_ordinalOfDay (second / 86400)]
    rfl
  have hagrees : (withDayAndClock second nanosecond).agreesWith (second / 86400) = true := by
    simp [agreesWith, withDayAndClock, ofEpochSecond, empty, Calendar.Date.ofDayNumber]
  have hyear : resolveYear (withDayAndClock second nanosecond).year
      (withDayAndClock second nanosecond).century (withDayAndClock second nanosecond).yearOfCentury =
      .ok (some (Calendar.yearOfDay (second / 86400))) := rfl
  have hisoYear : resolveYear (withDayAndClock second nanosecond).isoYear none
      (withDayAndClock second nanosecond).isoYearOfCentury = .ok none := rfl
  rw [resolveDay, hyear, hisoYear]
  simp only [hcandidate, hday, hagrees, Bool.and_self, if_true]

/-- The time of day is that of the second. -/
theorem resolveClock_withDayAndClock :
    (withDayAndClock second nanosecond).resolveClock =
      some ((second % 86400).toNat, nanosecond.getD 0) := by
  have hhour : (second / 3600 % 24).toNat % 12 +
      (if decide (12 ≤ second / 3600 % 24) = true then 12 else 0) = (second / 3600 % 24).toNat := by
    simp only [decide_eq_true_eq]
    split <;> omega
  have hleap : (second % 60).toNat ≠ 60 := by omega
  have htotal : ((second / 3600 % 24).toNat * 60 + (second / 60 % 60).toNat) * 60 +
      (second % 60).toNat = (second % 86400).toNat := by omega
  simp only [resolveClock, withDayAndClock, ofEpochSecond, hhour, if_neg hleap, htotal]

include hday in
/-- A second on the calendar is a day and a time of day, without any defaults. -/
theorem resolve_ofEpochSecond :
    (ofEpochSecond second nanosecond).resolve 0 =
      .ok ⟨second / 86400, (second % 86400).toNat, nanosecond.getD 0⟩ := by
  have hparts : (ofEpochSecond second nanosecond).resolveParts = .error .insufficient := rfl
  have htimestamp : (ofEpochSecond second nanosecond).timestamp = some second := rfl
  rw [resolve, hparts, htimestamp]
  simp only [resolveTimestamp, Int.add_zero, hday, withEpochSecond?_ofEpochSecond hday, resolveParts,
    resolveDay_withDayAndClock hday, resolveClock_withDayAndClock, Bool.not_true, Bool.false_eq_true,
    if_false]

include hday in
/-- The milliseconds of a second are a thousand for each and those of its fraction. -/
theorem epochMillis?_ofEpochSecond :
    (ofEpochSecond second nanosecond).epochMillis? =
      some (second * 1000 + (nanosecond.getD 0 / 1000000 : Nat)) := by
  have hoffset : (ofEpochSecond second nanosecond).effectiveOffset = 0 := rfl
  simp only [epochMillis?, hoffset, resolve_ofEpochSecond hday, LocalTime.epochMillis,
    LocalTime.epochSeconds, Option.some.injEq]
  omega

end TemporalFields

/-! ## Reading and writing seconds -/

namespace NumericField

/-- A second since 1970 is written with a minus before 1970, and without any filling. -/
theorem text_timestamp (m : Moment) : timestamp.text .absent m = signedNumeral m.epochSeconds := by
  simp only [text, Padding.fillSigned, signedNumeral]
  split <;> rfl

/-- The digits of a number are read as a second since 1970. -/
theorem scanValue?_timestamp_numeral (n : Nat) {rest : List Char}
    (hrest : ∀ c ∈ rest.head?, c.isDigit = false) :
    timestamp.scanValue? (numeral n ++ rest) = some ((n : Int), rest) := by
  have hdigits : LongestDigits timestamp.width (numeral n) rest := by
    refine ⟨fun c => isDigit_of_mem_numeral, ?_, .inr hrest⟩
    intro w hw
    cases hw
  have hnone : ∀ c ∈ ([] : List Char), isBlank c = true := by simp
  have hnumber := scanValue?_of_numberText (.unsigned hnone (numeral_ne_nil n) hdigits)
  rwa [numeralValue_numeral] at hnumber

/-- A minus is not read as part of a second since 1970. -/
theorem scanValue?_timestamp_minus (text : List Char) : timestamp.scanValue? ('-' :: text) = none := by
  have htrim : trimStart ('-' :: text) = '-' :: text := by
    simp [trimStart, isBlank]
  have hdigits : scanDigits? timestamp.width ('-' :: text) = none := by
    simp [scanDigits?, takeDigits, splitDigits, width]
  simp only [scanValue?, isSigned, htrim, hdigits, Option.map_none]

/-- Of a text without other fields, the digits of a number give a second since 1970. -/
theorem scan?_timestamp_numeral {n : Nat} (hn : IntRange.bits64.contains n = true) (rest : List Char)
    (hrest : ∀ c ∈ rest.head?, c.isDigit = false) :
    timestamp.scan? .empty (numeral n ++ rest) = some (.ofEpochSecond n none, rest) := by
  have hrange : timestamp.range.contains n = true := hn
  have hset : TemporalFields.empty.set? .timestamp n = some (.ofEpochSecond n none) := by
    rw [TemporalFields.set?, hrange]
    rfl
  simp only [scan?, scanValue?_timestamp_numeral n hrest, hset, Option.map_some]

end NumericField

/-- Three digits behind a point are read as so many milliseconds. -/
theorem scanFraction?_millis {fields : TemporalFields} (hnone : fields.nanosecond = none) (m : Moment) :
    fields.scanFraction? (.dotted 3) ('.' :: padLeft '0' 3 (numeral m.millisOfSecond)) =
      some ({ fields with nanosecond := some (m.millisOfSecond * 1000000) }, []) := by
  have hlength := FractionStyle.length_millis m
  have hdigits : LongestDigits (some 3) (padLeft '0' 3 (numeral m.millisOfSecond)) [] := by
    refine ⟨isDigit_of_mem_padLeft, ?_, .inl (by simp [hlength])⟩
    rintro w ⟨⟩
    exact Nat.le_of_eq hlength
  have htake := takeDigits_append hdigits
  rw [List.append_nil] at htake
  have hscan : FractionStyle.scan? (.dotted 3) ('.' :: padLeft '0' 3 (numeral m.millisOfSecond)) =
      some (some (m.millisOfSecond * 1000000), []) := by
    simp only [FractionStyle.scan?, scanFixedFraction?, htake, hlength, numeralValue_padLeft, if_true,
      Option.map_some]
  have hrange : NumericField.nanosecond.range.contains (m.millisOfSecond * 1000000 : Nat) = true := by
    have hlt : m.millisOfSecond < 1000 := Nat.mod_lt _ (by decide)
    rw [IntRange.contains_iff]
    simp only [NumericField.range]
    omega
  unfold TemporalFields.scanFraction?
  rw [hscan]
  generalize m.millisOfSecond * 1000000 = n at hrange
  simp [TemporalFields.set?, hrange, hnone, settle?]

namespace TemporalFormat

/-- The format of whole seconds since 1970. -/
def epochSeconds : TemporalFormat := ⟨"%s", by decide⟩

/-- The format of seconds since 1970 with their milliseconds. -/
def epochSecondsWithMillis : TemporalFormat := ⟨"%s%.3f", by decide⟩

/-- The pattern `%s` asks for a number of seconds. -/
theorem items_epochSeconds : epochSeconds.items = [.number .timestamp .absent] := by decide

/-- The pattern `%s%.3f` asks for a number of seconds and three fraction digits. -/
theorem items_epochSecondsWithMillis :
    epochSecondsWithMillis.items = [.number .timestamp .absent, .fraction (.dotted 3)] := by decide

variable (m : Moment)

/-- The pattern `%s` writes the seconds of a moment. -/
theorem textOfItems?_epochSeconds :
    textOfItems? m epochSeconds.items = some (signedNumeral m.epochSeconds) := by
  rw [items_epochSeconds]
  simp [textOfItems?, Item.text?, NumericField.text_timestamp]

/-- The pattern `%s%.3f` writes the seconds and milliseconds of a moment. -/
theorem textOfItems?_epochSecondsWithMillis :
    textOfItems? m epochSecondsWithMillis.items =
      some (signedNumeral m.epochSeconds ++ '.' :: padLeft '0' 3 (numeral m.millisOfSecond)) := by
  have hfraction : FractionStyle.text (.dotted 3) m =
      '.' :: padLeft '0' 3 (numeral m.millisOfSecond) :=
    congrArg ('.' :: ·) (List.take_left' (FractionStyle.length_millis m))
  rw [items_epochSecondsWithMillis]
  simp [textOfItems?, Item.text?, NumericField.text_timestamp, hfraction]

variable {m : Moment}

section

variable (hsecond : 0 ≤ m.epochSeconds) (hrange : IntRange.bits64.contains m.epochSeconds = true)
  (hday : isCalendarDay (m.epochSeconds / 86400) = true)

include hsecond

/-- A second from 1970 on is written without a sign. -/
theorem exists_signedNumeral_epochSeconds :
    ∃ n : Nat, m.epochSeconds = n ∧ signedNumeral m.epochSeconds = numeral n := by
  refine ⟨m.epochSeconds.toNat, by omega, ?_⟩
  rw [signedNumeral, if_neg (by omega)]
  congr 1
  omega

include hrange hday

/-- A written second from 1970 on is read as this second. -/
theorem readMillis?_epochSeconds :
    epochSeconds.readMillis? (signedNumeral m.epochSeconds) = some (m.epochSeconds * 1000) := by
  obtain ⟨n, hn, htext⟩ := exists_signedNumeral_epochSeconds hsecond
  have hscan : scanText? epochSeconds.items (numeral n) = some (.ofEpochSecond n none) := by
    have hnumber := NumericField.scan?_timestamp_numeral (hn ▸ hrange) [] (by simp)
    rw [List.append_nil] at hnumber
    simp only [items_epochSeconds, scanText?, scanItems?, Item.scan?, hnumber]
  rw [hn] at hday
  rw [htext, readMillis?, hscan, Option.bind_some, TemporalFields.epochMillis?_ofEpochSecond hday, hn]
  simp

/-- A written second from 1970 on with its milliseconds is read to the millisecond. -/
theorem readMillis?_epochSecondsWithMillis :
    epochSecondsWithMillis.readMillis?
        (signedNumeral m.epochSeconds ++ '.' :: padLeft '0' 3 (numeral m.millisOfSecond)) =
      some (m.epochSeconds * 1000 + m.millisOfSecond) := by
  obtain ⟨n, hn, htext⟩ := exists_signedNumeral_epochSeconds hsecond
  have hscan : scanText? epochSecondsWithMillis.items
      (numeral n ++ '.' :: padLeft '0' 3 (numeral m.millisOfSecond)) =
      some (.ofEpochSecond n (some (m.millisOfSecond * 1000000))) := by
    have hnumber := NumericField.scan?_timestamp_numeral (hn ▸ hrange)
      ('.' :: padLeft '0' 3 (numeral m.millisOfSecond)) (by simp)
    have hnone : (TemporalFields.ofEpochSecond n none).nanosecond = none := rfl
    have hfraction := scanFraction?_millis hnone m
    simp only [items_epochSecondsWithMillis, scanText?, scanItems?, Item.scan?, hnumber, hfraction]
    rfl
  rw [hn] at hday
  rw [htext, readMillis?, hscan, Option.bind_some, TemporalFields.epochMillis?_ofEpochSecond hday, hn]
  simp

end

/-- What is written of a second before 1970 starts with a minus and is not read. -/
theorem readMillis?_of_minus {format : TemporalFormat} {padding : Padding} {items : List Item}
    (hitems : format.items = .number .timestamp padding :: items) (text : List Char) :
    format.readMillis? ('-' :: text) = none := by
  simp only [readMillis?, hitems, scanText?, scanItems?, Item.scan?, NumericField.scan?,
    NumericField.scanValue?_timestamp_minus, Option.bind_none]

end TemporalFormat

end RecordCoercion
