import RecordCoercion.Proofs.Temporal.CivilTime
import RecordCoercion.Temporal.Resolution

/-!
# Completing what a text leaves out

The numbers of a time that a text states determine a day if a year, a month and a day are among them,
and a clock time if an hour and a minute are. Where they do not, the half that is not determined is
filled up from the start of 1970, which states no more than was left out: the fields are then those
of the completed time (`epochMillis?_stated`). A year known by its last two digits alone is the one
thing that gets in the way, since 1970 is then stated beside it (`epochMillis?_stated_short`). With
what `scanItems?_of_matches` says of the scan, this is what a format reads of a matching text
(`TemporalFormat.readMillis?_of_matches`).
-/

set_option autoImplicit false

namespace RecordCoercion

open Calendar (Date)

/-- A year is known, in full or by its last two digits. -/
def KnowsYear (seen : List CivilField) : Prop := .year ∈ seen ∨ .yearOfCentury ∈ seen

/-- A date is known. -/
def KnowsDate (seen : List CivilField) : Prop := KnowsYear seen ∧ .month ∈ seen ∧ .day ∈ seen

/-- A clock time is known, at least to the minute. -/
def KnowsClock (seen : List CivilField) : Prop := .hour ∈ seen ∧ .minute ∈ seen

/-- Whether a year is known can be computed. -/
instance (seen : List CivilField) : Decidable (KnowsYear seen) := by
  unfold KnowsYear
  infer_instance

/-- Whether a date is known can be computed. -/
instance (seen : List CivilField) : Decidable (KnowsDate seen) := by
  unfold KnowsDate
  infer_instance

/-- Whether a clock time is known can be computed. -/
instance (seen : List CivilField) : Decidable (KnowsClock seen) := by
  unfold KnowsClock
  infer_instance

namespace CivilTime

variable {t : CivilTime} {seen : List CivilField} {offset : Option Int}

/-- Two digits stand for the years 1970 to 2069. -/
def CenturyFits (t : CivilTime) (seen : List CivilField) : Prop :=
  .yearOfCentury ∈ seen → 1970 ≤ t.year ∧ t.year ≤ 2069

/-! ## The day -/

/-- The year that was read is the year of the time, if one was read. -/
theorem resolveYear_stated (hfits : t.CenturyFits seen) :
    resolveYear (t.stated seen offset).year (t.stated seen offset).century
        (t.stated seen offset).yearOfCentury =
      .ok (if KnowsYear seen then some t.year else none) := by
  by_cases hyear : CivilField.year ∈ seen <;> by_cases hshort : CivilField.yearOfCentury ∈ seen
  · obtain ⟨hfrom, huntil⟩ := hfits hshort
    have hcast : ((t.year % 100).toNat : Int) = t.year % 100 := by omega
    have hpos : 0 ≤ t.year := by omega
    simp [stated, TemporalFields.empty, resolveYear, hyear, hshort, KnowsYear, hcast, hpos]
  · simp [stated, TemporalFields.empty, resolveYear, hyear, hshort, KnowsYear]
  · obtain ⟨hfrom, huntil⟩ := hfits hshort
    have hread : (((t.year % 100).toNat + if (t.year % 100).toNat < 70 then 2000 else 1900 : Nat) :
        Int) = t.year := by
      split <;> omega
    simp only [stated, TemporalFields.empty, resolveYear, hyear, hshort, KnowsYear, if_true,
      if_false, or_true, hread]
  · simp [stated, TemporalFields.empty, resolveYear, hyear, hshort, KnowsYear]

/-- The date of a time agrees with everything that was stated of the time. -/
theorem agreesWith_stated (hfits : t.CenturyFits seen) (hdate : t.date.Exists) :
    (t.stated seen offset).agreesWith t.date.dayNumber = true := by
  have hback : Date.ofDayNumber t.date.dayNumber = t.date := Date.ofDayNumber_dayNumber hdate
  simp only [TemporalFields.agreesWith, stated, TemporalFields.empty, hback, all_known_iff,
    Option.all_none, Bool.and_true, Bool.and_eq_true]
  refine ⟨⟨⟨⟨⟨fun _ => by simp [date], rfl⟩, ?_⟩, rfl⟩, fun _ => by simp [date]⟩,
    fun _ => by simp [date]⟩
  by_cases hshort : CivilField.yearOfCentury ∈ seen
  · rw [if_pos hshort]
    obtain ⟨hfrom, huntil⟩ := hfits hshort
    show (decide (0 ≤ t.year) && t.year % 100 == ((t.year % 100).toNat : Int)) = true
    simp only [Bool.and_eq_true, decide_eq_true_eq, beq_iff_eq]
    omega
  · rw [if_neg hshort]
    rfl

/-- Stated numbers determine the day of the time if a date is known and exists. -/
theorem resolveDay_stated (hfits : t.CenturyFits seen) :
    (t.stated seen offset).resolveDay =
      if KnowsDate seen then
        if t.date.Exists ∧ t.OnCalendar then .ok t.date.dayNumber else .error .contradictory
      else .error .insufficient := by
  have hiso : resolveYear (t.stated seen offset).isoYear none (t.stated seen offset).isoYearOfCentury =
      .ok none := rfl
  rw [TemporalFields.resolveDay, resolveYear_stated hfits, hiso]
  by_cases hknown : KnowsDate seen
  · obtain ⟨hyear, hmonth, hday⟩ := hknown
    have hcandidate : (t.stated seen offset).candidateDay (some t.year) none =
        some (if t.date.Exists then some t.date.dayNumber else none) := by
      simp only [TemporalFields.candidateDay, stated, hmonth, hday, if_true, Date.ofParts?_eq]
      show some (Option.map _ (if t.date.Exists then some t.date else none)) = _
      split <;> rfl
    simp only [if_pos hyear, hcandidate, if_pos (show KnowsDate seen from ⟨hyear, hmonth, hday⟩)]
    by_cases hdate : t.date.Exists
    · have hcalendar : Calendar.yearOfDay t.date.dayNumber = t.year :=
        Date.yearOfDay_dayNumber hdate
      simp only [hdate, if_true, true_and, agreesWith_stated hfits hdate, isCalendarDay, hcalendar,
        OnCalendar, Bool.and_true, Bool.and_eq_true, decide_eq_true_eq]
    · simp [hdate]
  · have hcandidate : (t.stated seen offset).candidateDay
        (if KnowsYear seen then some t.year else none) none = none := by
      simp only [TemporalFields.candidateDay, stated, TemporalFields.empty]
      split
      · next year month day hyear hmonth hday =>
        refine absurd ?_ hknown
        simp_all [KnowsDate]
      · split <;> simp_all
    simp only [hcandidate, if_neg hknown]

/-! ## The time of day -/

/-- The seconds of the day and the nanoseconds of a time. A leap second is the last second of its
minute, a second longer. -/
def clock (t : CivilTime) : Nat × Nat :=
  let minutes := t.hour * 60 + t.minute
  if t.second = 60 then (minutes * 60 + 59, 1000000000) else (minutes * 60 + t.second, 0)

/-- Stated numbers determine the time of day if an hour and a minute are known. A second that is not
stated has to be zero. -/
theorem resolveClock_stated (hsecond : .second ∉ seen → t.second = 0) (hhour : t.hour ≤ 23) :
    (t.stated seen offset).resolveClock = if KnowsClock seen then some t.clock else none := by
  have hhours : t.hour % 12 + (if decide (12 ≤ t.hour) = true then 12 else 0) = t.hour := by
    simp only [decide_eq_true_eq]
    split <;> omega
  by_cases hh : CivilField.hour ∈ seen <;> by_cases hm : CivilField.minute ∈ seen
  · by_cases hs : CivilField.second ∈ seen
    · simp only [TemporalFields.resolveClock, stated, TemporalFields.empty, hh, hm, hs, KnowsClock,
        if_true, and_self, hhours, clock, Option.getD_none, Nat.add_zero]
      split <;> rfl
    · simp only [TemporalFields.resolveClock, stated, TemporalFields.empty, hh, hm, hs, KnowsClock,
        if_true, if_false, and_self, hhours, clock, hsecond hs]
      rfl
  all_goals simp [TemporalFields.resolveClock, stated, TemporalFields.empty, hh, hm, KnowsClock]

/-- A day and the clock of a time make up its milliseconds. -/
theorem epochMillis_clock (t : CivilTime) :
    LocalTime.epochMillis ⟨t.date.dayNumber, t.clock.1, t.clock.2⟩ = t.epochMillis := by
  simp only [LocalTime.epochMillis, LocalTime.epochSeconds, epochMillis, clock]
  split <;> dsimp only <;> omega

/-! ## Both -/

/-- Stated numbers that know the date and the clock determine the time, if it exists. -/
theorem resolve_stated (hfits : t.CenturyFits seen) (hdate : KnowsDate seen)
    (hclock : KnowsClock seen) (hsecond : .second ∉ seen → t.second = 0) (hhour : t.hour ≤ 23)
    (ahead : Int) :
    (t.stated seen offset).resolve ahead =
      if t.date.Exists ∧ t.OnCalendar then .ok ⟨t.date.dayNumber, t.clock.1, t.clock.2⟩
      else .error .contradictory := by
  have htimestamp : (t.stated seen offset).timestamp = none := rfl
  rw [TemporalFields.resolve, TemporalFields.resolveParts, resolveDay_stated hfits, if_pos hdate,
    resolveClock_stated hsecond hhour, if_pos hclock, htimestamp]
  by_cases hexists : t.date.Exists ∧ t.OnCalendar
  · simp [hexists, TemporalFields.timestampAgrees, htimestamp]
  · simp [hexists]

/-- Where the date or the clock is not known, there is not enough to determine the time, unless the
known date does not exist. -/
theorem resolve_stated_of_unknown (hfits : t.CenturyFits seen)
    (hunknown : ¬ (KnowsDate seen ∧ KnowsClock seen)) (hsecond : .second ∉ seen → t.second = 0)
    (hhour : t.hour ≤ 23) (ahead : Int) :
    (t.stated seen offset).resolve ahead =
      if KnowsDate seen ∧ ¬ (t.date.Exists ∧ t.OnCalendar) then .error .contradictory
      else .error .insufficient := by
  have htimestamp : (t.stated seen offset).timestamp = none := rfl
  rw [TemporalFields.resolve, TemporalFields.resolveParts, resolveDay_stated hfits,
    resolveClock_stated hsecond hhour, htimestamp]
  by_cases hdate : KnowsDate seen
  · have hclock : ¬ KnowsClock seen := fun hclock => hunknown ⟨hdate, hclock⟩
    by_cases hexists : t.date.Exists ∧ t.OnCalendar <;> simp [hdate, hclock, hexists]
  · simp [hdate]

/-! ## Defaults -/

/-- What is not stated of the date is as at the start of 1970. -/
structure HasDefaultDate (t : CivilTime) (seen : List CivilField) : Prop where
  year : .year ∉ seen → t.year = 1970
  month : .month ∉ seen → t.month = 1
  day : .day ∉ seen → t.day = 1

/-- What is not stated of the time of day is as at midnight. -/
structure HasDefaultClock (t : CivilTime) (seen : List CivilField) : Prop where
  hour : .hour ∉ seen → t.hour = 0
  minute : .minute ∉ seen → t.minute = 0
  second : .second ∉ seen → t.second = 0

/-- What is stated once the defaults are. -/
def completedFields (seen : List CivilField) : List CivilField :=
  seen ++ (if KnowsDate seen then [] else [.year, .month, .day]) ++
    if KnowsClock seen then [] else [.hour, .minute, .second]

/-- The defaults take nothing away. -/
theorem mem_completedFields {f : CivilField} (h : f ∈ seen) : f ∈ completedFields seen := by
  simp [completedFields, h]

/-- The defaults add no year by its last two digits. -/
theorem yearOfCentury_mem_completedFields_iff :
    .yearOfCentury ∈ completedFields seen ↔ .yearOfCentury ∈ seen := by
  unfold completedFields
  split <;> split <;> simp

/-- After the defaults a date is known. -/
theorem knowsDate_completedFields : KnowsDate (completedFields seen) := by
  by_cases h : KnowsDate seen
  · obtain ⟨hyear, hmonth, hday⟩ := h
    exact ⟨hyear.imp mem_completedFields mem_completedFields, mem_completedFields hmonth,
      mem_completedFields hday⟩
  · rw [completedFields, if_neg h]
    simp [KnowsDate, KnowsYear]

/-- After the defaults a clock time is known. -/
theorem knowsClock_completedFields : KnowsClock (completedFields seen) := by
  by_cases h : KnowsClock seen
  · exact ⟨mem_completedFields h.1, mem_completedFields h.2⟩
  · rw [completedFields, if_neg h]
    simp [KnowsClock]

/-- The default date states the year, month and day of a time that has it. -/
theorem withDefaultDate_stated (h : t.HasDefaultDate seen) :
    (t.stated seen offset).withDefaultDate = t.stated (seen ++ [.year, .month, .day]) offset := by
  simp [TemporalFields.withDefaultDate, stated, known_or h.year, known_or h.month, known_or h.day]

/-- The default clock time states the hour, minute and second of a time that has it. -/
theorem withDefaultClock_stated (h : t.HasDefaultClock seen) :
    (t.stated seen offset).withDefaultClock =
      t.stated (seen ++ [.hour, .minute, .second]) offset := by
  -- a known hour states its half of the day, an unknown one is in the first half
  by_cases hh : CivilField.hour ∈ seen
  · cases hhalf : decide (12 ≤ t.hour) <;>
      simp [TemporalFields.withDefaultClock, stated, hh, hhalf, known_or h.minute,
        known_or h.second]
  · simp [TemporalFields.withDefaultClock, stated, TemporalFields.empty, hh, h.hour hh,
      known_or h.minute, known_or h.second]

/-- Defaults state of a time what was left out, and nothing else. -/
theorem withDefaults_stated (hfits : t.CenturyFits seen)
    (hdate : KnowsDate seen ∨ t.HasDefaultDate seen) (hclock : t.HasDefaultClock seen)
    (hhour : t.hour ≤ 23) :
    (t.stated seen offset).withDefaults = t.stated (completedFields seen) offset := by
  have hclock' : t.HasDefaultClock (seen ++ [.year, .month, .day]) :=
    ⟨by simpa using hclock.hour, by simpa using hclock.minute, by simpa using hclock.second⟩
  unfold TemporalFields.withDefaults completedFields
  rw [resolveDay_stated hfits, resolveClock_stated hclock.second hhour]
  by_cases hknown : KnowsDate seen <;> by_cases hc : KnowsClock seen
  · by_cases hexists : t.date.Exists ∧ t.OnCalendar <;> simp [hknown, hc, hexists]
  · by_cases hexists : t.date.Exists ∧ t.OnCalendar <;>
      simp [hknown, hc, hexists, withDefaultClock_stated hclock]
  · simp [hknown, hc, withDefaultDate_stated (hdate.resolve_left hknown)]
  · simp [hknown, hc, withDefaultDate_stated (hdate.resolve_left hknown),
      withDefaultClock_stated hclock']

/-- What is applied of an offset: nothing, if it is of a day or more. -/
def appliedOffset (seconds : Int) : Int := if seconds.natAbs < 86400 then seconds else 0

/-- The offset that was read is applied, and none if none was read. -/
theorem effectiveOffset_stated :
    (t.stated seen offset).effectiveOffset = offset.elim 0 appliedOffset := by
  cases offset <;> rfl

/-- A time of day whose stated numbers are in range exists. -/
theorem HasDefaultClock.clock_le (h : t.HasDefaultClock seen) (hrange : ∀ f ∈ seen, t.InRange f) :
    t.hour ≤ 23 ∧ t.minute ≤ 59 ∧ t.second ≤ 60 := by
  have hstated : ∀ f ∈ seen, f.number.range.lo ≤ t.value f ∧ t.value f ≤ f.number.range.hi :=
    fun f hf => (IntRange.contains_iff _ _).mp (hrange f hf)
  refine ⟨?_, ?_, ?_⟩
  · by_cases hf : CivilField.hour ∈ seen
    · have hle : (t.hour : Int) ≤ 23 := (hstated _ hf).2
      omega
    · rw [h.hour hf]
      decide
  · by_cases hf : CivilField.minute ∈ seen
    · have hle : (t.minute : Int) ≤ 59 := (hstated _ hf).2
      omega
    · rw [h.minute hf]
      decide
  · by_cases hf : CivilField.second ∈ seen
    · have hle : (t.second : Int) ≤ 60 := (hstated _ hf).2
      omega
    · rw [h.second hf]
      decide

/-- Stated numbers, completed by defaults, determine the time if it exists on the calendar, and
nothing otherwise. -/
theorem epochMillis?_stated (hrange : ∀ f ∈ seen, t.InRange f) (hfits : t.CenturyFits seen)
    (hdate : KnowsDate seen ∨ t.HasDefaultDate seen) (hclock : t.HasDefaultClock seen) :
    (t.stated seen offset).epochMillis? =
      if t.Exists ∧ t.OnCalendar then some (t.epochMillis - offset.elim 0 appliedOffset * 1000)
      else none := by
  have hclockRange := hclock.clock_le hrange
  have hhour := hclockRange.1
  have hexists : t.Exists ∧ t.OnCalendar ↔ t.date.Exists ∧ t.OnCalendar := by
    simp [Exists, hclockRange]
  unfold TemporalFields.epochMillis?
  rw [effectiveOffset_stated]
  simp only [hexists]
  by_cases hknown : KnowsDate seen ∧ KnowsClock seen
  · rw [resolve_stated hfits hknown.1 hknown.2 hclock.second hhour]
    by_cases hdate' : t.date.Exists ∧ t.OnCalendar <;> simp [hdate', epochMillis_clock]
  · have hcompleted : (t.stated (completedFields seen) offset).resolve
        (offset.elim 0 appliedOffset) =
        if t.date.Exists ∧ t.OnCalendar then .ok ⟨t.date.dayNumber, t.clock.1, t.clock.2⟩
        else .error .contradictory := by
      refine resolve_stated ?_ knowsDate_completedFields knowsClock_completedFields ?_ hhour _
      · exact fun hshort => hfits (yearOfCentury_mem_completedFields_iff.mp hshort)
      · exact fun hunseen => hclock.second fun hseen => hunseen (mem_completedFields hseen)
    rw [resolve_stated_of_unknown hfits hknown hclock.second hhour,
      withDefaults_stated hfits hdate hclock hhour, hcompleted]
    by_cases hdate' : t.date.Exists ∧ t.OnCalendar
    · simp [hdate', epochMillis_clock, Except.toOption]
    · by_cases hseen : KnowsDate seen <;> simp [hdate', hseen, Except.toOption]

/-- A year of 1970 beside two digits that stand for another year is a contradiction. -/
theorem resolve_of_year_ne {fields : TemporalFields} {n : Nat} (hyear : fields.year = some 1970)
    (hcentury : fields.century = none) (hshort : fields.yearOfCentury = some n) (hn : n ≠ 70)
    (ahead : Int) : fields.resolve ahead = .error .contradictory := by
  have hresolve : resolveYear (some 1970) none (some n) = .error .contradictory := by
    show (if (decide ((0 : Int) ≤ 1970) && true && ((1970 : Int) % 100 == (n : Int))) = true
      then _ else _) = _
    have hne : (1970 : Int) % 100 ≠ (n : Int) := by omega
    simpa using hne
  rw [TemporalFields.resolve, TemporalFields.resolveParts, TemporalFields.resolveDay, hyear, hcentury,
    hshort, hresolve]

/-- Where there is not enough for a date, the defaults give a year to a text that does not tell one in
full, and leave its other numbers of the year alone. -/
theorem withDefaults_year {fields : TemporalFields}
    (h : fields.resolveDay = .error .insufficient) :
    fields.withDefaults.year = fields.year.or (some 1970) ∧
      fields.withDefaults.century = fields.century ∧
      fields.withDefaults.yearOfCentury = fields.yearOfCentury := by
  unfold TemporalFields.withDefaults TemporalFields.withDefaultClock
  rw [h]
  dsimp only
  split
  · split <;> exact ⟨rfl, rfl, rfl⟩
  · exact ⟨rfl, rfl, rfl⟩

/-- A year known by its last two digits alone is not determined if the date has to be completed,
unless it is 1970. -/
theorem epochMillis?_stated_short (hfits : t.CenturyFits seen) (hyear : .year ∉ seen)
    (hshort : .yearOfCentury ∈ seen) (hunknown : ¬ KnowsDate seen) (hne : t.year ≠ 1970)
    (hclock : t.HasDefaultClock seen) (hhour : t.hour ≤ 23) :
    (t.stated seen offset).epochMillis? = none := by
  obtain ⟨hfrom, huntil⟩ := hfits hshort
  have hday : (t.stated seen offset).resolveDay = .error .insufficient := by
    rw [resolveDay_stated hfits, if_neg hunknown]
  have hcontradictory : ∀ ahead,
      (t.stated seen offset).withDefaults.resolve ahead = .error .contradictory := by
    obtain ⟨hy, hc, hs⟩ := withDefaults_year hday
    refine resolve_of_year_ne (n := (t.year % 100).toNat) ?_ hc ?_ (by omega)
    · rw [hy]
      simp [stated, hyear]
    · rw [hs]
      simp [stated, hshort]
  have hinsufficient : ∀ ahead, (t.stated seen offset).resolve ahead = .error .insufficient := by
    intro ahead
    rw [resolve_stated_of_unknown hfits (fun h => hunknown h.1) hclock.second hhour,
      if_neg fun h => hunknown h.1]
  simp only [TemporalFields.epochMillis?, hinsufficient, hcontradictory, Except.toOption,
    Option.map_none]

/-! ## Reading a text -/

/-- The calendar ends well before the milliseconds do. -/
theorem epochMillis_bounds (h : t.Exists) (hcalendar : t.OnCalendar) :
    -9000000000000000 ≤ t.epochMillis ∧ t.epochMillis ≤ 9000000000000000 := by
  obtain ⟨hdate, hhour, hminute, hsecond⟩ := h
  obtain ⟨hfrom, huntil⟩ := hdate.dayNumber_bounds
  have hlength : Calendar.yearLength t.date.year ≤ 366 := by
    unfold Calendar.yearLength
    split <;> decide
  have hyear : t.date.year = t.year := rfl
  simp only [OnCalendar, firstYear, lastYear] at hcalendar
  simp only [Calendar.daysBeforeYear, hyear] at hfrom huntil hlength
  unfold epochMillis
  omega

/-- An offset that is applied is shorter than a day. -/
theorem natAbs_appliedOffset_lt (seconds : Int) : (appliedOffset seconds).natAbs < 86400 := by
  unfold appliedOffset
  split
  · assumption
  · decide

end CivilTime

namespace TemporalFormat

variable {format : TemporalFormat} {t : CivilTime} {offset : Int} {text : List Char}

/-- A text of the items gives the numbers of its time, if all of them are in range. -/
theorem scanText?_of_matches (h : Matches t offset format.items text) :
    scanText? format.items text =
      if ∀ f ∈ civilFields format.items, t.InRange f then
        some (t.stated (civilFields format.items) (offsetAfter none offset format.items))
      else none := by
  have hscan := scanItems?_of_matches h [] none (.inl rfl)
  rw [CivilTime.stated_nil, List.nil_append] at hscan
  rw [scanText?, hscan]
  by_cases hrange : ∀ f ∈ civilFields format.items, t.InRange f
  · simp only [if_pos hrange]
  · simp only [if_neg hrange]

/-- A text in a format is read as the time whose numbers it has, completed by defaults and moved by
the offset, if the time exists on the calendar. -/
theorem readMillis?_of_matches (h : Matches t offset format.items text)
    (hfits : t.CenturyFits (civilFields format.items))
    (hdate : KnowsDate (civilFields format.items) ∨ t.HasDefaultDate (civilFields format.items))
    (hclock : t.HasDefaultClock (civilFields format.items)) :
    format.readMillis? text =
      if t.Exists ∧ t.OnCalendar then
        some (t.epochMillis -
          (offsetAfter none offset format.items).elim 0 CivilTime.appliedOffset * 1000)
      else none := by
  rw [readMillis?, scanText?_of_matches h]
  by_cases hrange : ∀ f ∈ civilFields format.items, t.InRange f
  · rw [if_pos hrange, Option.bind_some, CivilTime.epochMillis?_stated hrange hfits hdate hclock]
  · rw [if_neg hrange, if_neg fun hexists => hrange fun f _ => hexists.1.inRange hexists.2 f]
    rfl

/-- The milliseconds of such a time are not cut off. -/
theorem read?_of_matches (h : Matches t offset format.items text)
    (hfits : t.CenturyFits (civilFields format.items))
    (hdate : KnowsDate (civilFields format.items) ∨ t.HasDefaultDate (civilFields format.items))
    (hclock : t.HasDefaultClock (civilFields format.items)) :
    (format.read? text).map (·.epochMillis.toInt) =
      if t.Exists ∧ t.OnCalendar then
        some (t.epochMillis -
          (offsetAfter none offset format.items).elim 0 CivilTime.appliedOffset * 1000)
      else none := by
  rw [read?, readMillis?_of_matches h hfits hdate hclock]
  by_cases hexists : t.Exists ∧ t.OnCalendar
  · obtain ⟨hfrom, huntil⟩ := CivilTime.epochMillis_bounds hexists.1 hexists.2
    have hshift : ((offsetAfter none offset format.items).elim 0
        CivilTime.appliedOffset).natAbs < 86400 := by
      cases offsetAfter none offset format.items with
      | none => decide
      | some seconds => exact CivilTime.natAbs_appliedOffset_lt seconds
    simp only [if_pos hexists, Option.map_some]
    rw [Int64.toInt_ofInt_of_le (by omega) (by omega)]
  · simp only [if_neg hexists, Option.map_none]

end TemporalFormat

end RecordCoercion
