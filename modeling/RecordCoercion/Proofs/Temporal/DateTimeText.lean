import RecordCoercion.Proofs.Temporal.WrittenMoment

/-!
# Reading a written date-time

The date-time of a moment is written with a year of any number of digits, five two-digit numbers, a
fraction in milliseconds that may be missing, and an offset that is zero. It is read number by number, each
one stated beside those before it, and the fields in the end determine the moment to the millisecond
(`TemporalFormat.readMillis?_dateTimeText`).
-/

set_option autoImplicit false

namespace RecordCoercion

/-! ## Numbers of a moment in front of a text -/

/-- A year is read up to the next character that is no digit: beyond four digits and below zero its sign
lifts the limit on them. -/
theorem numberText_yearText (year : Int) {rest : List Char}
    (hrest : ∀ c ∈ rest.head?, c.isDigit = false) :
    NumberText .year (NumericField.yearText .zeros year ++ rest) year rest := by
  have hblanks : ∀ c ∈ ([] : List Char), isBlank c = true := by simp
  have hvalue := numeralValue_padLeft 4 year.natAbs
  have hdigits : ∀ c ∈ padLeft '0' 4 (numeral year.natAbs), c.isDigit = true := isDigit_of_mem_padLeft
  have hne := padLeft_ne_nil 4 year.natAbs
  have hlongest : LongestDigits none (padLeft '0' 4 (numeral year.natAbs)) rest :=
    ⟨hdigits, by simp, .inr hrest⟩
  obtain ⟨hneg, htext⟩ | ⟨⟨hnonneg, hfour⟩, htext⟩ | ⟨hfive, htext⟩ := yearText_zeros_cases year <;>
    rw [htext]
  case inl =>
    have hminus : NumberText .year _ _ rest := .minus rfl hblanks hne hlongest
    rwa [hvalue, show -(year.natAbs : Int) = year by omega] at hminus
  case inr.inl =>
    have hlength := length_padLeft_of_lt (by decide) (show year.natAbs < 10 ^ 4 by omega)
    have hlimit : LongestDigits NumericField.year.width (padLeft '0' 4 (numeral year.natAbs)) rest := by
      refine ⟨hdigits, ?_, .inr hrest⟩
      rintro w ⟨⟩
      exact Nat.le_of_eq hlength
    have hunsigned : NumberText .year _ _ rest := .unsigned hblanks hne hlimit
    rwa [hvalue, show (year.natAbs : Int) = year by omega] at hunsigned
  case inr.inr =>
    have hplus : NumberText .year _ _ rest := .plus rfl hblanks hne hlongest
    rwa [hvalue, show (year.natAbs : Int) = year by omega] at hplus

/-- A text with a year in front begins with a minus exactly if the year is below zero, and with a plus
exactly if it has more than four digits. -/
theorem head?_yearText_append (year : Int) (rest : List Char) :
    ((NumericField.yearText .zeros year ++ rest).head? = some '-' ↔ year < 0) ∧
      ((NumericField.yearText .zeros year ++ rest).head? = some '+' ↔ 9999 < year) := by
  have hdigit : ∀ c : Char, c.isDigit = false →
      (padLeft '0' 4 (numeral year.natAbs) ++ rest).head? ≠ some c := by
    intro c hc hhead
    obtain ⟨first, digits, heq⟩ := List.exists_cons_of_ne_nil (padLeft_ne_nil 4 year.natAbs)
    rw [heq] at hhead
    obtain rfl : first = c := Option.some.inj hhead
    have hmem : first ∈ padLeft '0' 4 (numeral year.natAbs) := heq ▸ List.mem_cons_self
    have hfirst := isDigit_of_mem_padLeft first hmem
    rw [hc] at hfirst
    cases hfirst
  obtain ⟨hneg, htext⟩ | ⟨⟨hnonneg, hfour⟩, htext⟩ | ⟨hfive, htext⟩ := yearText_zeros_cases year <;>
    rw [htext]
  case inl => exact ⟨iff_of_true rfl hneg, iff_of_false (fun h => nomatch h) (by omega)⟩
  case inr.inl =>
    exact ⟨iff_of_false (hdigit '-' rfl) (by omega), iff_of_false (hdigit '+' rfl) (by omega)⟩
  case inr.inr => exact ⟨iff_of_false (fun h => nomatch h) (by omega), iff_of_true rfl hfive⟩

namespace Moment

variable {m : Moment}

/-- A number of a moment is read up to the next character that is no digit. -/
theorem numberText (h : m.InDay) (f : CivilField) {rest : List Char}
    (hrest : ∀ c ∈ rest.head?, c.isDigit = false) :
    NumberText f.number (f.number.text .zeros m ++ rest) (m.civilTime.value f) rest := by
  by_cases hyear : f = .year
  · subst hyear
    exact numberText_yearText m.date.year hrest
  · exact (m.filled_text h f fun hf => absurd hf hyear).numberText rest

/-- The number of a moment is written without blanks. -/
theorem isBlank_of_mem_text (h : m.InDay) (f : CivilField) :
    ∀ c ∈ f.number.text .zeros m, isBlank c = false := by
  by_cases hyear : f = .year
  · subst hyear
    show ∀ c ∈ NumericField.yearText .zeros m.date.year, isBlank c = false
    have hdigits : ∀ c ∈ padLeft '0' 4 (numeral m.date.year.natAbs), isBlank c = false :=
      fun c hc => isBlank_of_isDigit (isDigit_of_mem_padLeft c hc)
    obtain ⟨-, htext⟩ | ⟨-, htext⟩ | ⟨-, htext⟩ := yearText_zeros_cases m.date.year <;> rw [htext]
    case inl => exact List.forall_mem_cons.mpr ⟨by decide, hdigits⟩
    case inr.inl => exact hdigits
    case inr.inr => exact List.forall_mem_cons.mpr ⟨by decide, hdigits⟩
  · exact fun c hc => isBlank_of_isDigit ((m.filled_text h f fun hf => absurd hf hyear).isDigit c hc)

end Moment

section

variable {t : CivilTime} {f : CivilField} (hrange : t.InRange f) {seen : List CivilField}
  {offset : Option Int} {text rest : List Char}

include hrange

/-- A number that is in its range is stated. -/
theorem scan?_stated (h : NumberText f.number text (t.value f) rest) :
    f.number.scan? (t.stated seen offset) text = some (t.stated (seen ++ [f]) offset, rest) := by
  simp only [NumericField.scan?, NumericField.scanValue?_of_numberText h, CivilTime.set?_stated,
    if_pos hrange, Option.map_some]

/-- A number and the separator behind it state one more field. -/
theorem scanSeparated?_stated {separator : Char} (hseparator : isBlank separator = false)
    (h : NumberText f.number text (t.value f) (separator :: rest)) :
    scanSeparated? f.number separator (t.stated seen offset) text =
      some (t.stated (seen ++ [f]) offset, rest) := by
  have hnone : ∀ c ∈ ([] : List Char), isBlank c = true := by simp
  have htrim : trimStart (separator :: rest) = separator :: rest :=
    trimStart_append hnone (by simp [hseparator])
  simp only [scanSeparated?, scan?_stated hrange h, htrim, scanChar?, if_true]

end

/-! ## The fraction -/

/-- Up to nine digits are read as so many decimal places of a second. -/
theorem scanFraction?_append {digits rest : List Char} (hne : digits ≠ [])
    (hdigits : ∀ c ∈ digits, c.isDigit = true) (hlength : digits.length ≤ 9)
    (hrest : ∀ c ∈ rest.head?, c.isDigit = false) :
    scanFraction? (digits ++ rest) = some (numeralValue digits * Nat.pow 10 (9 - digits.length), rest) := by
  obtain ⟨htake, hdrop⟩ := span_append hdigits hrest
  have hsplit : splitDigits (digits ++ rest) = (digits, rest) := by rw [splitDigits, htake, hdrop]
  cases digits with
  | nil => exact absurd rfl hne
  | cons c digits =>
    simp only [scanFraction?, hsplit, List.take_of_length_le hlength]

namespace FractionStyle

/-- A style tells the milliseconds of a second, perhaps by leaving out a fraction of zero. -/
def TellsMillis (style : FractionStyle) : Prop := style = .fitting ∨ style = .dotted 3

variable {style : FractionStyle} (hstyle : style.TellsMillis) (m : Moment)

/-- Milliseconds fill three places. -/
theorem length_millis : (padLeft '0' 3 (numeral m.millisOfSecond)).length = 3 :=
  length_padLeft_of_lt (by decide) (Nat.mod_lt _ (by decide))

include hstyle in
/-- What is written of the milliseconds is three digits behind a point, or nothing where there are none. -/
theorem text_cases :
    (style.text m = [] ∧ m.millisOfSecond = 0) ∨
      style.text m = '.' :: padLeft '0' 3 (numeral m.millisOfSecond) := by
  have hdigits : digits m 3 = padLeft '0' 3 (numeral m.millisOfSecond) :=
    List.take_left' (length_millis m)
  rw [← hdigits]
  obtain rfl | rfl := hstyle
  · by_cases hzero : m.millisOfSecond = 0
    · exact .inl ⟨if_pos hzero, hzero⟩
    · exact .inr (if_neg hzero)
  · exact .inr rfl

include hstyle in
/-- A fraction of a second is written without blanks. -/
theorem isBlank_of_mem_text : ∀ c ∈ style.text m, isBlank c = false := by
  obtain ⟨htext, -⟩ | htext := text_cases hstyle m
  · simp [htext]
  · rw [htext, List.forall_mem_cons]
    exact ⟨by decide, fun c hc => isBlank_of_isDigit (isDigit_of_mem_padLeft c hc)⟩

include hstyle in
/-- The written fraction is read as the nanoseconds of the second, or is missing where there are none. -/
theorem scan?_text {rest : List Char} (hdigit : ∀ c ∈ rest.head?, c.isDigit = false)
    (hpoint : ∀ c ∈ rest.head?, c ≠ '.') :
    ∃ nanosecond : Option Nat, scan? .fitting (style.text m ++ rest) = some (nanosecond, rest) ∧
      nanosecond.getD 0 = m.millisOfSecond * 1000000 := by
  obtain ⟨htext, hzero⟩ | htext := text_cases hstyle m
  · refine ⟨none, ?_, by simp [hzero]⟩
    rw [htext, List.nil_append]
    cases rest with
    | nil => rfl
    | cons c rest => simp [scan?, hpoint c rfl]
  · have hlength := length_millis m
    have hscan := scanFraction?_append (padLeft_ne_nil 3 m.millisOfSecond) isDigit_of_mem_padLeft
      (by omega) hdigit
    rw [numeralValue_padLeft, hlength] at hscan
    rw [htext]
    exact ⟨_, congrArg (Option.map _) hscan, rfl⟩

end FractionStyle

/-- The fraction of a moment adds its nanoseconds to fields that have none. -/
theorem scanFraction?_text {fields : TemporalFields} (hnone : fields.nanosecond = none) (m : Moment)
    {style : FractionStyle} (hstyle : style.TellsMillis) {rest : List Char}
    (hdigit : ∀ c ∈ rest.head?, c.isDigit = false) (hpoint : ∀ c ∈ rest.head?, c ≠ '.') :
    ∃ nanosecond : Option Nat,
      fields.scanFraction? .fitting (style.text m ++ rest) = some ({ fields with nanosecond }, rest) ∧
        nanosecond.getD 0 = m.millisOfSecond * 1000000 := by
  obtain ⟨nanosecond, hscan, hvalue⟩ := FractionStyle.scan?_text hstyle m hdigit hpoint
  refine ⟨nanosecond, ?_, hvalue⟩
  unfold TemporalFields.scanFraction?
  rw [hscan]
  cases nanosecond with
  | none => simp only [← hnone]
  | some n =>
    have hlt : m.millisOfSecond < 1000 := Nat.mod_lt _ (by decide)
    have hrange : NumericField.nanosecond.range.contains n = true := by
      rw [Option.getD_some] at hvalue
      rw [IntRange.contains_iff]
      simp only [NumericField.range]
      omega
    simp [TemporalFields.set?, hrange, hnone, settle?]

/-! ## The date-time -/

/-- The offset of a written date-time, which is zero in either form. -/
def IsUtc (zone : List Char) : Prop := zone = ['Z'] ∨ zone = "+00:00".toList

variable {m : Moment} {style : FractionStyle} {zone : List Char}

/-- A date-time of a moment is read into the numbers of its civil time, its nanoseconds and no offset. -/
theorem scanDateTime?_dateTimeText (h : m.InDay) (hcalendar : m.civilTime.OnCalendar)
    (hstyle : style.TellsMillis) (hzone : IsUtc zone) :
    ∃ nanosecond : Option Nat, scanDateTime? .empty (m.dateTimeText style ++ zone) =
        some ({ m.civilTime.stated Selection.dateTime.fields (some 0) with nanosecond }, []) ∧
      nanosecond.getD 0 = m.millisOfSecond * 1000000 := by
  have hrange := (Moment.exists_civilTime h).inRange hcalendar
  have hzoneHead : (∀ c ∈ zone.head?, c.isDigit = false) ∧ (∀ c ∈ zone.head?, c ≠ '.') := by
    obtain rfl | rfl := hzone <;> simp
  have hoffset : scanDateTimeOffset? (trimStart zone) = some (0, []) := by
    obtain rfl | rfl := hzone <;> decide
  -- what follows the seconds starts with no digit, whether there is a fraction or not
  have hafter : ∀ c ∈ (style.text m ++ zone).head?, c.isDigit = false := by
    obtain ⟨htext, -⟩ | htext := style.text_cases hstyle m
    · rw [htext]
      exact hzoneHead.1
    · rw [htext]
      rintro c ⟨⟩
      rfl
  have hseparated : ∀ (f : CivilField) (separator : Char) (seen : List CivilField) (rest : List Char),
      isBlank separator = false → separator.isDigit = false →
      scanSeparated? f.number separator (m.civilTime.stated seen none)
          (f.number.text .zeros m ++ separator :: rest) =
        some (m.civilTime.stated (seen ++ [f]) none, rest) := fun f separator seen rest hblank hdigit =>
    scanSeparated?_stated (hrange f) hblank (Moment.numberText h f (by simpa using hdigit))
  have hnumber : ∀ (f : CivilField) (seen : List CivilField) (rest : List Char),
      (∀ c ∈ rest.head?, c.isDigit = false) →
      f.number.scan? (m.civilTime.stated seen none) (f.number.text .zeros m ++ rest) =
        some (m.civilTime.stated (seen ++ [f]) none, rest) := fun f seen rest hrest =>
    scan?_stated (hrange f) (Moment.numberText h f hrest)
  have hnone : (m.civilTime.stated Selection.dateTime.fields none).nanosecond = none := rfl
  obtain ⟨nanosecond, hfraction, hvalue⟩ :=
    scanFraction?_text hnone m hstyle hzoneHead.1 hzoneHead.2
  refine ⟨nanosecond, ?_, hvalue⟩
  have hyear := fun rest => hseparated .year '-' [] rest rfl rfl
  have hmonth := fun rest => hseparated .month '-' [.year] rest rfl rfl
  have hday := fun rest => hnumber .day [.year, .month] ('T' :: rest) (by simp)
  have hhour := fun rest => hseparated .hour ':' [.year, .month, .day] rest rfl rfl
  have hminute := fun rest => hseparated .minute ':' [.year, .month, .day, .hour] rest rfl rfl
  have hsecond := hnumber .second [.year, .month, .day, .hour, .minute] _ hafter
  have htext : m.dateTimeText style ++ zone =
      NumericField.year.text .zeros m ++ '-' :: (NumericField.month.text .zeros m ++ '-' ::
        (NumericField.day.text .zeros m ++ 'T' :: (NumericField.hour.text .zeros m ++ ':' ::
          (NumericField.minute.text .zeros m ++ ':' :: (NumericField.second.text .zeros m ++
            (style.text m ++ zone)))))) := by
    simp [Moment.dateTimeText, Moment.dateText, Moment.clockText]
  simp only [CivilField.number, List.nil_append, List.cons_append] at hyear hmonth hday hhour hminute hsecond
  rw [htext, ← m.civilTime.stated_nil]
  simp only [Selection.fields] at hfraction
  simp only [scanDateTime?, hyear, hmonth, hday, hhour, hminute, hsecond, hfraction, hoffset,
    Option.bind_eq_bind, Option.bind_some]
  rfl

/-- No blank is among the characters of a date-time. -/
theorem isBlank_of_mem_dateTimeText (h : m.InDay) (hstyle : style.TellsMillis) (hzone : IsUtc zone) :
    ∀ c ∈ m.dateTimeText style ++ zone, isBlank c = false := by
  have hzone' : ∀ c ∈ zone, isBlank c = false := by
    obtain rfl | rfl := hzone <;> simp [isBlank]
  have hnumber := Moment.isBlank_of_mem_text h
  simp only [Moment.dateTimeText, Moment.dateText, Moment.clockText, List.forall_mem_append,
    List.forall_mem_cons]
  exact ⟨⟨⟨⟨⟨hnumber .year, by decide, hnumber .month⟩, by decide, hnumber .day⟩, by decide,
    ⟨⟨hnumber .hour, by decide, hnumber .minute⟩, by decide, hnumber .second⟩⟩,
    style.isBlank_of_mem_text hstyle m⟩, hzone'⟩

/-! ## The moment of the fields -/

/-- The numbers of a time that exists on the calendar and nanoseconds of its second determine its
milliseconds and those of the nanoseconds. -/
theorem CivilTime.epochMillis?_of_nanosecond {t : CivilTime} (hexists : t.Exists)
    (hcalendar : t.OnCalendar) (hsecond : t.second ≠ 60) (nanosecond : Option Nat) :
    { t.stated Selection.dateTime.fields (some 0) with nanosecond }.epochMillis? =
      some (t.epochMillis + (nanosecond.getD 0 / 1000000 : Nat)) := by
  have hfits : t.CenturyFits Selection.dateTime.fields := fun hshort => absurd hshort (by decide)
  have hstated : (t.stated Selection.dateTime.fields (some 0)).resolveDay = .ok t.date.dayNumber := by
    rw [resolveDay_stated hfits, if_pos (by decide), if_pos ⟨hexists.1, hcalendar⟩]
  have hday : TemporalFields.resolveDay { t.stated Selection.dateTime.fields (some 0) with nanosecond } =
      .ok t.date.dayNumber := hstated
  have hclock : TemporalFields.resolveClock
      { t.stated Selection.dateTime.fields (some 0) with nanosecond } =
      some ((t.hour * 60 + t.minute) * 60 + t.second, nanosecond.getD 0) := by
    have hhour : t.hour % 12 + (if 12 ≤ t.hour then 12 else 0) = t.hour := by
      have hle := hexists.2.1
      split <;> omega
    simp [TemporalFields.resolveClock, stated, Selection.fields, hhour, hsecond]
  have hresolve : TemporalFields.resolve
      { t.stated Selection.dateTime.fields (some 0) with nanosecond } 0 =
      .ok ⟨t.date.dayNumber, (t.hour * 60 + t.minute) * 60 + t.second, nanosecond.getD 0⟩ := by
    rw [TemporalFields.resolve, TemporalFields.resolveParts, hday, hclock]
    rfl
  have hoffset : TemporalFields.effectiveOffset
      { t.stated Selection.dateTime.fields (some 0) with nanosecond } = 0 := rfl
  simp only [TemporalFields.epochMillis?, hoffset, hresolve, LocalTime.epochMillis, LocalTime.epochSeconds,
    epochMillis, Option.some.injEq]
  omega

namespace TemporalFormat

/-- The format of date-times with a zero offset. -/
def rfc3339 : TemporalFormat := ⟨"%+", by decide⟩

/-- The pattern `%+` asks for a date and time in one piece. -/
theorem items_rfc3339 : rfc3339.items = [.dateTime] := by decide

/-- The written date-time of a count of milliseconds is read as this count. -/
theorem readMillis?_dateTimeText {millis : Int}
    (hcalendar : (Instant.momentOfMillis millis).civilTime.OnCalendar) (hstyle : style.TellsMillis)
    (hzone : IsUtc zone) :
    rfc3339.readMillis? ((Instant.momentOfMillis millis).dateTimeText style ++ zone) = some millis := by
  have hinDay := Moment.inDay_momentOfMillis millis
  obtain ⟨nanosecond, hscan, hnanosecond⟩ := scanDateTime?_dateTimeText hinDay hcalendar hstyle hzone
  have htext : scanText? rfc3339.items ((Instant.momentOfMillis millis).dateTimeText style ++ zone) =
      some { (Instant.momentOfMillis millis).civilTime.stated Selection.dateTime.fields (some 0) with
        nanosecond } := by
    simp only [items_rfc3339, scanText?, scanItems?, Item.scan?, hscan]
  have hkeep : (Instant.momentOfMillis millis).civilTime.keep Selection.dateTime.fields =
      (Instant.momentOfMillis millis).civilTime := by
    simp [CivilTime.keep, Selection.fields]
  obtain ⟨hexists, htruncate⟩ := Selection.dateTime.keep_fields_spec millis
  rw [hkeep] at hexists htruncate
  have hsecond : (Instant.momentOfMillis millis).civilTime.second ≠ 60 :=
    Nat.ne_of_lt (Nat.mod_lt _ (by decide))
  have hmillis : ((Instant.momentOfMillis millis).millisOfSecond : Int) = millis % 1000 := by
    show (((millis % (86400000 : Nat)).toNat % 1000 : Nat) : Int) = millis % 1000
    omega
  rw [readMillis?, htext, Option.bind_some, CivilTime.epochMillis?_of_nanosecond hexists hcalendar hsecond,
    htruncate, hnanosecond, Nat.mul_div_cancel _ (by decide), hmillis, Selection.truncate]
  exact congrArg some (by omega)

end TemporalFormat

end RecordCoercion
