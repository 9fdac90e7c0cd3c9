import RecordCoercion.Proofs.Temporal.PartialPattern
import RecordCoercion.Temporal.Render

/-!
# The numbers that a moment is written with

Filled up with zeros, each number of a date and a time of day takes all the places that a reader has
for it, so that a reader stops behind it whatever follows (`CivilField.IsFilled.numberText`). The
numbers of a moment are those of its civil time (`Moment.filled_text`), which gives the
moment back to the second (`Moment.epochMillis_civilTime`).
-/

set_option autoImplicit false

namespace RecordCoercion

/-! ## Numbers that fill their places -/

/-- A number below a hundred is written in two places with zeros. -/
theorem twoPlaces_zeros : ∀ n < 100, NumericField.twoPlaces .zeros n = padLeft '0' 2 (numeral n) := by
  decide

/-- A number that is filled up with zeros is made of digits. -/
theorem isDigit_of_mem_padLeft {width n : Nat} :
    ∀ c ∈ padLeft '0' width (numeral n), c.isDigit = true :=
  List.forall_mem_append.mpr ⟨isDigit_replicate_zero _, fun _ => isDigit_of_mem_numeral⟩

/-- Zeros in front of a number do not change it. -/
theorem numeralValue_padLeft (width n : Nat) : numeralValue (padLeft '0' width (numeral n)) = n := by
  rw [padLeft, numeralValue_append, numeralValue_replicate_zero, numeralValue_numeral, Nat.mul_zero,
    Nat.zero_add]

/-- A padded numeral is not empty. -/
theorem padLeft_ne_nil (width n : Nat) : padLeft '0' width (numeral n) ≠ [] :=
  List.append_ne_nil_of_right_ne_nil _ (numeral_ne_nil n)

/-- A number with no more digits than places takes all of them. -/
theorem length_padLeft_of_lt {width n : Nat} (hwidth : 0 < width) (h : n < 10 ^ width) :
    (padLeft '0' width (numeral n)).length = width := by
  have hle : (numeral n).length ≤ width := (Nat.length_toDigits_le_iff (by decide) hwidth).mpr h
  rw [padLeft, List.length_append, List.length_replicate]
  omega

/-- Four digits or more, a year below zero with a minus before them and one above 9999 with a plus. -/
theorem yearText_zeros_cases (year : Int) :
    (year < 0 ∧ NumericField.yearText .zeros year = '-' :: padLeft '0' 4 (numeral year.natAbs)) ∨
      ((0 ≤ year ∧ year ≤ 9999) ∧
        NumericField.yearText .zeros year = padLeft '0' 4 (numeral year.natAbs)) ∨
      (9999 < year ∧ NumericField.yearText .zeros year = '+' :: padLeft '0' 4 (numeral year.natAbs)) := by
  by_cases hneg : year < 0
  · exact .inl ⟨hneg, if_pos hneg⟩
  by_cases hfour : year ≤ 9999
  · exact .inr (.inl ⟨⟨by omega, hfour⟩, (if_neg hneg).trans (if_pos hfour)⟩)
  · exact .inr (.inr ⟨by omega, (if_neg hneg).trans (if_neg hfour)⟩)

namespace CivilField

/-- Digits that fill the places of a field with a number. -/
structure IsFilled (f : CivilField) (digits : List Char) (n : Int) : Prop where
  isDigit : ∀ c ∈ digits, c.isDigit = true
  length_eq : digits.length = f.places
  value : (numeralValue digits : Int) = n

variable {f : CivilField} {digits : List Char} {n : Int}

/-- Filled places are not empty. -/
theorem IsFilled.ne_nil (h : f.IsFilled digits n) : digits ≠ [] := by
  rintro rfl
  have hlength := h.length_eq
  cases f <;> cases hlength

/-- A reader stops behind such digits even if a digit follows. -/
theorem IsFilled.numberText (h : f.IsFilled digits n) (rest : List Char) :
    NumberText f.number (digits ++ rest) n rest := by
  have hwidth : f.number.width = some f.places := by cases f <;> rfl
  have hlongest : LongestDigits f.number.width digits rest := by
    rw [hwidth]
    refine ⟨h.isDigit, ?_, .inl ?_⟩
    · rintro w ⟨⟩
      exact Nat.le_of_eq h.length_eq
    · rw [h.length_eq]
      rfl
  have hblanks : ∀ c ∈ ([] : List Char), isBlank c = true := by simp
  rw [← h.value]
  exact .unsigned hblanks h.ne_nil hlongest

/-- A number padded with zeros fills the places of its field. -/
theorem isFilled_padLeft {n : Nat} (h : n < 10 ^ f.places) :
    f.IsFilled (padLeft '0' f.places (numeral n)) n := by
  have hplaces : 0 < f.places := by cases f <;> decide
  exact ⟨isDigit_of_mem_padLeft, length_padLeft_of_lt hplaces h, congrArg Nat.cast (numeralValue_padLeft _ n)⟩

end CivilField

/-! ## The numbers of a moment -/

namespace Moment

/-- The date and the time of day of a moment. -/
def civilTime (m : Moment) : CivilTime :=
  ⟨m.date.year, m.date.month, m.date.day, m.hour, m.minute, m.second⟩

/-- The milliseconds of a moment are those of a day. -/
def InDay (m : Moment) : Prop := m.millis < millisPerDay

/-- The moment of a number of milliseconds is within its day. -/
theorem inDay_momentOfMillis (millis : Int) : (Instant.momentOfMillis millis).InDay := by
  show (millis % (86400000 : Nat)).toNat < 86400000
  omega

/-- The time of a moment exists. -/
theorem exists_civilTime {m : Moment} (h : m.InDay) : m.civilTime.Exists := by
  simp only [InDay, millisPerDay] at h
  refine ⟨Calendar.Date.exists_ofDayNumber m.day, ?_, ?_, ?_⟩ <;>
    simp only [civilTime, hour, minute, second] <;> omega

/-- The numbers of a moment are written with all their places if the year has four at most. -/
theorem filled_text {m : Moment} (h : m.InDay) (f : CivilField)
    (hyear : f = .year → 0 ≤ m.date.year ∧ m.date.year ≤ 9999) :
    f.IsFilled (f.number.text .zeros m) (m.civilTime.value f) := by
  -- every field but the year has two places
  have htwo : ∀ n : Nat, n < 100 → f.places = 2 → m.civilTime.value f = n →
      f.IsFilled (NumericField.twoPlaces .zeros n) (m.civilTime.value f) := by
    intro n hn hplaces hvalue
    have hfilled := CivilField.isFilled_padLeft (f := f) (n := n) (by rwa [hplaces])
    rwa [hplaces, ← twoPlaces_zeros n hn, ← hvalue] at hfilled
  obtain ⟨⟨-, hmonth, -, hday⟩, hhour, hminute, hsecond⟩ := exists_civilTime h
  have hdays := Calendar.monthLength_le m.civilTime.date.year m.civilTime.date.month
  cases f
  case year =>
    obtain ⟨hfrom, huntil⟩ := hyear rfl
    have htext : CivilField.year.number.text .zeros m =
        padLeft '0' 4 (numeral m.date.year.natAbs) := by
      show NumericField.yearText .zeros m.date.year = _
      rw [NumericField.yearText, if_neg (by omega), if_pos huntil, Padding.fill]
    have hvalue : (m.date.year.natAbs : Int) = m.date.year := by omega
    have hfilled := CivilField.isFilled_padLeft (f := .year) (n := m.date.year.natAbs)
      (show m.date.year.natAbs < 10 ^ 4 by omega)
    rw [htext]
    rwa [hvalue] at hfilled
  case yearOfCentury =>
    refine htwo (m.date.year % 100).toNat (by omega) rfl ?_
    show m.date.year % 100 = ((m.date.year % 100).toNat : Int)
    omega
  case month => exact htwo m.date.month (Nat.lt_of_le_of_lt hmonth (by decide)) rfl rfl
  case day => exact htwo m.date.day (Nat.lt_of_le_of_lt (Nat.le_trans hday hdays) (by decide)) rfl rfl
  case hour => exact htwo m.hour (Nat.lt_of_le_of_lt hhour (by decide)) rfl rfl
  case minute => exact htwo m.minute (Nat.lt_of_le_of_lt hminute (by decide)) rfl rfl
  case second => exact htwo m.second (Nat.lt_of_le_of_lt hsecond (by decide)) rfl rfl

end Moment

/-! ## Parts of a time -/

namespace CivilTime

/-- The time with the numbers of some fields and, for the others, those of the start of 1970. -/
def keep (t : CivilTime) (fields : List CivilField) : CivilTime where
  year := if .year ∈ fields then t.year else 1970
  month := if .month ∈ fields then t.month else 1
  day := if .day ∈ fields then t.day else 1
  hour := if .hour ∈ fields then t.hour else 0
  minute := if .minute ∈ fields then t.minute else 0
  second := if .second ∈ fields then t.second else 0

variable {t : CivilTime} {fields fields' : List CivilField}

/-- The numbers of the fields that are kept. -/
theorem value_keep {f : CivilField} (hf : f ∈ fields) (hshort : f ≠ .yearOfCentury) :
    (t.keep fields).value f = t.value f := by
  cases f
  case yearOfCentury => exact absurd rfl hshort
  all_goals simp [value, keep, hf]

/-- What is not kept of the date is as at the start of 1970. -/
theorem hasDefaultDate_keep : (t.keep fields).HasDefaultDate fields :=
  ⟨fun h => if_neg h, fun h => if_neg h, fun h => if_neg h⟩

/-- What is not kept of the time of day is as at midnight. -/
theorem hasDefaultClock_keep : (t.keep fields).HasDefaultClock fields :=
  ⟨fun h => if_neg h, fun h => if_neg h, fun h => if_neg h⟩

/-- The order of the fields does not count. -/
theorem keep_perm (h : fields.Perm fields') : t.keep fields = t.keep fields' := by
  simp only [keep, h.mem_iff]

end CivilTime

/-- The fields of a date, of a time of day, or of both. -/
inductive Selection
  | date
  | clock
  | dateTime
  deriving DecidableEq

namespace Selection

/-- The fields of a selection. -/
def fields : Selection → List CivilField
  | date => [.year, .month, .day]
  | clock => [.hour, .minute, .second]
  | dateTime => [.year, .month, .day, .hour, .minute, .second]

/-- What a selection tells of a count of milliseconds since the start of 1970: the start of its day,
its second on the first day of 1970, or its second. -/
def truncate : Selection → Int → Int
  | date, millis => millis - millis % 86400000
  | clock, millis => millis % 86400000 - millis % 1000
  | dateTime, millis => millis - millis % 1000

variable (selection : Selection) (millis : Int)

/-- A selection has a field. -/
theorem exists_mem_fields : ∃ f, f ∈ selection.fields := by
  cases selection <;> exact ⟨_, List.mem_cons_self⟩

/-- No selection gives the year by its last two digits. -/
theorem yearOfCentury_notMem_fields : .yearOfCentury ∉ selection.fields := by
  cases selection <;> decide

/-- The time with the numbers of a selection exists, and its milliseconds are what the selection
tells. -/
theorem keep_fields_spec :
    ((Instant.momentOfMillis millis).civilTime.keep selection.fields).Exists ∧
      ((Instant.momentOfMillis millis).civilTime.keep selection.fields).epochMillis =
        selection.truncate millis := by
  generalize hm : Instant.momentOfMillis millis = m
  have hday : m.day = millis / 86400000 := by rw [← hm]; rfl
  have hmillis : (m.millis : Int) = millis % 86400000 := by
    rw [← hm]
    show ((millis % (86400000 : Nat)).toNat : Int) = _
    omega
  have hinDay : m.InDay := by
    rw [← hm]
    exact Moment.inDay_momentOfMillis millis
  have hexists := Moment.exists_civilTime hinDay
  have hnumber : m.civilTime.date.dayNumber = m.day := Calendar.Date.dayNumber_ofDayNumber m.day
  have hclock : 3600000 * (m.hour : Int) + 60000 * m.minute + 1000 * m.second =
      m.millis - m.millis % 1000 := by
    simp only [Moment.hour, Moment.minute, Moment.second]
    omega
  cases selection with
  | date =>
    have hkeep : m.civilTime.keep [.year, .month, .day] =
        ⟨m.date.year, m.date.month, m.date.day, 0, 0, 0⟩ := by simp [CivilTime.keep, Moment.civilTime]
    rw [fields, hkeep]
    refine ⟨⟨hexists.1, Nat.zero_le _, Nat.zero_le _, Nat.zero_le _⟩, ?_⟩
    show 86400000 * m.civilTime.date.dayNumber + 3600000 * ((0 : Nat) : Int) +
      60000 * ((0 : Nat) : Int) + 1000 * ((0 : Nat) : Int) = millis - millis % 86400000
    omega
  | clock =>
    have hkeep : m.civilTime.keep [.hour, .minute, .second] =
        ⟨1970, 1, 1, m.hour, m.minute, m.second⟩ := by simp [CivilTime.keep, Moment.civilTime]
    have hfirst : (⟨1970, 1, 1⟩ : Calendar.Date).Exists := by decide
    have hzero : (⟨1970, 1, 1⟩ : Calendar.Date).dayNumber = 0 := by decide
    rw [fields, hkeep]
    refine ⟨⟨hfirst, hexists.2⟩, ?_⟩
    show 86400000 * (⟨1970, 1, 1⟩ : Calendar.Date).dayNumber + 3600000 * (m.hour : Int) +
      60000 * (m.minute : Int) + 1000 * (m.second : Int) = millis % 86400000 - millis % 1000
    omega
  | dateTime =>
    have hkeep : m.civilTime.keep Selection.dateTime.fields = m.civilTime := by
      simp [CivilTime.keep, fields]
    rw [hkeep]
    refine ⟨hexists, ?_⟩
    show 86400000 * m.civilTime.date.dayNumber + 3600000 * (m.hour : Int) +
      60000 * (m.minute : Int) + 1000 * (m.second : Int) = millis - millis % 1000
    omega

end Selection

end RecordCoercion
