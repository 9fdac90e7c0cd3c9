import RecordCoercion.Calendar.Date

/-!
# Dates and their numbers

Which dates there are (`Date.Exists`), and that the number of a date determines it
(`Date.ofDayNumber_dayNumber`). A number leads back to its year because the years do not overlap,
and to its month and day because the months of a year stand one after the other. Every number is the
number of a date (`Date.dayNumber_ofDayNumber`), since the months fill the year.
-/

set_option autoImplicit false

namespace RecordCoercion.Calendar

/-- The number of days of a month; there are none outside the twelve months. -/
def monthLength (year : Int) (month : Nat) : Nat := (monthLengths year).getD (month - 1) 0

namespace Date

/-- The month is one of the twelve and has that many days. -/
def Exists (d : Date) : Prop :=
  1 ≤ d.month ∧ d.month ≤ 12 ∧ 1 ≤ d.day ∧ d.day ≤ monthLength d.year d.month

/-- Whether a date exists can be computed from its month and day. -/
instance (d : Date) : Decidable d.Exists := by
  unfold Exists
  infer_instance

end Date

/-- No month is longer than 31 days. -/
theorem monthLength_le (year : Int) (month : Nat) : monthLength year month ≤ 31 := by
  have hall : ∀ length ∈ monthLengths year, length ≤ 31 := by
    simp only [monthLengths]
    split <;> decide
  rw [monthLength, List.getD_eq_getElem?_getD]
  cases hget : (monthLengths year)[month - 1]? with
  | none => exact Nat.zero_le 31
  | some length => exact hall length (List.mem_of_getElem? hget)

/-- A year ends before any later year starts. -/
theorem daysBeforeYear_add_yearLength_le {year later : Int} (h : year < later) :
    daysBeforeYear year + yearLength year ≤ daysBeforeYear later := by
  rw [← daysBeforeYear_succ]
  simp only [daysBeforeYear]
  omega

/-- A year that a day lies in is the year of that day. -/
theorem yearOfDay_eq {year day : Int} (hstart : daysBeforeYear year ≤ day)
    (hend : day < daysBeforeYear year + yearLength year) : yearOfDay day = year := by
  have hfrom := daysBeforeYear_yearOfDay_le day
  have huntil := lt_daysBeforeYear_yearOfDay_succ day
  rw [daysBeforeYear_succ] at huntil
  rcases Int.lt_trichotomy (yearOfDay day) year with h | h | h
  · have := daysBeforeYear_add_yearLength_le h
    omega
  · exact h
  · have := daysBeforeYear_add_yearLength_le h
    omega

/-- The years from a given one on are those of the days from its start on. -/
theorem le_yearOfDay_iff {year day : Int} : year ≤ yearOfDay day ↔ daysBeforeYear year ≤ day := by
  have hfrom := daysBeforeYear_yearOfDay_le day
  have huntil := lt_daysBeforeYear_yearOfDay_succ day
  constructor
  · intro hle
    rcases Int.lt_or_eq_of_le hle with hlt | heq
    · have := daysBeforeYear_add_yearLength_le hlt
      omega
    · rw [heq]
      exact hfrom
  · intro hstart
    rcases Int.lt_or_le (yearOfDay day) year with hlt | hle
    · have := daysBeforeYear_add_yearLength_le hlt
      rw [daysBeforeYear_succ] at huntil
      omega
    · exact hle

/-- A day inside a month comes before the end of the year. -/
theorem totalLength_take_add_lt {lengths : List Nat} {index offset : Nat}
    (h : offset < lengths.getD index 0) :
    totalLength (lengths.take index) + offset < totalLength lengths := by
  induction lengths generalizing index with
  | nil => simp at h
  | cons length rest ih =>
    cases index with
    | zero =>
      have hoffset : offset < length := by simpa using h
      simp only [List.take_zero, totalLength]
      omega
    | succ index =>
      have hrest : totalLength (rest.take index) + offset < totalLength rest :=
        ih (by simpa using h)
      simp only [List.take_succ_cons, totalLength]
      omega

/-- A position in a month is found from the lengths of the months before it. -/
theorem placeInMonths_totalLength_take_add {lengths : List Nat} {index offset : Nat}
    (h : offset < lengths.getD index 0) :
    placeInMonths lengths (totalLength (lengths.take index) + offset) = (index, offset) := by
  induction lengths generalizing index with
  | nil => simp at h
  | cons length rest ih =>
    cases index with
    | zero =>
      have hoffset : offset < length := by simpa using h
      simp [placeInMonths, totalLength, hoffset]
    | succ index =>
      have hrest : placeInMonths rest (totalLength (rest.take index) + offset) = (index, offset) :=
        ih (by simpa using h)
      have hbeyond : ¬ totalLength (length :: rest.take index) + offset < length := by
        simp only [totalLength]
        omega
      have hsub : totalLength (length :: rest.take index) + offset - length =
          totalLength (rest.take index) + offset := by
        simp only [totalLength]
        omega
      rw [List.take_succ_cons, placeInMonths, if_neg hbeyond, hsub, hrest]

/-- Every position in a year lies in a month, at a place of the month. -/
theorem placeInMonths_spec {lengths : List Nat} {position index offset : Nat}
    (h : position < totalLength lengths)
    (hplace : placeInMonths lengths position = (index, offset)) :
    offset < lengths.getD index 0 ∧ totalLength (lengths.take index) + offset = position := by
  induction lengths generalizing position index with
  | nil => exact absurd h (Nat.not_lt_zero position)
  | cons length rest ih =>
    rw [placeInMonths] at hplace
    split at hplace
    · next hfirst =>
      cases hplace
      exact ⟨hfirst, Nat.zero_add _⟩
    · next hbeyond =>
      obtain ⟨rfl, rfl⟩ := Prod.mk.inj hplace
      have hrest : position - length < totalLength rest := by
        rw [totalLength] at h
        omega
      obtain ⟨hoffset, htotal⟩ := ih hrest rfl
      rw [List.take_succ_cons, totalLength]
      exact ⟨hoffset, by omega⟩

namespace Date

/-- Exactly the parts of the dates that exist make a date. -/
theorem ofParts?_eq (year : Int) (month day : Nat) :
    ofParts? year month day =
      if (⟨year, month, day⟩ : Date).Exists then some ⟨year, month, day⟩ else none := by
  cases month with
  | zero => simp [ofParts?, Exists]
  | succ index =>
    simp only [ofParts?, Exists, monthLength, Nat.add_sub_cancel]
    rcases Nat.lt_or_ge index 12 with hindex | hindex
    · have hget : (monthLengths year)[index]? = some ((monthLengths year).getD index 0) := by
        rw [List.getD_eq_getElem?_getD, List.getElem?_eq_getElem hindex]
        rfl
      rw [hget]
      simp only [Bool.and_eq_true, decide_eq_true_eq]
      congr 1
      simp only [eq_iff_iff]
      omega
    · have hget : (monthLengths year)[index]? = none := List.getElem?_eq_none hindex
      rw [hget, if_neg]
      omega

/-- The parts of a date that exists, counted from zero, and where it lies in its year. -/
theorem Exists.place {d : Date} (h : d.Exists) :
    d.day - 1 < (monthLengths d.year).getD (d.month - 1) 0 ∧
      d.dayNumber - daysBeforeYear d.year =
        (totalLength ((monthLengths d.year).take (d.month - 1)) + (d.day - 1) : Nat) := by
  obtain ⟨-, -, hday, hlength⟩ := h
  refine ⟨?_, ?_⟩
  · rw [monthLength] at hlength
    omega
  · rw [dayNumber]
    omega

/-- A date lies between the start and the end of its year. -/
theorem Exists.dayNumber_bounds {d : Date} (h : d.Exists) :
    daysBeforeYear d.year ≤ d.dayNumber ∧
      d.dayNumber < daysBeforeYear d.year + yearLength d.year := by
  obtain ⟨hmonth, hplace⟩ := h.place
  have hlt := totalLength_take_add_lt hmonth
  rw [totalLength_monthLengths] at hlt
  constructor <;> omega

/-- The day of a date lies in the year of the date. -/
theorem yearOfDay_dayNumber {d : Date} (h : d.Exists) : yearOfDay d.dayNumber = d.year :=
  yearOfDay_eq h.dayNumber_bounds.1 h.dayNumber_bounds.2

/-- A date is found again from its number. -/
theorem ofDayNumber_dayNumber {d : Date} (h : d.Exists) : ofDayNumber d.dayNumber = d := by
  obtain ⟨hmonth, hplace⟩ := h.place
  have hfound := placeInMonths_totalLength_take_add hmonth
  have hyear := yearOfDay_dayNumber h
  obtain ⟨hfirst, -, hday, -⟩ := h
  simp only [ofDayNumber, hyear, hplace, Int.toNat_natCast, hfound]
  rw [Nat.sub_add_cancel hfirst, Nat.sub_add_cancel hday]

/-- The date of a number exists and has that number. -/
theorem ofDayNumber_spec (n : Int) : (ofDayNumber n).Exists ∧ (ofDayNumber n).dayNumber = n := by
  have hfrom := daysBeforeYear_yearOfDay_le n
  have huntil := lt_daysBeforeYear_yearOfDay_succ n
  rw [daysBeforeYear_succ] at huntil
  have hposition : (n - daysBeforeYear (yearOfDay n)).toNat <
      totalLength (monthLengths (yearOfDay n)) := by
    rw [totalLength_monthLengths]
    omega
  rcases hplace : placeInMonths (monthLengths (yearOfDay n))
      (n - daysBeforeYear (yearOfDay n)).toNat with ⟨index, offset⟩
  obtain ⟨hoffset, htotal⟩ := placeInMonths_spec hposition hplace
  have hindex : index < 12 := by
    refine Nat.lt_of_not_le fun hle => ?_
    rw [List.getD_eq_getElem?_getD, List.getElem?_eq_none hle] at hoffset
    exact Nat.not_lt_zero _ hoffset
  have hdate : ofDayNumber n = ⟨yearOfDay n, index + 1, offset + 1⟩ := by
    simp only [ofDayNumber, hplace]
  rw [hdate]
  constructor
  · exact ⟨Nat.le_add_left 1 _, hindex, Nat.le_add_left 1 _, hoffset⟩
  · simp only [dayNumber, Nat.add_sub_cancel]
    omega

/-- Every day has a date that exists. -/
theorem exists_ofDayNumber (n : Int) : (ofDayNumber n).Exists := (ofDayNumber_spec n).1

/-- A number is that of its date. -/
theorem dayNumber_ofDayNumber (n : Int) : (ofDayNumber n).dayNumber = n := (ofDayNumber_spec n).2

end Date

end RecordCoercion.Calendar
