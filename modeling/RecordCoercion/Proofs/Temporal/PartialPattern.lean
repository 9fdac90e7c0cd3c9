import RecordCoercion.Proofs.Temporal.Completion

/-!
# Patterns that leave fields out

A slashed pattern asks for some numbers of a date and a time of day, in any order, with slashes
between them. Its texts are read as the time that has the numbers of the text and, where the pattern
leaves a number out, those of the start of 1970 (`read?_slashed`). Two digits in place of a year are
read as the year they stand for, unless the month or the day is left out (`read?_slashed_short`).
-/

set_option autoImplicit false

namespace RecordCoercion

namespace CivilField

/-- The letter of the specifier of a field. -/
def letter : CivilField → Char
  | year => 'Y'
  | yearOfCentury => 'y'
  | month => 'm'
  | day => 'd'
  | hour => 'H'
  | minute => 'M'
  | second => 'S'

/-- The most digits that a field has without a sign. -/
def places : CivilField → Nat
  | year => 4
  | _ => 2

/-- Digits that are a numeral for a field. -/
structure IsNumeral (f : CivilField) (digits : List Char) : Prop where
  ne_nil : digits ≠ []
  isDigit : ∀ c ∈ digits, c.isDigit = true
  length_le : digits.length ≤ f.places

/-- Digits are a numeral for a field if there are some, and no more than its places. -/
theorem isNumeral_iff {f : CivilField} {digits : List Char} :
    f.IsNumeral digits ↔
      digits ≠ [] ∧ digits.all Char.isDigit = true ∧ digits.length ≤ f.places := by
  rw [List.all_eq_true]
  exact ⟨fun h => ⟨h.ne_nil, h.isDigit, h.length_le⟩, fun ⟨h₁, h₂, h₃⟩ => ⟨h₁, h₂, h₃⟩⟩

/-- Whether digits are a numeral for a field can be computed. -/
instance (f : CivilField) (digits : List Char) : Decidable (f.IsNumeral digits) :=
  decidable_of_iff _ isNumeral_iff.symm

/-- The field of a pattern that gives the year by its last two digits. -/
def shortened : CivilField → CivilField
  | year => yearOfCentury
  | f => f

end CivilField

/-- The specifiers of some fields with slashes between them. -/
def slashedPattern (fields : List CivilField) : List Char :=
  ['/'].intercalate (fields.map fun f => ['%', f.letter])

/-- The items of a slashed pattern. -/
def slashedItems (fields : List CivilField) : List Item :=
  [Item.literal '/'].intercalate (fields.map fun f => [.number f.number .zeros])

/-- The numerals of some fields with slashes between them. -/
def slashedText (fields : List CivilField) (digits : CivilField → List Char) : List Char :=
  ['/'].intercalate (fields.map digits)

section Slashes

variable (f g : CivilField) (rest : List CivilField)

/-- A slash stands between specifiers. -/
theorem slashedPattern_cons_cons :
    slashedPattern (f :: g :: rest) = '%' :: f.letter :: '/' :: slashedPattern (g :: rest) := rfl

/-- A slash stands between the items of specifiers. -/
theorem slashedItems_cons_cons :
    slashedItems (f :: g :: rest) =
      .number f.number .zeros :: .literal '/' :: slashedItems (g :: rest) := rfl

/-- A slash stands between numerals. -/
theorem slashedText_cons_cons (digits : CivilField → List Char) :
    slashedText (f :: g :: rest) digits = digits f ++ '/' :: slashedText (g :: rest) digits := rfl

end Slashes

/-- The specifier of a field is read as the number of this field. -/
theorem patternItems?_specifier (f : CivilField) (rest : List Char) :
    patternItems? ('%' :: f.letter :: rest) =
      (patternItems? rest).map (.number f.number .zeros :: ·) := by
  cases f <;> rfl

/-- A slashed pattern is read as its items. -/
theorem patternItems?_slashedPattern (fields : List CivilField) :
    patternItems? (slashedPattern fields) = some (slashedItems fields) := by
  induction fields with
  | nil => rfl
  | cons f rest ih =>
    cases rest with
    | nil => cases f <;> rfl
    | cons g rest =>
      have hseparator : patternItems? ('/' :: slashedPattern (g :: rest)) =
          some (.literal '/' :: slashedItems (g :: rest)) := by
        show (patternItems? (slashedPattern (g :: rest))).map (.literal '/' :: ·) = _
        rw [ih, Option.map_some]
      rw [slashedPattern_cons_cons, slashedItems_cons_cons, patternItems?_specifier, hseparator,
        Option.map_some]

/-- The items of a slashed pattern ask for its fields. -/
theorem civilFields_slashedItems (fields : List CivilField) :
    civilFields (slashedItems fields) = fields := by
  induction fields with
  | nil => rfl
  | cons f rest ih =>
    have hfirst : Item.civilField? (.number f.number .zeros) = some f := f.civilField?_number
    cases rest with
    | nil => exact List.filterMap_cons_some hfirst
    | cons g rest =>
      rw [slashedItems_cons_cons, civilFields, List.filterMap_cons_some hfirst,
        List.filterMap_cons_none rfl]
      exact congrArg (f :: ·) ih

/-- A slashed pattern asks for no offset. -/
theorem offsetAfter_slashedItems (known : Option Int) (offset : Int) (fields : List CivilField) :
    offsetAfter known offset (slashedItems fields) = known := by
  have hnone : (slashedItems fields).any Item.isOffset = false := by
    induction fields with
    | nil => rfl
    | cons f rest ih =>
      cases rest with
      | nil => rfl
      | cons g rest => exact ih
  rw [offsetAfter, hnone]
  rfl

/-! ## Texts -/

/-- A numeral in front of something else is the text of its number. -/
theorem CivilField.IsNumeral.numberText {f : CivilField} {digits rest : List Char}
    (h : f.IsNumeral digits) (hrest : ∀ c ∈ rest.head?, c.isDigit = false) :
    NumberText f.number (digits ++ rest) (numeralValue digits) rest := by
  have hwidth : f.number.width = some f.places := by cases f <;> rfl
  have hlongest : LongestDigits f.number.width digits rest := by
    refine ⟨h.isDigit, ?_, .inr hrest⟩
    rw [hwidth]
    rintro w ⟨⟩
    exact h.length_le
  have hblanks : ∀ c ∈ ([] : List Char), isBlank c = true := by simp
  exact .unsigned hblanks h.ne_nil hlongest

/-- Numerals with slashes between them are what a slashed pattern asks for. -/
theorem matches_slashed {t : CivilTime} {offset : Int} {fields : List CivilField}
    {digits : CivilField → List Char} (hnumeral : ∀ f ∈ fields, f.IsNumeral (digits f))
    (hvalue : ∀ f ∈ fields, t.value f = numeralValue (digits f)) :
    Matches t offset (slashedItems fields) (slashedText fields digits) := by
  induction fields with
  | nil => exact .done
  | cons f rest ih =>
    obtain ⟨hf, hrest⟩ := List.forall_mem_cons.mp hnumeral
    obtain ⟨hvaluef, hvaluerest⟩ := List.forall_mem_cons.mp hvalue
    have hnumber : ∀ after : List Char, (∀ c ∈ after.head?, c.isDigit = false) →
        NumberText f.number (digits f ++ after) (t.value f) after := by
      intro after hafter
      rw [hvaluef]
      exact hf.numberText hafter
    cases rest with
    | nil =>
      have hlast : NumberText f.number (slashedText [f] digits) (t.value f) [] := by
        have htext : slashedText [f] digits = digits f ++ [] := rfl
        rw [htext]
        exact hnumber [] (by simp)
      exact .number hlast .done
    | cons g rest =>
      rw [slashedItems_cons_cons, slashedText_cons_cons]
      refine .number (hnumber _ ?_) (.literal (ih hrest hvaluerest))
      rintro c ⟨⟩
      decide

/-- The number of a numeral has no more digits than its field has places. -/
theorem CivilField.IsNumeral.lt {f : CivilField} {digits : List Char} (h : f.IsNumeral digits) :
    numeralValue digits < 10 ^ f.places :=
  Nat.lt_of_lt_of_le (numeralValue_lt h.isDigit) (Nat.pow_le_pow_right (by decide) h.length_le)

/-- The time with the numbers of some numerals, and with those of the start of 1970 for the fields
that have no numeral. -/
def writtenTime (fields : List CivilField) (digits : CivilField → List Char) : CivilTime where
  year := if .year ∈ fields then numeralValue (digits .year) else 1970
  month := if .month ∈ fields then numeralValue (digits .month) else 1
  day := if .day ∈ fields then numeralValue (digits .day) else 1
  hour := if .hour ∈ fields then numeralValue (digits .hour) else 0
  minute := if .minute ∈ fields then numeralValue (digits .minute) else 0
  second := if .second ∈ fields then numeralValue (digits .second) else 0

section WrittenTime

variable {fields : List CivilField} {digits : CivilField → List Char}

/-- The time has the numbers of the numerals. -/
theorem value_writtenTime {f : CivilField} (hf : f ∈ fields) (hshort : f ≠ .yearOfCentury) :
    (writtenTime fields digits).value f = numeralValue (digits f) := by
  cases f
  case yearOfCentury => exact absurd rfl hshort
  all_goals simp [CivilTime.value, writtenTime, hf]

/-- What has no numeral of the date is as at the start of 1970. -/
theorem hasDefaultDate_writtenTime : (writtenTime fields digits).HasDefaultDate fields :=
  ⟨fun h => if_neg h, fun h => if_neg h, fun h => if_neg h⟩

/-- What has no numeral of the time of day is as at midnight. -/
theorem hasDefaultClock_writtenTime : (writtenTime fields digits).HasDefaultClock fields :=
  ⟨fun h => if_neg h, fun h => if_neg h, fun h => if_neg h⟩

/-- A year of at most four digits is on the calendar. -/
theorem onCalendar_writtenTime (hnumeral : ∀ f ∈ fields, f.IsNumeral (digits f)) :
    (writtenTime fields digits).OnCalendar := by
  unfold CivilTime.OnCalendar firstYear lastYear writtenTime
  dsimp only
  split
  · next hyear =>
    have hlt : numeralValue (digits .year) < 10000 := (hnumeral _ hyear).lt
    omega
  · decide

end WrittenTime

/-! ## Years in two digits -/

/-- The numerals with the last two digits of the year beside it. -/
def shortenedDigits (digits : CivilField → List Char) : CivilField → List Char
  | .yearOfCentury => (digits .year).drop 2
  | f => digits f

section Shortened

variable {fields : List CivilField} {digits : CivilField → List Char}

/-- Other fields than the year stay where they are. -/
theorem mem_map_shortened_iff {f : CivilField} (hyear : f ≠ .year) (hshort : f ≠ .yearOfCentury) :
    f ∈ fields.map CivilField.shortened ↔ f ∈ fields := by
  rw [List.mem_map]
  constructor
  · rintro ⟨g, hg, rfl⟩
    cases g <;> first | exact hg | exact absurd rfl hshort
  · intro hf
    refine ⟨f, hf, ?_⟩
    cases f <;> first | rfl | exact absurd rfl hyear

/-- No year in full is left. -/
theorem year_notMem_map_shortened : .year ∉ fields.map CivilField.shortened := by
  rw [List.mem_map]
  rintro ⟨g, -, hg⟩
  cases g <;> cases hg

/-- A year from 1000 on has four digits, of which two are the last ones. -/
theorem length_drop_year {year : List Char} (h : CivilField.year.IsNumeral year)
    (hfrom : 1000 ≤ numeralValue year) : (year.drop 2).length = 2 := by
  have hle : year.length ≤ 4 := h.length_le
  have hge : 4 ≤ year.length := by
    refine Nat.le_of_not_lt fun hlt => ?_
    have hvalue := numeralValue_lt h.isDigit
    have hpower : 10 ^ year.length ≤ 10 ^ 3 := Nat.pow_le_pow_right (by decide) (by omega)
    omega
  rw [List.length_drop]
  omega

/-- The shortened numeral is one for the shortened field. -/
theorem isNumeral_shortened {f : CivilField} (h : f.IsNumeral (digits f))
    (hshort : f ≠ .yearOfCentury) (hyear : f = .year → 1000 ≤ numeralValue (digits .year)) :
    f.shortened.IsNumeral (shortenedDigits digits f.shortened) := by
  cases f
  case yearOfCentury => exact absurd rfl hshort
  case year =>
    have hdrop := length_drop_year h (hyear rfl)
    have hpos : 0 < ((digits .year).drop 2).length := by omega
    exact ⟨List.ne_nil_of_length_pos hpos, fun c hc => h.isDigit c (List.mem_of_mem_drop hc),
      Nat.le_of_eq hdrop⟩
  all_goals exact h

/-- The time has the number of the shortened numeral too. -/
theorem value_shortened {f : CivilField} (hf : f ∈ fields) (h : f.IsNumeral (digits f))
    (hshort : f ≠ .yearOfCentury) (hyear : f = .year → 1000 ≤ numeralValue (digits .year)) :
    (writtenTime fields digits).value f.shortened =
      numeralValue (shortenedDigits digits f.shortened) := by
  cases f
  case yearOfCentury => exact absurd rfl hshort
  case year =>
    have hlast := numeralValue_drop h.isDigit 2
    rw [length_drop_year h (hyear rfl)] at hlast
    show (writtenTime fields digits).year % 100 = (numeralValue ((digits .year).drop 2) : Int)
    simp only [writtenTime, hf, if_true, hlast]
    omega
  all_goals exact value_writtenTime hf hshort

/-- What has no shortened numeral of the time of day is as at midnight. -/
theorem hasDefaultClock_shortened :
    (writtenTime fields digits).HasDefaultClock (fields.map CivilField.shortened) := by
  obtain ⟨hhour, hminute, hsecond⟩ := @hasDefaultClock_writtenTime fields digits
  exact ⟨fun hunseen => hhour fun hseen => hunseen (List.mem_map_of_mem hseen),
    fun hunseen => hminute fun hseen => hunseen (List.mem_map_of_mem hseen),
    fun hunseen => hsecond fun hseen => hunseen (List.mem_map_of_mem hseen)⟩

/-- What has no shortened numeral of the date is as at the start of 1970, if the year is that. -/
theorem hasDefaultDate_shortened (hyear : (writtenTime fields digits).year = 1970) :
    (writtenTime fields digits).HasDefaultDate (fields.map CivilField.shortened) := by
  obtain ⟨-, hmonth, hday⟩ := @hasDefaultDate_writtenTime fields digits
  exact ⟨fun _ => hyear, fun hunseen => hmonth fun hseen => hunseen (List.mem_map_of_mem hseen),
    fun hunseen => hday fun hseen => hunseen (List.mem_map_of_mem hseen)⟩

/-- A date is known from a year in two digits if a month and a day are. -/
theorem knowsDate_shortened_iff (hyear : .year ∈ fields) :
    KnowsDate (fields.map CivilField.shortened) ↔ .month ∈ fields ∧ .day ∈ fields := by
  have hshort : KnowsYear (fields.map CivilField.shortened) :=
    .inr (List.mem_map.mpr ⟨.year, hyear, rfl⟩)
  simp only [KnowsDate, hshort, true_and]
  rw [mem_map_shortened_iff (by decide) (by decide), mem_map_shortened_iff (by decide) (by decide)]

end Shortened

namespace TemporalFormat

/-- The format with a slashed pattern. -/
def slashed (fields : List CivilField) : TemporalFormat where
  pattern := String.ofList (slashedPattern fields)
  isSome_patternItems := by
    rw [String.toList_ofList, patternItems?_slashedPattern]
    rfl

/-- The items of a slashed format. -/
theorem items_slashed (fields : List CivilField) : (slashed fields).items = slashedItems fields := by
  have hitems : patternItems? (slashed fields).pattern.toList = some (slashedItems fields) := by
    rw [slashed, String.toList_ofList, patternItems?_slashedPattern]
  simp only [items, hitems, Option.get_some]

variable {fields : List CivilField} {digits : CivilField → List Char}

/-- The numerals are a text of the time that they are written for. -/
theorem matches_writtenTime (hshort : .yearOfCentury ∉ fields)
    (hnumeral : ∀ f ∈ fields, f.IsNumeral (digits f)) :
    Matches (writtenTime fields digits) 0 (slashed fields).items (slashedText fields digits) := by
  rw [items_slashed]
  refine matches_slashed hnumeral fun f hf => value_writtenTime hf ?_
  rintro rfl
  exact hshort hf

/-- A text in a slashed pattern is read as the time that has its numbers and, for the fields that the
pattern leaves out, those of the start of 1970, and refused if there is no such time. -/
theorem read?_slashed (hshort : .yearOfCentury ∉ fields)
    (hnumeral : ∀ f ∈ fields, f.IsNumeral (digits f)) :
    ((slashed fields).read? (slashedText fields digits)).map (·.epochMillis.toInt) =
      if (writtenTime fields digits).Exists then some (writtenTime fields digits).epochMillis
      else none := by
  have hread := read?_of_matches (matches_writtenTime hshort hnumeral)
  rw [items_slashed, civilFields_slashedItems, offsetAfter_slashedItems] at hread
  rw [hread (fun h => absurd h hshort) (.inr hasDefaultDate_writtenTime)
    hasDefaultClock_writtenTime]
  simp only [onCalendar_writtenTime hnumeral, and_true, Option.elim_none, Int.zero_mul, Int.sub_zero]

/-- A month, a year and an hour are read as that hour of the first day of the month. -/
theorem read?_month_year_hour :
    ((slashed [.month, .year, .hour]).read? "02/2020/7".toList).map (·.epochMillis.toInt) =
      some 1580540400000 := by
  let digits : CivilField → List Char
    | .month => ['0', '2']
    | .year => ['2', '0', '2', '0']
    | _ => ['7']
  have htext : slashedText [.month, .year, .hour] digits = "02/2020/7".toList := by decide
  have hexists : (writtenTime [.month, .year, .hour] digits).Exists := by decide
  have hmillis : (writtenTime [.month, .year, .hour] digits).epochMillis = 1580540400000 := by
    decide
  rw [← htext, @read?_slashed [.month, .year, .hour] digits (by decide) (by decide),
    if_pos hexists, hmillis]

/-- The shortened numerals are a text of the same time. -/
theorem matches_shortened (hshort : .yearOfCentury ∉ fields)
    (hnumeral : ∀ f ∈ fields, f.IsNumeral (digits f)) (hfrom : 1000 ≤ numeralValue (digits .year)) :
    Matches (writtenTime fields digits) 0 (slashed (fields.map CivilField.shortened)).items
      (slashedText (fields.map CivilField.shortened) (shortenedDigits digits)) := by
  have hne : ∀ f ∈ fields, f ≠ .yearOfCentury := by
    rintro f hf rfl
    exact hshort hf
  rw [items_slashed]
  apply matches_slashed <;> intro f hf <;> obtain ⟨g, hg, rfl⟩ := List.mem_map.mp hf
  · exact isNumeral_shortened (hnumeral g hg) (hne g hg) fun _ => hfrom
  · exact value_shortened hg (hnumeral g hg) (hne g hg) fun _ => hfrom

/-- The last two digits stand for a year from 1970 to 2069. -/
theorem centuryFits_writtenTime (hyear : .year ∈ fields)
    (hfrom : 1970 ≤ numeralValue (digits .year)) (huntil : numeralValue (digits .year) ≤ 2069)
    (seen : List CivilField) : (writtenTime fields digits).CenturyFits seen := by
  have htime : (writtenTime fields digits).year = numeralValue (digits .year) := if_pos hyear
  intro _
  omega

/-- Without a month or a day, two digits of a year after 1970 are refused. -/
theorem readMillis?_shortened_eq_none (hyear : .year ∈ fields) (hshort : .yearOfCentury ∉ fields)
    (hnumeral : ∀ f ∈ fields, f.IsNumeral (digits f)) (hfrom : 1970 < numeralValue (digits .year))
    (huntil : numeralValue (digits .year) ≤ 2069) (hundated : ¬ (.month ∈ fields ∧ .day ∈ fields)) :
    (slashed (fields.map CivilField.shortened)).readMillis?
      (slashedText (fields.map CivilField.shortened) (shortenedDigits digits)) = none := by
  have htime : (writtenTime fields digits).year = numeralValue (digits .year) := if_pos hyear
  have hfits := centuryFits_writtenTime hyear (by omega) huntil (fields.map CivilField.shortened)
  have hunknown : ¬ KnowsDate (fields.map CivilField.shortened) := by
    rw [knowsDate_shortened_iff hyear]
    exact hundated
  have hgiven : .yearOfCentury ∈ fields.map CivilField.shortened :=
    List.mem_map.mpr ⟨.year, hyear, rfl⟩
  have hscan := scanText?_of_matches (matches_shortened hshort hnumeral (by omega))
  rw [items_slashed, civilFields_slashedItems, offsetAfter_slashedItems] at hscan
  rw [readMillis?, items_slashed, hscan]
  by_cases hrange : ∀ f ∈ fields.map CivilField.shortened, (writtenTime fields digits).InRange f
  · have hhour := (hasDefaultClock_shortened.clock_le hrange).1
    rw [if_pos hrange, Option.bind_some]
    exact CivilTime.epochMillis?_stated_short hfits year_notMem_map_shortened hgiven hunknown
      (by omega) hasDefaultClock_shortened hhour
  · rw [if_neg hrange, Option.bind_none]

/-- A year from 1970 to 2069 may be given by its last two digits, if the month and the day are given
or the year is 1970. With another year a text without them is refused: 1970 is then taken for the
year, against the digits. -/
theorem read?_slashed_short (hyear : .year ∈ fields) (hshort : .yearOfCentury ∉ fields)
    (hnumeral : ∀ f ∈ fields, f.IsNumeral (digits f)) (hfrom : 1970 ≤ numeralValue (digits .year))
    (huntil : numeralValue (digits .year) ≤ 2069) :
    (slashed (fields.map CivilField.shortened)).read?
        (slashedText (fields.map CivilField.shortened) (shortenedDigits digits)) =
      if (.month ∈ fields ∧ .day ∈ fields) ∨ numeralValue (digits .year) = 1970 then
        (slashed fields).read? (slashedText fields digits)
      else none := by
  by_cases hdated : (.month ∈ fields ∧ .day ∈ fields) ∨ numeralValue (digits .year) = 1970
  · have htime : (writtenTime fields digits).year = numeralValue (digits .year) := if_pos hyear
    have hdate : KnowsDate (fields.map CivilField.shortened) ∨
        (writtenTime fields digits).HasDefaultDate (fields.map CivilField.shortened) := by
      rcases hdated with hknown | h1970
      · exact .inl ((knowsDate_shortened_iff hyear).mpr hknown)
      · exact .inr (hasDefaultDate_shortened (by omega))
    have hreadFull := readMillis?_of_matches (matches_writtenTime hshort hnumeral)
    have hread := readMillis?_of_matches (matches_shortened hshort hnumeral (by omega))
    rw [items_slashed, civilFields_slashedItems, offsetAfter_slashedItems] at hread hreadFull
    rw [if_pos hdated, read?, read?,
      hread (centuryFits_writtenTime hyear hfrom huntil _) hdate hasDefaultClock_shortened,
      hreadFull (fun h => absurd h hshort) (.inr hasDefaultDate_writtenTime)
        hasDefaultClock_writtenTime]
  · obtain ⟨hundated, hne⟩ := not_or.mp hdated
    rw [if_neg hdated, read?,
      readMillis?_shortened_eq_none hyear hshort hnumeral (by omega) huntil hundated,
      Option.map_none]

/-- A day of the year 2024 may be written with two digits of the year. -/
theorem read?_leap_day_short :
    (slashed [.day, .month, .yearOfCentury]).read? "29/2/24".toList =
      (slashed [.day, .month, .year]).read? "29/2/2024".toList := by
  let digits : CivilField → List Char
    | .day => ['2', '9']
    | .month => ['2']
    | _ => ['2', '0', '2', '4']
  have hfull : slashedText [.day, .month, .year] digits = "29/2/2024".toList := by decide
  have hshort : slashedText [.day, .month, .yearOfCentury] (shortenedDigits digits) =
      "29/2/24".toList := by decide
  have hread := @read?_slashed_short [.day, .month, .year] digits (by decide) (by decide)
    (by decide) (by decide) (by decide)
  rw [if_pos (.inl (by decide)), hfull] at hread
  rw [← hshort]
  exact hread

/-- A month of the year 2020 may not. -/
theorem read?_month_short_eq_none :
    (slashed [.month, .yearOfCentury]).read? "05/20".toList = none ∧
      (slashed [.month, .year]).read? "05/2020".toList = some ⟨1588291200000⟩ := by
  decide

end TemporalFormat

end RecordCoercion
