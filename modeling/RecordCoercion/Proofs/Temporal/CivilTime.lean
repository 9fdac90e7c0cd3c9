import RecordCoercion.Proofs.Calendar.DayNumber
import RecordCoercion.Proofs.Temporal.WrittenForms

/-!
# Dates and times of day in a text

A `CivilTime` is a date and a time of day as people write them, which need not exist. `Matches` says
that a text is what a list of items asks for, with the numbers of such a time and an offset, and
`CivilTime.stated` are the fields after some of these numbers were read. Reading a matching text
states its numbers one after the other, and stops at the first that is out of its range
(`scanItems?_of_matches`).
-/

set_option autoImplicit false

namespace RecordCoercion

/-- The numbers that tell a date and a time of day, and the last two digits of the year. -/
inductive CivilField
  | year
  | yearOfCentury
  | month
  | day
  | hour
  | minute
  | second
  deriving DecidableEq

/-- The number of a pattern that stands for a field. -/
def CivilField.number : CivilField → NumericField
  | year => .year
  | yearOfCentury => .yearOfCentury
  | month => .month
  | day => .day
  | hour => .hour
  | minute => .minute
  | second => .second

/-- A date and a time of day. The second may be 60, a leap second. -/
structure CivilTime where
  year : Int
  month : Nat
  day : Nat
  hour : Nat
  minute : Nat
  second : Nat
  deriving DecidableEq

namespace CivilTime

/-- The number of a field. -/
def value (t : CivilTime) : CivilField → Int
  | .year => t.year
  | .yearOfCentury => t.year % 100
  | .month => t.month
  | .day => t.day
  | .hour => t.hour
  | .minute => t.minute
  | .second => t.second

/-- The date. -/
def date (t : CivilTime) : Calendar.Date := ⟨t.year, t.month, t.day⟩

/-- There is such a date and such a time of day. -/
def Exists (t : CivilTime) : Prop :=
  t.date.Exists ∧ t.hour ≤ 23 ∧ t.minute ≤ 59 ∧ t.second ≤ 60

/-- Whether there is such a time can be computed. -/
instance (t : CivilTime) : Decidable t.Exists := by
  unfold Exists
  infer_instance

/-- The year is one of the calendar. -/
def OnCalendar (t : CivilTime) : Prop := firstYear ≤ t.year ∧ t.year ≤ lastYear

/-- Whether a time is on the calendar can be computed. -/
instance (t : CivilTime) : Decidable t.OnCalendar := by
  unfold OnCalendar
  infer_instance

/-- The milliseconds from the start of 1970, the time being read in UTC. -/
def epochMillis (t : CivilTime) : Int :=
  86400000 * t.date.dayNumber + 3600000 * t.hour + 60000 * t.minute + 1000 * t.second

/-- The number of a field is one that a text may give for it. -/
def InRange (t : CivilTime) (f : CivilField) : Prop := f.number.range.contains (t.value f) = true

/-- Whether a number is in the range of its field can be computed. -/
instance (t : CivilTime) (f : CivilField) : Decidable (t.InRange f) := by
  unfold InRange
  infer_instance

/-- The fields after some numbers of a time and perhaps an offset were read. -/
def stated (t : CivilTime) (seen : List CivilField) (offset : Option Int) : TemporalFields :=
  { TemporalFields.empty with
    year := if .year ∈ seen then some t.year else none
    yearOfCentury := if .yearOfCentury ∈ seen then some (t.year % 100).toNat else none
    month := if .month ∈ seen then some t.month else none
    day := if .day ∈ seen then some t.day else none
    afternoon := if .hour ∈ seen then some (decide (12 ≤ t.hour)) else none
    hourOfHalf := if .hour ∈ seen then some (t.hour % 12) else none
    minute := if .minute ∈ seen then some t.minute else none
    second := if .second ∈ seen then some t.second else none
    offset }

/-- Before anything is read nothing is stated. -/
theorem stated_nil (t : CivilTime) : t.stated [] none = .empty := by
  simp [stated, TemporalFields.empty]

/-- A number of a time that exists on the calendar is in its range. -/
theorem Exists.inRange {t : CivilTime} (h : t.Exists) (hcalendar : t.OnCalendar) (f : CivilField) :
    t.InRange f := by
  obtain ⟨⟨hmonth, hmonth', hday, hday'⟩, hhour, hminute, hsecond⟩ := h
  have hlength := Calendar.monthLength_le t.year t.month
  simp only [OnCalendar, firstYear, lastYear] at hcalendar
  simp only [date] at hmonth hmonth' hday hday'
  cases f <;>
    simp only [InRange, IntRange.contains_iff, CivilField.number, NumericField.range, value,
      IntRange.bits32] <;> omega

end CivilTime

/-! ## Reading numbers of a time -/

section Known

variable {α : Type} {p : Prop} [Decidable p] {a b : α}

/-- What is known is the number itself. -/
theorem eq_of_mem_known (h : b ∈ (if p then some a else none)) : a = b := by
  split at h
  · exact Option.some.inj h
  · cases h

/-- What is known passes a test exactly if the number passes it where it is known. -/
theorem all_known_iff {test : α → Bool} :
    (if p then some a else none).all test = true ↔ (p → test a = true) := by
  split <;> simp [*]

/-- A default does not count beside what is known, and is the same as what is not. -/
theorem known_or (h : ¬ p → a = b) : (if p then some a else none).or (some b) = some a := by
  split <;> simp_all

/-- A value that is already known settles again. -/
theorem settle?_known [DecidableEq α] : settle? (if p then some a else none) a = some (some a) := by
  split <;> simp [settle?]

end Known

/-- A number of a time is stated in addition to those before it, unless it is out of its range. -/
theorem CivilTime.set?_stated (t : CivilTime) (seen : List CivilField) (offset : Option Int)
    (f : CivilField) :
    (t.stated seen offset).set? f.number (t.value f) =
      if t.InRange f then some (t.stated (seen ++ [f]) offset) else none := by
  rw [TemporalFields.set?.eq_def]
  by_cases hrange : t.InRange f
  · rw [if_pos hrange, if_neg (by simpa [InRange] using hrange)]
    cases f
    case hour =>
      have hhalf : decide (12 ≤ t.value .hour) = decide (12 ≤ t.hour) := by
        apply decide_eq_decide.mpr
        show (12 : Int) ≤ t.hour ↔ 12 ≤ t.hour
        omega
      simp only [CivilField.number, hhalf]
      simp [CivilTime.value, TemporalFields.setAfternoon?, TemporalFields.setHourOfHalf?, stated,
        settle?_known]
    all_goals simp [CivilField.number, CivilTime.value, stated, settle?_known]
  · rw [if_neg hrange, if_pos (by simpa [InRange] using hrange)]

/-- A text is what a list of items asks for, with the numbers of a time and an offset in seconds:
literals stand as they are, a blank for any run of blanks, and numbers and offsets in their written
forms. -/
inductive Matches (t : CivilTime) (offset : Int) : List Item → List Char → Prop
  | done : Matches t offset [] []
  | literal {c : Char} {items : List Item} {rest : List Char} (h : Matches t offset items rest) :
      Matches t offset (.literal c :: items) (c :: rest)
  | blank {c : Char} {items : List Item} {blanks rest : List Char}
      (hblanks : ∀ b ∈ blanks, isBlank b = true) (hrest : ∀ b ∈ rest.head?, isBlank b = false)
      (h : Matches t offset items rest) : Matches t offset (.blank c :: items) (blanks ++ rest)
  | number {f : CivilField} {padding : Padding} {items : List Item} {text rest : List Char}
      (hnumber : NumberText f.number text (t.value f) rest) (h : Matches t offset items rest) :
      Matches t offset (.number f.number padding :: items) text
  | offset {style : OffsetStyle} {items : List Item} {text rest : List Char}
      (hstyle : style ≠ .permissive) (hoffset : OffsetText text offset rest)
      (h : Matches t offset items rest) : Matches t offset (.offset style :: items) text

/-- The field that a number of a pattern stands for, if it is one of a date or a time of day. -/
def NumericField.civilField? : NumericField → Option CivilField
  | year => some .year
  | yearOfCentury => some .yearOfCentury
  | month => some .month
  | day => some .day
  | hour => some .hour
  | minute => some .minute
  | second => some .second
  | _ => none

/-- The number of a field gives this field. -/
@[simp] theorem CivilField.civilField?_number (f : CivilField) : f.number.civilField? = some f := by
  cases f <;> rfl

namespace Item

/-- The field of a date or a time of day that an item gives. -/
def civilField? : Item → Option CivilField
  | number field _ => field.civilField?
  | _ => none

/-- Whether an item gives an offset. -/
def isOffset : Item → Bool
  | offset _ => true
  | _ => false

end Item

/-- The fields that a list of items gives, in their order. -/
def civilFields (items : List Item) : List CivilField := items.filterMap Item.civilField?

/-- The offset that is known after a list of items was read. -/
def offsetAfter (known : Option Int) (offset : Int) (items : List Item) : Option Int :=
  if items.any Item.isOffset then some offset else known

/-- What a list of items reads of a matching text: all its numbers, unless one is out of its range. -/
theorem scanItems?_of_matches {t : CivilTime} {offset : Int} {items : List Item} {text : List Char}
    (h : Matches t offset items text) (seen : List CivilField) (known : Option Int)
    (hknown : known = none ∨ known = some offset) :
    scanItems? items (t.stated seen known) text =
      if ∀ f ∈ civilFields items, t.InRange f then
        some (t.stated (seen ++ civilFields items) (offsetAfter known offset items), [])
      else none := by
  induction h generalizing seen known with
  | done => simp [scanItems?, civilFields, offsetAfter]
  | @literal c items rest _ ih =>
    simp only [scanItems?, Item.scan?, scanChar?, if_true]
    exact ih seen known hknown
  | @blank c items blanks rest hblanks hrest _ ih =>
    simp only [scanItems?, Item.scan?, trimStart_append hblanks hrest]
    exact ih seen known hknown
  | @number f padding items text rest hnumber _ ih =>
    have hfields : civilFields (.number f.number padding :: items) = f :: civilFields items := by
      simp [civilFields, Item.civilField?]
    simp only [scanItems?, Item.scan?, NumericField.scan?,
      NumericField.scanValue?_of_numberText hnumber, CivilTime.set?_stated, hfields,
      List.forall_mem_cons]
    by_cases hrange : t.InRange f
    · simp only [hrange, if_true, Option.map_some, true_and]
      rw [ih (seen ++ [f]) known hknown]
      simp only [List.append_assoc, List.singleton_append]
      rfl
    · simp [hrange]
  | @offset style items text rest hstyle hoffset _ ih =>
    have hscan : Item.scan? (t.stated seen known) text (.offset style) =
        some (t.stated seen (some offset), rest) := by
      have hread := scanOffset?_eq_some_iff.mpr hoffset
      have hset : settle? known offset = some (some offset) := by
        rw [settle?_some_iff]
        exact ⟨hknown, rfl⟩
      cases style with
      | permissive => exact absurd rfl hstyle
      | _ =>
        simp only [Item.scan?, hread, TemporalFields.setOffset?, CivilTime.stated, hset]
        rfl
    have hfields : civilFields (.offset style :: items) = civilFields items := rfl
    have hoffsetAfter : offsetAfter known offset (.offset style :: items) = some offset := rfl
    simp only [scanItems?, hscan, hfields, hoffsetAfter]
    rw [ih seen (some offset) (.inr rfl)]
    simp [offsetAfter]

end RecordCoercion
