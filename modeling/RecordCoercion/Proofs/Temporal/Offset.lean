import RecordCoercion.Proofs.Temporal.Completion

/-!
# Reading a time with its offset

A format of offset times asks for the six numbers of a date and a time of day and for an offset, in
any order, more than once or among other characters. It reads the texts that match it and no others:
a reader that got to the end has not changed what it knew, so every part of the text agrees with the
fields it ends with (`Describes`, `matches_of_scanItems?`). The instant is the local time of the text
less its offset, if the offset is of less than a day (`read?_offset`).
-/

set_option autoImplicit false

namespace RecordCoercion

/-! ## Fields and the time they are of -/

/-- A time and an offset agree with all the fields that are known of them. -/
structure Describes (t : CivilTime) (offset : Int) (fields : TemporalFields) : Prop where
  year : ∀ y ∈ fields.year, t.year = y
  month : ∀ n ∈ fields.month, t.month = n
  day : ∀ n ∈ fields.day, t.day = n
  hour : ∀ afternoon ∈ fields.afternoon, ∀ n ∈ fields.hourOfHalf,
    t.hour = n + if afternoon then 12 else 0
  minute : ∀ n ∈ fields.minute, t.minute = n
  second : ∀ n ∈ fields.second, t.second = n
  offset : ∀ s ∈ fields.offset, offset = s

/-- The time that fields tell. -/
def TemporalFields.civilTime (fields : TemporalFields) : CivilTime where
  year := fields.year.getD 0
  month := fields.month.getD 0
  day := fields.day.getD 0
  hour := fields.hourOfHalf.getD 0 + if fields.afternoon.getD false then 12 else 0
  minute := fields.minute.getD 0
  second := fields.second.getD 0

/-- The time that fields make up describes them. -/
theorem describes_civilTime (fields : TemporalFields) :
    Describes fields.civilTime (fields.offset.getD 0) fields := by
  have hgetD : ∀ {α : Type} {known : Option α} {a : α} (b : α), a ∈ known → known.getD b = a := by
    rintro α known a b rfl
    rfl
  constructor
  case hour =>
    intro afternoon hafternoon n hn
    simp only [TemporalFields.civilTime, hgetD _ hafternoon, hgetD _ hn]
  all_goals exact fun _ => hgetD _

/-- A time describes what it states, if its hour is one of the day. -/
theorem describes_stated {t : CivilTime} (hhour : t.hour ≤ 23) (seen : List CivilField)
    (offset : Int) : Describes t offset (t.stated seen (some offset)) := by
  constructor
  case hour =>
    intro afternoon hafternoon n hn
    rw [← eq_of_mem_known hafternoon, ← eq_of_mem_known hn]
    simp only [decide_eq_true_eq]
    split <;> omega
  case offset =>
    rintro s ⟨⟩
    rfl
  all_goals exact fun _ => eq_of_mem_known

/-- What a field settles on is the value, which differs from nothing known. -/
theorem eq_of_settle? {α : Type} [DecidableEq α] {known result : Option α} {value : α}
    (h : settle? known value = some result) : result = some value ∧ ∀ a ∈ known, value = a := by
  obtain ⟨hknown, hresult⟩ := (settle?_some_iff known value result).mp h
  refine ⟨hresult, fun a ha => ?_⟩
  rcases hknown with hnone | hsome
  · rw [hnone] at ha
    cases ha
  · rw [hsome] at ha
    exact Option.some.inj ha

/-- What agrees with a field after a value was read for it is this value, and agreed with it before. -/
theorem agrees_of_settle? {α : Type} [DecidableEq α] {known result : Option α} {value a : α}
    (hsettle : settle? known value = some result) (h : ∀ b ∈ result, a = b) :
    (∀ b ∈ known, a = b) ∧ a = value := by
  obtain ⟨rfl, hknown⟩ := eq_of_settle? hsettle
  have hvalue : a = value := h value rfl
  exact ⟨fun b hb => hvalue.trans (hknown b hb), hvalue⟩

variable {t : CivilTime} {offset : Int} {fields after : TemporalFields}

/-- A time that agrees with the fields after a number was read has this number, and agreed before. -/
theorem Describes.of_set? {f : CivilField} {n : Int} (hf : f ≠ .yearOfCentury)
    (hset : fields.set? f.number n = some after) (h : Describes t offset after) :
    Describes t offset fields ∧ t.value f = n := by
  rw [TemporalFields.set?.eq_def] at hset
  split at hset
  · cases hset
  next hin =>
  have hrange : f.number.range.lo ≤ n ∧ n ≤ f.number.range.hi := by
    rw [← IntRange.contains_iff]
    simpa using hin
  -- only a year may be negative
  have hcast : f ≠ .year → (n.toNat : Int) = n := by
    intro hyear
    refine Int.toNat_of_nonneg (Int.le_trans ?_ hrange.1)
    cases f <;> first | exact absurd rfl hyear | decide
  cases f
  case yearOfCentury => exact absurd rfl hf
  case hour =>
    obtain ⟨halved, hhalf, hhour⟩ := Option.bind_eq_some_iff.mp hset
    obtain ⟨afternoon, hafternoon, rfl⟩ := Option.map_eq_some_iff.mp hhalf
    obtain ⟨hours, hhours, rfl⟩ := Option.map_eq_some_iff.mp hhour
    obtain ⟨rfl, hknown⟩ := eq_of_settle? hafternoon
    obtain ⟨rfl, hknown'⟩ := eq_of_settle? hhours
    have hvalue : t.hour = n.toNat % 12 + if decide (12 ≤ n) then 12 else 0 := h.hour _ rfl _ rfl
    refine ⟨{ h with hour := fun a ha k hk => ?_ }, ?_⟩
    · rw [← hknown a ha, ← hknown' k hk]
      exact hvalue
    · obtain ⟨hlo, hhi⟩ : (0 : Int) ≤ n ∧ n ≤ 23 := hrange
      simp only [decide_eq_true_eq] at hvalue
      show (t.hour : Int) = n
      split at hvalue <;> omega
  case year =>
    obtain ⟨known, hsettle, rfl⟩ := Option.map_eq_some_iff.mp hset
    obtain ⟨hknown, hvalue⟩ := agrees_of_settle? hsettle h.year
    exact ⟨{ h with year := hknown }, hvalue⟩
  case month =>
    obtain ⟨known, hsettle, rfl⟩ := Option.map_eq_some_iff.mp hset
    obtain ⟨hknown, hvalue⟩ := agrees_of_settle? hsettle h.month
    exact ⟨{ h with month := hknown }, (congrArg Nat.cast hvalue).trans (hcast (by decide))⟩
  case day =>
    obtain ⟨known, hsettle, rfl⟩ := Option.map_eq_some_iff.mp hset
    obtain ⟨hknown, hvalue⟩ := agrees_of_settle? hsettle h.day
    exact ⟨{ h with day := hknown }, (congrArg Nat.cast hvalue).trans (hcast (by decide))⟩
  case minute =>
    obtain ⟨known, hsettle, rfl⟩ := Option.map_eq_some_iff.mp hset
    obtain ⟨hknown, hvalue⟩ := agrees_of_settle? hsettle h.minute
    exact ⟨{ h with minute := hknown }, (congrArg Nat.cast hvalue).trans (hcast (by decide))⟩
  case second =>
    obtain ⟨known, hsettle, rfl⟩ := Option.map_eq_some_iff.mp hset
    obtain ⟨hknown, hvalue⟩ := agrees_of_settle? hsettle h.second
    exact ⟨{ h with second := hknown }, (congrArg Nat.cast hvalue).trans (hcast (by decide))⟩

/-- A time describes the fields before an offset is read if it does after it. -/
theorem Describes.of_setOffset? {seconds : Int} (hset : fields.setOffset? seconds = some after)
    (h : Describes t offset after) : Describes t offset fields ∧ offset = seconds := by
  obtain ⟨known, hsettle, rfl⟩ := Option.map_eq_some_iff.mp hset
  obtain ⟨hknown, hvalue⟩ := agrees_of_settle? hsettle h.offset
  exact ⟨{ h with offset := hknown }, hvalue⟩

/-! ## Texts that are read -/

/-- An item of formats for offset times. -/
def Item.isOfOffsetTime : Item → Bool
  | .literal _ => true
  | .blank _ => true
  | .number field _ => field.civilField?.any (· != .yearOfCentury)
  | .offset style => style != .permissive
  | _ => false

/-- A number in a format for offset times is a field, and not a year by its last two digits. -/
theorem Item.civilField_of_isOfOffsetTime {field : NumericField} {padding : Padding}
    (h : (number field padding).isOfOffsetTime = true) :
    ∃ f : CivilField, f ≠ .yearOfCentury ∧ f.number = field := by
  unfold isOfOffsetTime at h
  cases field
  case year => exact ⟨.year, by decide, rfl⟩
  case month => exact ⟨.month, by decide, rfl⟩
  case day => exact ⟨.day, by decide, rfl⟩
  case hour => exact ⟨.hour, by decide, rfl⟩
  case minute => exact ⟨.minute, by decide, rfl⟩
  case second => exact ⟨.second, by decide, rfl⟩
  all_goals cases h

/-- A text that is read to its end matches the items, with the numbers and the offset that the fields
have in the end. -/
theorem matches_of_scanItems? {items : List Item} {text : List Char}
    (hitems : ∀ item ∈ items, item.isOfOffsetTime = true)
    (hscan : scanItems? items fields text = some (after, [])) (h : Describes t offset after) :
    Describes t offset fields ∧ Matches t offset items text := by
  induction items generalizing fields text with
  | nil =>
    obtain ⟨rfl, rfl⟩ := Prod.mk.inj (Option.some.inj hscan)
    exact ⟨h, .done⟩
  | cons item items ih =>
    obtain ⟨hitem, hrest⟩ := List.forall_mem_cons.mp hitems
    unfold scanItems? at hscan
    split at hscan
    · cases hscan
    next between rest hfirst =>
    -- the rest of the text agrees with the fields in the end, and so do the fields before it
    obtain ⟨hbetween, hmatches⟩ := ih hrest hscan
    cases item
    case literal c =>
      simp only [Item.scan?] at hfirst
      cases text with
      | nil => cases hfirst
      | cons d text =>
        simp only [scanChar?] at hfirst
        split at hfirst
        · next heq =>
          obtain ⟨rfl, rfl⟩ := Prod.mk.inj (Option.some.inj hfirst)
          rw [heq]
          exact ⟨hbetween, .literal hmatches⟩
        · cases hfirst
    case blank c =>
      obtain ⟨rfl, rfl⟩ := Prod.mk.inj (Option.some.inj hfirst)
      obtain ⟨blanks, htext, hblanks⟩ := exists_blanks text
      rw [htext]
      exact ⟨hbetween, .blank hblanks (fun b hb => head?_dropWhile hb) hmatches⟩
    case number field padding =>
      obtain ⟨f, hshort, rfl⟩ := Item.civilField_of_isOfOffsetTime hitem
      simp only [Item.scan?, NumericField.scan?] at hfirst
      split at hfirst
      · cases hfirst
      next n rest' hvalue =>
      obtain ⟨known, hset, heq⟩ := Option.map_eq_some_iff.mp hfirst
      obtain ⟨rfl, rfl⟩ := Prod.mk.inj heq
      obtain ⟨hbefore, hn⟩ := hbetween.of_set? hshort hset
      rw [NumericField.scanValue?_eq_some_iff, ← hn] at hvalue
      exact ⟨hbefore, .number hvalue hmatches⟩
    case offset style =>
      have hstyle : style ≠ .permissive := by simpa [Item.isOfOffsetTime] using hitem
      have hscanned : ∃ seconds, OffsetText text seconds rest ∧
          fields.setOffset? seconds = some between := by
        simp only [Item.scan?] at hfirst
        split at hfirst
        · cases hfirst
        next seconds rest' hread =>
        obtain ⟨known, hset, heq⟩ := Option.map_eq_some_iff.mp hfirst
        obtain ⟨rfl, rfl⟩ := Prod.mk.inj heq
        refine ⟨seconds, scanOffset?_eq_some_iff.mp ?_, hset⟩
        cases style with
        | permissive => exact absurd rfl hstyle
        | _ => exact hread
      obtain ⟨seconds, htext, hset⟩ := hscanned
      obtain ⟨hbefore, rfl⟩ := hbetween.of_setOffset? hset
      exact ⟨hbefore, .offset hstyle htext hmatches⟩
    all_goals cases hitem

namespace TemporalFormat

/-- The format asks for a date, a time of day and an offset, and for nothing else. -/
structure IsOffsetTime (format : TemporalFormat) : Prop where
  items : ∀ item ∈ format.items, item.isOfOffsetTime = true
  complete : ∀ f, f ≠ .yearOfCentury → f ∈ civilFields format.items
  offset : format.items.any Item.isOffset = true

variable {format : TemporalFormat}

/-- A format for offset times asks for no year by its last two digits. -/
theorem IsOffsetTime.yearOfCentury_notMem (h : format.IsOffsetTime) :
    .yearOfCentury ∉ civilFields format.items := by
  intro hmem
  obtain ⟨item, hitem, hfield⟩ := List.mem_filterMap.mp hmem
  have hallowed := h.items item hitem
  cases item <;> try cases hfield
  case number field padding =>
    obtain ⟨f, hne, rfl⟩ := Item.civilField_of_isOfOffsetTime hallowed
    have heq : some f = some .yearOfCentury := f.civilField?_number.symm.trans hfield
    exact hne (Option.some.inj heq)

/-- A text that is read for the items of offset times is the text of the time and the offset that it
states. -/
theorem matches_of_scanText? {t : CivilTime} {offset : Int} {fields : TemporalFields}
    {text : List Char} (hitems : ∀ item ∈ format.items, item.isOfOffsetTime = true)
    (hscan : scanText? format.items text = some fields) (h : Describes t offset fields) :
    Matches t offset format.items text := by
  unfold scanText? at hscan
  split at hscan
  · next final hread =>
    cases hscan
    exact (matches_of_scanItems? hitems hread h).2
  · cases hscan

/-- A text that is read is the text of some time and offset. -/
theorem matches_of_readMillis? (hitems : ∀ item ∈ format.items, item.isOfOffsetTime = true)
    {text : List Char} {millis : Int} (h : format.readMillis? text = some millis) :
    ∃ t offset, Matches t offset format.items text := by
  obtain ⟨fields, hscan, -⟩ := Option.bind_eq_some_iff.mp h
  exact ⟨_, _, matches_of_scanText? hitems hscan (describes_civilTime fields)⟩

/-- A text that has a local time and an offset is read as that time less the offset, where an offset
of a day or more is taken for none. It is refused if there is no such time, and a text that is not of
the format is refused. -/
theorem read?_offset (h : format.IsOffsetTime) (text : List Char) :
    (∀ t offset, Matches t offset format.items text →
      (format.read? text).map (·.epochMillis.toInt) =
        if t.Exists ∧ t.OnCalendar then
          some (t.epochMillis - CivilTime.appliedOffset offset * 1000)
        else none) ∧
      ((∀ t offset, ¬ Matches t offset format.items text) → format.read? text = none) := by
  constructor
  · intro t offset hmatches
    have hfits : t.CenturyFits (civilFields format.items) :=
      fun hshort => absurd hshort h.yearOfCentury_notMem
    have hdate : KnowsDate (civilFields format.items) :=
      ⟨.inl (h.complete _ (by decide)), h.complete _ (by decide), h.complete _ (by decide)⟩
    have hclock : t.HasDefaultClock (civilFields format.items) :=
      ⟨fun hnot => absurd (h.complete _ (by decide)) hnot,
        fun hnot => absurd (h.complete _ (by decide)) hnot,
        fun hnot => absurd (h.complete _ (by decide)) hnot⟩
    have hoffset : offsetAfter none offset format.items = some offset := if_pos h.offset
    rw [read?_of_matches hmatches hfits (.inl hdate) hclock, hoffset, Option.elim_some]
  · intro hnone
    rw [read?]
    cases hread : format.readMillis? text with
    | none => rfl
    | some millis =>
      obtain ⟨t, offset, hmatches⟩ := matches_of_readMillis? h.items hread
      exact absurd hmatches (hnone t offset)

/-- The format of timestamps with an offset behind them. -/
def isoDateTimeOffset : TemporalFormat := ⟨"%Y-%m-%d %H:%M:%S %z", by decide⟩

/-- The standard pattern with an offset is one for offset times. -/
theorem isOffsetTime_isoDateTimeOffset : isoDateTimeOffset.IsOffsetTime := by
  refine ⟨by decide, fun f hf => ?_, by decide⟩
  cases f <;> first | exact absurd rfl hf | decide

/-- Two hours are taken off a text that is two hours ahead. -/
theorem read?_two_hours_ahead :
    (isoDateTimeOffset.read? "2020-01-01 02:00:00 +0200".toList).map (·.epochMillis.toInt) =
      some 1577836800000 := by
  have hscan : scanText? isoDateTimeOffset.items "2020-01-01 02:00:00 +0200".toList =
      some (CivilTime.stated ⟨2020, 1, 1, 2, 0, 0⟩
        [.year, .month, .day, .hour, .minute, .second] (some 7200)) := by decide
  have hmatches := matches_of_scanText? isOffsetTime_isoDateTimeOffset.items hscan
    (describes_stated (by decide) _ _)
  rw [(read?_offset isOffsetTime_isoDateTimeOffset _).1 _ _ hmatches]
  decide

/-- An offset of 99 hours is not taken off. -/
theorem read?_99_hours_ahead :
    Matches ⟨2020, 1, 1, 0, 0, 0⟩ (99 * 3600) isoDateTimeOffset.items
        "2020-01-01 00:00:00 +9900".toList ∧
      CivilTime.epochMillis ⟨2020, 1, 1, 0, 0, 0⟩ = 1577836800000 ∧
      isoDateTimeOffset.read? "2020-01-01 00:00:00 +9900".toList = some ⟨1577836800000⟩ := by
  have hscan : scanText? isoDateTimeOffset.items "2020-01-01 00:00:00 +9900".toList =
      some (CivilTime.stated ⟨2020, 1, 1, 0, 0, 0⟩
        [.year, .month, .day, .hour, .minute, .second] (some (99 * 3600))) := by decide
  have hmatches := matches_of_scanText? isOffsetTime_isoDateTimeOffset.items hscan
    (describes_stated (by decide) _ _)
  exact ⟨hmatches, by decide, by decide⟩

end TemporalFormat

end RecordCoercion
