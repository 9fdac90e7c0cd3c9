import RecordCoercion.Proofs.Calendar.DayNumber
import RecordCoercion.Proofs.Conversion.Scalars
import RecordCoercion.Proofs.Temporal.Specifiers

/-!
# What stops the writing of values

An instant has a text in a format if the calendar reaches it, which is a matter of its milliseconds
(`Instant.isSome_moment?_iff`), and `%#z` is not in the pattern. Where it is, an instant on the
calendar stops everything that writes it, up to the conversion of a value to text; nothing else does
(`TemporalFormat.writes_unless_refused`).
-/

set_option autoImplicit false

namespace RecordCoercion

/-- The calendar reaches an instant. -/
def Instant.OnCalendar (i : Instant) : Prop :=
  -8334601228800000 ≤ i.epochMillis.toInt ∧ i.epochMillis.toInt ≤ 8210266876799999

/-- Whether an instant is on the calendar can be computed from its milliseconds. -/
instance (i : Instant) : Decidable i.OnCalendar := by
  unfold Instant.OnCalendar
  infer_instance

/-- The instants on the calendar are those with a date and a time. -/
theorem Instant.isSome_moment?_iff (i : Instant) : i.moment?.isSome = true ↔ i.OnCalendar := by
  have hfrom := @Calendar.le_yearOfDay_iff firstYear (i.epochMillis.toInt / millisPerDay)
  have huntil := @Calendar.le_yearOfDay_iff (lastYear + 1) (i.epochMillis.toInt / millisPerDay)
  have hstart : Calendar.daysBeforeYear firstYear = -96465292 := by decide
  have hend : Calendar.daysBeforeYear (lastYear + 1) = 95026237 := by decide
  rw [hstart] at hfrom
  rw [hend] at huntil
  have hdays : (millisPerDay : Int) = 86400000 := rfl
  have hsome : i.moment?.isSome = true ↔
      firstYear ≤ Calendar.yearOfDay (i.epochMillis.toInt / millisPerDay) ∧
        ¬ lastYear + 1 ≤ Calendar.yearOfDay (i.epochMillis.toInt / millisPerDay) := by
    simp only [moment?, momentOfMillis, Bool.and_eq_true, Int.not_le, Int.lt_add_one_iff]
    split <;> simp_all
  rw [hsome, hfrom, huntil, hdays, OnCalendar]
  omega

namespace TemporalFormat

variable {format : TemporalFormat}

/-- The format cannot write a value: it is an instant on the calendar, and `%#z` is in the pattern. -/
def Refuses (format : TemporalFormat) (v : Value) : Prop :=
  HoldsPermissive format.pattern.toList ∧ ∃ i, v.instant? = some i ∧ i.OnCalendar

/-- A format cannot write an instant exactly if it holds `%#z` and the instant is on the calendar. -/
theorem cannotWrite_iff {i : Instant} :
    format.CannotWrite i ↔ HoldsPermissive format.pattern.toList ∧ i.OnCalendar := by
  rw [CannotWrite, isRenderable_eq_false_iff, Instant.isSome_moment?_iff]

/-- An instant is out of the range of a format exactly if it is off the calendar. -/
theorem render_eq_outOfRange_iff {i : Instant} :
    format.render i = .error .outOfRange ↔ ¬ i.OnCalendar := by
  rw [← Instant.isSome_moment?_iff]
  unfold render
  cases i.moment? with
  | none => simp
  | some m => cases ht : textOfItems? m format.items <;> simp [ht]

/-- A format writes exactly the instants on the calendar, and none if it holds `%#z`. -/
theorem exists_render_eq_ok_iff {i : Instant} :
    (∃ text, format.render i = .ok text) ↔
      i.OnCalendar ∧ ¬ HoldsPermissive format.pattern.toList := by
  have hrange := @render_eq_outOfRange_iff format i
  have hrefused := (@render_eq_unrenderable_iff format i).trans cannotWrite_iff
  cases hrender : format.render i with
  | ok text =>
    rw [hrender] at hrange hrefused
    have hcalendar : i.OnCalendar := by
      refine Decidable.byContradiction fun hbeyond => ?_
      cases hrange.mpr hbeyond
    refine ⟨fun _ => ⟨hcalendar, fun hpermissive => ?_⟩, fun _ => ⟨text, rfl⟩⟩
    cases hrefused.mpr ⟨hpermissive, hcalendar⟩
  | error e =>
    rw [hrender] at hrange hrefused
    constructor
    · rintro ⟨text, htext⟩
      cases htext
    · rintro ⟨hcalendar, hpermissive⟩
      cases e with
      | outOfRange => exact absurd hcalendar (hrange.mp rfl)
      | unrenderable => exact absurd (hrefused.mp rfl).1 hpermissive

/-- A format that cannot write a value stops its rendering. -/
theorem render_of_refuses {v : Value} (h : format.Refuses v) :
    v.render (some format) = .error ⟨format⟩ := by
  obtain ⟨hpermissive, i, hi, hcalendar⟩ := h
  exact Value.render_of_cannotWrite hi (cannotWrite_iff.mpr ⟨hpermissive, hcalendar⟩)

/-- Every value that a format does not refuse has a text. -/
theorem render_of_not_refuses {v : Value} (h : ¬ format.Refuses v) :
    ∃ text, v.render (some format) = .ok text := by
  have hinstant : ∀ i, v.instant? = some i → ∃ text, Value.instantText (some format) i = .ok text := by
    intro i hi
    obtain htext | ⟨f, hf, hcannot⟩ := Value.instantText_cases (some format) i
    · exact htext
    · cases hf
      obtain ⟨hpermissive, hcalendar⟩ := cannotWrite_iff.mp hcannot
      exact absurd ⟨hpermissive, i, hi, hcalendar⟩ h
  cases v
  case date i | time i | timestamp i =>
    obtain ⟨text, htext⟩ := hinstant i rfl
    exact ⟨some (String.ofList text), by rw [Value.render, htext]; rfl⟩
  all_goals exact ⟨_, rfl⟩

/-- Conversion to text in a format is rendering, for null as for other values. -/
theorem convert_eq_toText (defaults : FormatDefaults) (v : Value) (field : String) :
    convert defaults (.string (some format)) v field = toText (some format) v := by
  by_cases hv : v = .null
  · rw [hv, convert_null]
    rfl
  · exact convert_string defaults hv (some format) field

/-- What is either written or refused is written exactly if it is not refused. -/
theorem ok_iff_and_error_iff {α ε : Type} {result : Except ε α} {e : ε} {p : Prop}
    (herror : p → result = .error e) (hok : ¬ p → ∃ a, result = .ok a) :
    ((∃ a, result = .ok a) ↔ ¬ p) ∧ (result = .error e ↔ p) := by
  by_cases hp : p
  · simp [herror hp, hp]
  · obtain ⟨a, ha⟩ := hok hp
    simp [ha, hp]

/-- A format writes every instant on the calendar and knows the others to be beyond it, unless `%#z`
is in its pattern: then it has no text for any instant on the calendar. The rendering of a value, and
its conversion to text, are stopped by such an instant and by nothing else. -/
theorem writes_unless_refused (format : TemporalFormat) :
    (∀ i, (format.render i = .error .outOfRange ↔ ¬ i.OnCalendar) ∧
        ((∃ text, format.render i = .ok text) ↔
          i.OnCalendar ∧ ¬ HoldsPermissive format.pattern.toList)) ∧
      (∀ v, ((∃ text, v.render (some format) = .ok text) ↔ ¬ format.Refuses v) ∧
        (v.render (some format) = .error ⟨format⟩ ↔ format.Refuses v)) ∧
      ∀ v defaults field,
        ((∃ w, convert defaults (.string (some format)) v field = .ok w) ↔ ¬ format.Refuses v) ∧
          (convert defaults (.string (some format)) v field = .error (.unrenderable format) ↔
            format.Refuses v) := by
  refine ⟨fun i => ⟨render_eq_outOfRange_iff, exists_render_eq_ok_iff⟩, fun v => ?_,
    fun v defaults field => ?_⟩
  · exact ok_iff_and_error_iff render_of_refuses render_of_not_refuses
  · rw [convert_eq_toText]
    refine ok_iff_and_error_iff (fun h => ?_) fun h => ?_
    · rw [toText, render_of_refuses h]
    · obtain ⟨text, htext⟩ := render_of_not_refuses h
      rw [toText, htext]
      cases text <;> exact ⟨_, rfl⟩

/-- The pattern `%#z` is accepted and has no text for the start of 1970. -/
theorem permissive_not_rendered :
    (ofPattern? "%#z").isSome = true ∧ Instant.OnCalendar ⟨0⟩ ∧
      ¬ ∃ text, (⟨"%#z", by decide⟩ : TemporalFormat).render ⟨0⟩ = .ok text := by
  have hrender : (⟨"%#z", by decide⟩ : TemporalFormat).render ⟨0⟩ = .error .unrenderable := rfl
  refine ⟨by decide, by decide, ?_⟩
  rintro ⟨text, htext⟩
  rw [hrender] at htext
  cases htext

end TemporalFormat

end RecordCoercion
