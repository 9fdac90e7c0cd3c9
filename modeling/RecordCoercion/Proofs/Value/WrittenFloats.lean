import RecordCoercion.Proofs.Json.RereadSingles
import RecordCoercion.Proofs.Value.WrittenValues

/-!
# Written floating-point numbers are read back or replaced by others near them

A finite number is written with the digits that tell it apart, and these are read by the fast rule of
`Json.timesPowerOfTen?`, which rounds more than once. A single-precision number is read back all the same
(`Json.rereadDouble?_of_single`), and a double is replaced by one near it.
-/

set_option autoImplicit false

namespace RecordCoercion

namespace Value

/-! ## Doubles outside the keys of maps -/

/-- There are no doubles in a value, at any depth and inside the keys of maps. -/
def HasNoDoubles (v : Value) : Prop :=
  ∀ x, ¬(double x).IsIn v

variable {onDouble : Binary binary64 → Binary binary64}

/-- Changing doubles does not change a value without them. -/
theorem mapFloats_of_hasNoDoubles {v : Value} (h : v.HasNoDoubles) : v.mapFloats id onDouble = v := by
  induction v using valueInduction with
  | single v hsingle =>
    cases v with
    | double x => exact absurd .here (h x)
    | array items => cases hsingle .array rfl
    | map entries => cases hsingle .map rfl
    | record schema members => cases hsingle .record rfl
    | _ => rfl
  | array items ih =>
    have hitems : ∀ item ∈ items, mapFloats id onDouble item = item :=
      fun item hmem => ih item hmem fun x hx => h x (.item hmem hx)
    rw [mapFloats_array, List.map_congr_left hitems, List.map_id']
  | map entries ih =>
    have hentries : ∀ entry ∈ entries,
        Prod.map (mapFloats id onDouble) (mapFloats id onDouble) entry = entry :=
      fun entry hmem => Prod.ext ((ih entry hmem).1 fun x hx => h x (.key hmem hx))
        ((ih entry hmem).2 fun x hx => h x (.value hmem hx))
    rw [mapFloats_map, List.map_congr_left hentries, List.map_id']
  | record schema members ih =>
    have hmembers : ∀ member ∈ members, Prod.map id (mapFloats id onDouble) member = member :=
      fun member hmem => Prod.ext rfl (ih member hmem fun x hx => h x (.member hmem hx))
    rw [mapFloats_record, List.map_congr_left hmembers, List.map_id']

/-- There are no doubles inside the keys of the maps that a value is made of. -/
def HasPlainKeys (v : Value) : Prop :=
  ∀ entries, (map entries).IsIn v → ∀ entry ∈ entries, entry.1.HasNoDoubles

/-- Changing doubles outside the keys of maps leaves a value well formed. -/
theorem IsWellFormed.mapFloats {v : Value} (hwf : v.IsWellFormed) (hkeys : v.HasPlainKeys) :
    (v.mapFloats id onDouble).IsWellFormed := by
  induction v using valueInduction with
  | single v hsingle =>
    cases v with
    | array items => cases hsingle .array rfl
    | map entries => cases hsingle .map rfl
    | record schema members => cases hsingle .record rfl
    | _ => exact isWellFormed_of_single hsingle
  | array items ih =>
    rw [mapFloats_array, isWellFormed_array_iff, List.forall_mem_map]
    exact fun item hmem => ih item hmem (hwf.of_item hmem)
      fun entries hentries => hkeys entries (.item hmem hentries)
  | map entries ih =>
    have hsame : ∀ entry ∈ entries, entry.1.mapFloats id onDouble = entry.1 :=
      fun entry hmem => mapFloats_of_hasNoDoubles (hkeys entries .here entry hmem)
    rw [mapFloats_map, isWellFormed_map_iff, List.forall_mem_map]
    refine ⟨?_, fun entry hmem => ⟨?_, ?_⟩⟩
    · have hfirst : (entries.map (Prod.map (Value.mapFloats id onDouble)
          (Value.mapFloats id onDouble))).map (·.1) = entries.map (·.1) := by
        rw [List.map_map]
        exact List.map_congr_left hsame
      rw [Ordered.Distinct, hfirst]
      exact hwf.distinct_entries
    · rw [Prod.map_fst, hsame entry hmem]
      exact hwf.of_key hmem
    · exact (ih entry hmem).2 (hwf.of_value hmem)
        fun entries hentries => hkeys entries (.value hmem hentries)
  | record schema members ih =>
    rw [mapFloats_record, isWellFormed_record_iff, List.forall_mem_map]
    refine ⟨hwf.schema_distinctNames, ?_, fun member hmem => ?_⟩
    · have hfirst : (members.map (Prod.map id (Value.mapFloats id onDouble))).map (·.1) =
          members.map (·.1) := by
        rw [List.map_map]
        rfl
      rw [Ordered.Distinct, hfirst]
      exact hwf.distinct_members
    · exact ih member hmem (hwf.of_member hmem)
        fun entries hentries => hkeys entries (.member hmem hentries)

/-! ## What is read of a number -/

/-- The double as which a finite double is read from its text. -/
def rereadDouble (x : Binary binary64) : Binary binary64 :=
  (Json.rereadDouble? Json.floatLayout x).getD x

/-- The form of a finite double is read as the double of its text. -/
theorem readContent_doubleForm {x : Binary binary64} (hfinite : x.isFinite = true) :
    readContent false (some .double) (doubleForm x).reread = .ok (double (rereadDouble x)) := by
  obtain ⟨read, hread⟩ := Option.isSome_iff_exists.mp (Json.isSome_rereadDouble? hfinite)
  have hnumber := Json.rereadNumber_eq hfinite (Json.coefficient_floatParts_of_double hfinite)
  rw [hread] at hnumber
  rw [doubleForm, if_pos hfinite, rereadDouble, hread]
  change readContent false (some .double) (Json.rereadNumber Json.floatLayout x) = _
  rw [hnumber]
  rfl

/-- The form of a finite single-precision number is read as this number. -/
theorem readContent_floatForm {x : Binary binary32} (hfinite : x.isFinite = true) :
    readContent false (some .float) (floatForm x).reread = .ok (float x) := by
  have hnarrow := Json.rereadDouble?_of_single hfinite
  obtain ⟨read, hread, hconvert⟩ := Option.map_eq_some_iff.mp hnarrow
  have hfits := (Json.coefficient_floatParts_of_single hfinite).trans_lt
    (show 10 ^ 14 < UInt64.size by decide)
  have hnumber := Json.rereadNumber_eq hfinite hfits
  rw [hread] at hnumber
  rw [floatForm, if_pos hfinite]
  change readContent false (some .float) (Json.rereadNumber Json.singleLayout x) = _
  rw [hnumber]
  exact congrArg (Except.ok ∘ float) hconvert

/-- What a double is read as: a double of the same sign that is two codes away at most. A significand or
a power of ten that is a double itself makes no difference. -/
structure ReadAsDouble (x z : Binary binary64) : Prop where
  isFinite : z.isFinite = true
  negative : z.negative = x.negative
  near : z.code ≤ x.code + 2 ∧ x.code ≤ z.code + 2
  nearer : -308 ≤ (Json.floatParts Json.floatLayout x).decimal.exponent →
    ((Json.floatParts Json.floatLayout x).decimal.coefficient ≤ 2 ^ 53 ∨
      (Json.floatParts Json.floatLayout x).decimal.exponent.natAbs ≤ 22) →
    z.code ≤ x.code + 1 ∧ x.code ≤ z.code + 1
  exact : (Json.floatParts Json.floatLayout x).decimal.coefficient ≤ 2 ^ 53 →
    (Json.floatParts Json.floatLayout x).decimal.exponent.natAbs ≤ 22 → z = x

/-- A finite double is read as one that is two codes away at most. -/
theorem readAsDouble_rereadDouble {x : Binary binary64} (hfinite : x.isFinite = true) :
    ReadAsDouble x (rereadDouble x) := by
  obtain ⟨z, hz⟩ := Option.isSome_iff_exists.mp (Json.isSome_rereadDouble? hfinite)
  obtain ⟨hfinite', hnegative, hnear⟩ := Json.rereadDouble?_within_two hfinite hz
  rw [rereadDouble, hz, Option.getD_some]
  refine ⟨hfinite', hnegative, hnear,
    fun hlow hexact => Json.rereadDouble?_within_one hfinite hlow hexact hz,
    fun hcoefficient hexponent => ?_⟩
  rw [Json.rereadDouble?_of_exact hfinite hcoefficient (by omega) (by omega)] at hz
  exact (Option.some.inj hz).symm

/-- A value whose floating-point numbers are finite, with no doubles inside the keys of its maps, is read
back from its text with its doubles replaced by what they are read as. -/
theorem written_floats {v : Value} (hwf : v.IsWellFormed) (hkeys : v.HasPlainKeys)
    (hsingle : ∀ x, (float x).IsIn v → x.isFinite = true)
    (hdouble : ∀ x, (double x).IsIn v → x.isFinite = true)
    (hnesting : v.toForm.nesting ≤ Json.nestingLimit) :
    ofText (String.ofList v.toForm.text) = .ok (v.mapFloats id rereadDouble) ∧
      ∀ x, (double x).IsIn v → ReadAsDouble x (rereadDouble x) :=
  ⟨ofText_text (hwf.mapFloats hkeys) hnesting (fun x hx => readContent_floatForm (hsingle x hx))
      fun x hx => readContent_doubleForm (hdouble x hx),
    fun x hx => readAsDouble_rereadDouble (hdouble x hx)⟩

/-- A map of a tenth in single precision to a large double, beside its name. -/
def floatSample : Value :=
  array [string "large", map [(float (.ofBits 0x3DCCCCCD), double (.ofBits 0x433FFFFFFFFFFFFF))]]

/-- The sample with floating-point numbers is read as stated. -/
theorem written_floats_floatSample :
    ofText (String.ofList floatSample.toForm.text) =
        .ok (floatSample.mapFloats id rereadDouble) ∧
      ∀ x, (double x).IsIn floatSample → ReadAsDouble x (rereadDouble x) := by
  have hwf : (∀ x, (float x).IsWellFormed) ∧ (∀ x, (double x).IsWellFormed) ∧
      ∀ s, (string s).IsWellFormed := by
    refine ⟨fun x => isWellFormed_of_single ?_, fun x => isWellFormed_of_single ?_,
      fun s => isWellFormed_of_single ?_⟩ <;> rintro kind ⟨⟩ <;> rfl
  have hparts : ∀ part : Value, (∀ x, part.IsIn (float x) ↔ part = float x) ∧
      (∀ x, part.IsIn (double x) ↔ part = double x) ∧ ∀ s, part.IsIn (string s) ↔ part = string s :=
    fun part => ⟨fun x => isIn_single_iff rfl, fun x => isIn_single_iff rfl,
      fun s => isIn_single_iff rfl⟩
  refine written_floats ?wellFormed ?keys ?single ?double (by decide +kernel)
  case wellFormed =>
    simp [floatSample, isWellFormed_map_iff, isWellFormed_array_iff, hwf, Ordered.Distinct]
  case keys =>
    intro entries hentries entry hmem
    simp [floatSample, isIn_map_iff, isIn_array_iff, hparts] at hentries
    subst hentries
    rw [List.mem_singleton.mp hmem]
    simp [HasNoDoubles, hparts]
  case single =>
    simp [floatSample, isIn_map_iff, isIn_array_iff, hparts]
    decide +kernel
  case double =>
    simp [floatSample, isIn_map_iff, isIn_array_iff, hparts]
    decide +kernel

/-- A double with sixteen digits before its point is read as its lower neighbour: with the zero behind the
point its digits are no double, and they are rounded before they are divided by ten. -/
theorem ofText_text_large_double :
    (Binary.ofBits 0x433FFFFFFFFFFFFF : Binary binary64).isFinite = true ∧
      ofText (String.ofList (double (.ofBits 0x433FFFFFFFFFFFFF)).toForm.text) =
        .ok (double (.ofBits 0x433FFFFFFFFFFFFE)) ∧
      double (.ofBits 0x433FFFFFFFFFFFFE) ≠ double (.ofBits 0x433FFFFFFFFFFFFF) := by
  have hfinite : (Binary.ofBits 0x433FFFFFFFFFFFFF : Binary binary64).isFinite = true := by
    decide +kernel
  have hread : rereadDouble (.ofBits 0x433FFFFFFFFFFFFF) = .ofBits 0x433FFFFFFFFFFFFE := by
    decide +kernel
  refine ⟨hfinite, ?_, fun heq => ?_⟩
  · have hwf : ((double (.ofBits 0x433FFFFFFFFFFFFF)).mapFloats id rereadDouble).IsWellFormed :=
      isWellFormed_of_single (by rintro kind ⟨⟩; rfl)
    have htext := ofText_text hwf (by decide +kernel)
      (fun x hx => absurd ((isIn_single_iff rfl).mp hx) (by simp)) fun x hx => ?_
    · rw [htext, mapFloats, hread]
    · obtain rfl : x = .ofBits 0x433FFFFFFFFFFFFF := by simpa using (isIn_single_iff rfl).mp hx
      exact readContent_doubleForm hfinite
  · exact absurd (double.inj heq) (by decide +kernel)

end Value

end RecordCoercion
