import Mathlib.Data.List.Forall2
import RecordCoercion.Proofs.Conversion.Families

/-!
# Default formats written into types

Default formats can be kept apart from the types or written into them. `DeclaredType.withDefaults`
writes them into a type at every depth: a point in time without a format gets the default of its
kind, and text is left alone. `convert_withDefaults` says that this makes no difference. The written
type without defaults accepts the same values, chooses the candidate in the same place and gives the
same results, but for the schemas that records built from maps are bound to and for the displayed
candidates of a choice that has none to offer.
-/

set_option autoImplicit false

namespace RecordCoercion

namespace DeclaredType

mutual

/-- The type with default formats written into it, through candidates and the fields of schemas. -/
def withDefaults (defaults : FormatDefaults) : DeclaredType → DeclaredType
  | date format => date (format.or defaults.date)
  | time format => time (format.or defaults.time)
  | timestamp format => timestamp (format.or defaults.timestamp)
  | record (some ⟨fields⟩) => record (some ⟨fieldsWithDefaults defaults fields⟩)
  | choice candidates => choice (allWithDefaults defaults candidates)
  | other => other

/-- The fields of a schema with default formats written into their types. -/
def fieldsWithDefaults (defaults : FormatDefaults) :
    List (String × DeclaredType) → List (String × DeclaredType)
  | [] => []
  | (name, type) :: rest => (name, type.withDefaults defaults) :: fieldsWithDefaults defaults rest

/-- Types with default formats written into them. -/
def allWithDefaults (defaults : FormatDefaults) : List DeclaredType → List DeclaredType
  | [] => []
  | type :: rest => type.withDefaults defaults :: allWithDefaults defaults rest

end

end DeclaredType

/-- A schema with default formats written into the types of its fields. -/
def Schema.withDefaults (defaults : FormatDefaults) (schema : RecordSchema) : RecordSchema :=
  ⟨DeclaredType.fieldsWithDefaults defaults schema.fields⟩

/-! ## What stays the same -/

mutual

/-- A result is another but for the schemas of records that were built on the way, which have default
formats written into them on the other side. -/
inductive SameButSchemas (defaults : FormatDefaults) : Value → Value → Prop
  | same (w : Value) : SameButSchemas defaults w w
  | built (schema : RecordSchema) {members members' : Members}
      (h : List.Forall₂ (SameMember defaults) members members') :
      SameButSchemas defaults (.record schema members) (.record (schema.withDefaults defaults) members')

/-- A member is another of the same name but for schemas in its value. -/
inductive SameMember (defaults : FormatDefaults) : String × Value → String × Value → Prop
  | mk (name : String) {w w' : Value} (h : SameButSchemas defaults w w') :
      SameMember defaults (name, w) (name, w')

end

/-- A reason is another but for the displayed candidates of a choice, which have default formats
written into them on the other side. -/
inductive SameReason (defaults : FormatDefaults) : Reason → Reason → Prop
  | same (reason : Reason) : SameReason defaults reason reason
  | noMatchingCandidate (candidates : List DeclaredType) :
      SameReason defaults (.noMatchingCandidate (candidates.map DeclaredType.display))
        (.noMatchingCandidate (candidates.map fun type => (type.withDefaults defaults).display))

/-- Two outcomes are the same: both give results that are, both are failures of the same value to
become the same kind in the same field for the same reason, or both stop at the same format. -/
inductive SameOutcome (defaults : FormatDefaults) {α : Type} (results : α → α → Prop) :
    Except ConversionError α → Except ConversionError α → Prop
  | ok {a a' : α} (h : results a a') : SameOutcome defaults results (.ok a) (.ok a')
  | failed (v : Value) (target : FieldKind) (field : String) {reason reason' : Reason}
      (h : SameReason defaults reason reason') :
      SameOutcome defaults results (.error (.failed ⟨v, target, field, reason⟩))
        (.error (.failed ⟨v, target, field, reason'⟩))
  | unrenderable (format : TemporalFormat) :
      SameOutcome defaults results (.error (.unrenderable format)) (.error (.unrenderable format))

section

variable {defaults : FormatDefaults} {α β : Type}

/-- An outcome is the same as itself. -/
theorem SameOutcome.refl {results : α → α → Prop} (hrefl : ∀ a, results a a)
    (outcome : Except ConversionError α) : SameOutcome defaults results outcome outcome := by
  cases outcome with
  | ok a => exact .ok (hrefl a)
  | error e =>
    cases e with
    | failed failure => exact .failed _ _ _ (.same _)
    | unrenderable format => exact .unrenderable format

/-- What is done to the results of the same outcomes gives the same outcomes. -/
theorem SameOutcome.map {results : α → α → Prop} {results' : β → β → Prop} {f g : α → β}
    {outcome outcome' : Except ConversionError α} (h : SameOutcome defaults results outcome outcome')
    (hresults : ∀ a a', results a a' → results' (f a) (g a')) :
    SameOutcome defaults results' (outcome.map f) (outcome'.map g) := by
  cases h with
  | ok h => exact .ok (hresults _ _ h)
  | failed v target field h => exact .failed v target field h
  | unrenderable format => exact .unrenderable format

end

/-! ## Looking up types -/

section

variable (defaults : FormatDefaults)

/-- Each field of a record gets the default formats. -/
theorem fieldsWithDefaults_eq (fields : List (String × DeclaredType)) :
    DeclaredType.fieldsWithDefaults defaults fields =
      fields.map fun field => (field.1, field.2.withDefaults defaults) := by
  induction fields with
  | nil => rfl
  | cons field rest ih => rw [DeclaredType.fieldsWithDefaults, ih, List.map_cons]

/-- Each candidate of a choice gets the default formats. -/
theorem allWithDefaults_eq (candidates : List DeclaredType) :
    DeclaredType.allWithDefaults defaults candidates =
      candidates.map (DeclaredType.withDefaults defaults) := by
  induction candidates with
  | nil => rfl
  | cons type rest ih => rw [DeclaredType.allWithDefaults, ih, List.map_cons]

/-- The field with a name has its type with the defaults written in. -/
theorem typeOf?_withDefaults (schema : RecordSchema) (name : String) :
    (schema.withDefaults defaults).typeOf? name =
      (schema.typeOf? name).map (DeclaredType.withDefaults defaults) := by
  obtain ⟨fields⟩ := schema
  simp only [Schema.typeOf?, Schema.withDefaults, fieldsWithDefaults_eq]
  induction fields with
  | nil => rfl
  | cons field rest ih =>
    obtain ⟨key, type⟩ := field
    cases hname : name == key <;> simp [List.lookup_cons, hname, ih]

/-! ## The families of types -/

/-- A numeric type has no format to be written out. -/
theorem withDefaults_numeric (kind : NumericKind) :
    kind.type.withDefaults defaults = kind.type := by
  cases kind <;> rfl

/-- A point in time has its own format or else the default one of its kind. -/
theorem withDefaults_temporal (kind : TemporalKind) (format : Option TemporalFormat) :
    (kind.type format).withDefaults defaults =
      kind.type (format.or (defaults.format? kind.kind)) := by
  cases kind <;> rfl

/-- A record type gets the default formats in its schema. -/
theorem withDefaults_record (schema : RecordSchema) :
    (DeclaredType.record (some schema)).withDefaults defaults =
      .record (some (schema.withDefaults defaults)) := rfl

/-- A choice gets the default formats in its candidates. -/
theorem withDefaults_choice (candidates : List DeclaredType) :
    (DeclaredType.choice candidates).withDefaults defaults =
      .choice (candidates.map (DeclaredType.withDefaults defaults)) := by
  rw [DeclaredType.withDefaults, allWithDefaults_eq]

/-- Without defaults a format is used as it is. -/
theorem or_format?_empty (format : Option TemporalFormat) (kind : FieldKind) :
    format.or (FormatDefaults.empty.format? kind) = format := by
  cases kind <;> exact Option.or_none

/-! ## Acceptance and choice -/

/-- The written type accepts what the type accepts. -/
theorem accepts_withDefaults (type : DeclaredType) (v : Value) :
    accepts .empty (type.withDefaults defaults) v = accepts defaults type v := by
  by_cases hv : v = .null
  · rw [hv, accepts_null, accepts_null]
  induction type using DeclaredType.familyInduction with
  | boolean | char | string | array | map | bareRecord =>
    simp only [DeclaredType.withDefaults, accepts_boolean _ hv, accepts_char _ hv,
      accepts_string _ hv, accepts_array _ hv, accepts_map _ hv, accepts_record _ hv]
  | numeric kind =>
    rw [withDefaults_numeric, accepts_numeric _ hv, accepts_numeric _ hv]
  | temporal kind format =>
    rw [withDefaults_temporal, accepts_temporal _ hv, accepts_temporal _ hv, or_format?_empty]
  | record schema _ =>
    rw [withDefaults_record, accepts_record _ hv, accepts_record _ hv]
  | choice candidates ih =>
    rw [withDefaults_choice, accepts_choice _ hv, accepts_choice _ hv, List.any_map, Bool.eq_iff_iff,
      List.any_eq_true, List.any_eq_true]
    refine exists_congr fun candidate => and_congr_right fun hmem => ?_
    rw [Function.comp_apply, ih candidate hmem]

/-- The written type chooses the candidate in the same place. -/
theorem choose?_withDefaults (type : DeclaredType) (v : Value) :
    choose? .empty (type.withDefaults defaults) v =
      (choose? defaults type v).map fun (index, candidate) =>
        (index, candidate.withDefaults defaults) := by
  have hcandidates : (type.withDefaults defaults).candidates =
      type.candidates.map (DeclaredType.withDefaults defaults) := by
    cases type with
    | choice candidates => rw [withDefaults_choice]; rfl
    | record schema => cases schema <;> rfl
    | _ => rfl
  simp only [choose?, hcandidates, List.zipIdx_map, List.find?_map, Option.map_map,
    Function.comp_def, Prod.map_fst, accepts_withDefaults]
  rfl

end

/-! ## Conversion -/

section

variable {defaults : FormatDefaults}

/-- Inserting the same value into the same members gives the same members. -/
theorem sameMembers_insert {members members' : Members} {w w' : Value} (name : String)
    (hmembers : List.Forall₂ (SameMember defaults) members members')
    (hw : SameButSchemas defaults w w') :
    List.Forall₂ (SameMember defaults) (members.insert name w) (members'.insert name w') := by
  induction hmembers with
  | nil => exact .cons (.mk name hw) .nil
  | cons hmember hrest ih =>
    obtain ⟨other, hold⟩ := hmember
    simp only [Members.insert, Ordered.insert] at ih ⊢
    split
    · exact .cons (.mk other hw) hrest
    · exact .cons (.mk other hold) ih

/-- The walk through the entries of a map has the same outcome if the conversions of the members
have. -/
theorem convertEntries_same {type? : String → Option DeclaredType}
    (ih : ∀ name type, type? name = some type → ∀ v field,
      SameOutcome defaults (SameButSchemas defaults) (convert defaults type v field)
        (convert .empty (type.withDefaults defaults) v field))
    {members members' : Members} (hmembers : List.Forall₂ (SameMember defaults) members members')
    (field : String) (entries : Entries) :
    SameOutcome defaults (List.Forall₂ (SameMember defaults))
      (convertEntries (fun name => (type? name).map (convert defaults)) field members entries)
      (convertEntries (fun name => ((type? name).map (DeclaredType.withDefaults defaults)).map
        (convert .empty)) field members' entries) := by
  -- the members so far grow along the walk, so the induction is for all of them
  induction entries generalizing members members' with
  | nil => exact .ok hmembers
  | cons entry rest ihrest =>
    obtain ⟨key, v⟩ := entry
    simp only [convertEntries]
    cases key.rendered? with
    | none => exact ihrest hmembers
    | some name =>
      cases htype : type? name with
      | none => simpa only [htype, Option.map_none] using ihrest hmembers
      | some type =>
        simp only [htype, Option.map_some]
        have hmember := ih name type htype v (memberPath field name)
        generalize convert defaults type v (memberPath field name) = outcome at hmember
        generalize convert .empty (type.withDefaults defaults) v (memberPath field name) = outcome'
          at hmember
        cases hmember with
        | ok hw => exact ihrest (sameMembers_insert name hmembers hw)
        | failed v target field hreason => exact .failed v target field hreason
        | unrenderable format => exact .unrenderable format

/-- The conversion of null has the same outcome, which is null. -/
theorem convert_same_of_null {v : Value} (hv : v = .null) (type : DeclaredType) (field : String) :
    SameOutcome defaults (SameButSchemas defaults) (convert defaults type v field)
      (convert .empty (type.withDefaults defaults) v field) := by
  rw [hv, convert_null, convert_null]
  exact .ok (.same .null)

/-- The conversion of a map to a record has the same outcome if those of its members have. -/
theorem convert_same_of_record {schema : RecordSchema} {v : Value} (hv : v ≠ .null)
    (ih : ∀ name type, schema.typeOf? name = some type → ∀ v field,
      SameOutcome defaults (SameButSchemas defaults) (convert defaults type v field)
        (convert .empty (type.withDefaults defaults) v field)) (field : String) :
    SameOutcome defaults (SameButSchemas defaults)
      (convert defaults (.record (some schema)) v field)
      (convert .empty (.record (some (schema.withDefaults defaults))) v field) := by
  by_cases hrecord : v.kind? = some .record
  · obtain ⟨bound, members, rfl⟩ := Value.exists_of_kind?_record hrecord
    rw [convert_record_of_record, convert_record_of_record]
    exact .ok (.same _)
  by_cases hmap : v.kind? = some .map
  · obtain ⟨entries, rfl⟩ := Value.exists_of_kind?_map hmap
    simp only [convert_record_of_map, typeOf?_withDefaults]
    exact (convertEntries_same ih .nil field entries).map fun members members' => .built schema
  · rw [convert_record_of_other _ hv _ hmap hrecord, convert_record_of_other _ hv _ hmap hrecord]
    exact .failed v .record field (.same _)

/-- The conversion of a value that is not null to the written type has the same outcome. -/
theorem convert_same_of_ne_null (type : DeclaredType) {v : Value} (hv : v ≠ .null) (field : String) :
    SameOutcome defaults (SameButSchemas defaults) (convert defaults type v field)
      (convert .empty (type.withDefaults defaults) v field) := by
  have hrefl : ∀ outcome : Conversion,
      SameOutcome defaults (SameButSchemas defaults) outcome outcome :=
    SameOutcome.refl SameButSchemas.same
  induction type using DeclaredType.familyInduction generalizing v field with
  | boolean | char | string | array | map =>
    simp only [DeclaredType.withDefaults, convert_boolean _ hv, convert_char _ hv,
      convert_string _ hv, convert_array _ hv, convert_map _ hv, hrefl]
  | numeric kind =>
    rw [withDefaults_numeric, convert_numeric _ hv, convert_numeric _ hv]
    exact hrefl _
  | temporal kind format =>
    rw [withDefaults_temporal, convert_temporal _ hv, convert_temporal _ hv, or_format?_empty]
    exact hrefl _
  | bareRecord => cases v <;> exact hrefl _
  | record schema ih =>
    rw [withDefaults_record]
    refine convert_same_of_record hv (fun name type htype w path => ?_) field
    by_cases hw : w = .null
    · exact convert_same_of_null hw type path
    · exact ih (name, type) (mem_fields_of_typeOf? htype) hw path
  | choice candidates ih =>
    rw [withDefaults_choice]
    obtain ⟨index, candidate, hchosen⟩ | hnone := choose?_cases defaults candidates v
    · -- the written candidate in the same place is chosen on the other side
      have hwritten := choose?_withDefaults defaults (.choice candidates) v
      rw [hchosen, withDefaults_choice] at hwritten
      rw [convert_choice_of_choose? _ hchosen, convert_choice_of_choose? _ hwritten]
      exact ih candidate (accepts_of_choose? _ hchosen).1 hv field
    · have hwritten : ∀ candidate ∈ candidates.map (DeclaredType.withDefaults defaults),
          accepts .empty candidate v = false := by
        simpa [accepts_withDefaults] using hnone
      rw [convert_choice_of_forall _ hv hnone, convert_choice_of_forall _ hv hwritten, List.map_map]
      exact .failed v .choice field (.noMatchingCandidate candidates)

/-- The conversion to the written type has the same outcome. -/
theorem convert_same (type : DeclaredType) (v : Value) (field : String) :
    SameOutcome defaults (SameButSchemas defaults) (convert defaults type v field)
      (convert .empty (type.withDefaults defaults) v field) := by
  by_cases hv : v = .null
  · exact convert_same_of_null hv type field
  · exact convert_same_of_ne_null type hv field

end

/-- Default formats may as well be written into the types. The written type accepts the same values
without any defaults, it chooses the candidate in the same place, which is the written one, and
conversions to it have the same outcome. -/
theorem convert_withDefaults (defaults : FormatDefaults) (type : DeclaredType) (v : Value) :
    accepts .empty (type.withDefaults defaults) v = accepts defaults type v ∧
    choose? .empty (type.withDefaults defaults) v =
      (choose? defaults type v).map (fun (index, candidate) =>
        (index, candidate.withDefaults defaults)) ∧
    ∀ field, SameOutcome defaults (SameButSchemas defaults) (convert defaults type v field)
      (convert .empty (type.withDefaults defaults) v field) :=
  ⟨accepts_withDefaults defaults type v, choose?_withDefaults defaults type v, convert_same type v⟩

end RecordCoercion
