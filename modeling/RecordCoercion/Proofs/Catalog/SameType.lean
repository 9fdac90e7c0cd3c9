import RecordCoercion.Proofs.Conversion.Families
import RecordCoercion.Proofs.Value.Comparison

/-!
# Sameness of types and schemas

Schemas are compared without regard to the order of their fields, by looking up the fields of one in
the other. No name comes twice in a schema that was built, nor in the schemas inside it
(`DeclaredType.HasDistinctNames`), and on the types with such schemas sameness is an equivalence.
-/

set_option autoImplicit false

namespace RecordCoercion

namespace DeclaredType

/-! ## Schemas of a type -/

/-- A schema is the one of a type or of a record type inside it, at any depth. -/
inductive HoldsSchema (schema : RecordSchema) : DeclaredType → Prop
  | here : HoldsSchema schema (.record (some schema))
  | field {outer : RecordSchema} {field : String × DeclaredType} (hmem : field ∈ outer.fields)
      (h : HoldsSchema schema field.2) : HoldsSchema schema (.record (some outer))
  | candidate {candidates : List DeclaredType} {type : DeclaredType} (hmem : type ∈ candidates)
      (h : HoldsSchema schema type) : HoldsSchema schema (.choice candidates)

/-- In none of the schemas of a type does a name come twice. -/
def HasDistinctNames (type : DeclaredType) : Prop :=
  ∀ schema, type.HoldsSchema schema → schema.names.Nodup

end DeclaredType

/-- Neither in a schema nor in the schemas inside it does a name come twice. -/
def Schema.HasDistinctNames (schema : RecordSchema) : Prop :=
  (DeclaredType.record (some schema)).HasDistinctNames

namespace Schema.HasDistinctNames

variable {schema : RecordSchema} (h : schema.HasDistinctNames)

include h

/-- No two fields of the schema itself have one name. -/
theorem names_nodup : schema.names.Nodup := h schema .here

/-- The fields of a schema have distinct names. -/
theorem distinct : Ordered.Distinct (· == ·) schema.fields :=
  Ordered.distinct_beq_iff.mpr h.names_nodup

/-- What holds of all schemas in a schema holds of those in the types of its fields. -/
theorem of_field {field : String × DeclaredType} (hmem : field ∈ schema.fields) :
    field.2.HasDistinctNames :=
  fun inner hinner => h inner (.field hmem hinner)

end Schema.HasDistinctNames

namespace DeclaredType

/-- What holds of all schemas in a choice holds of those in its candidates. -/
theorem HasDistinctNames.of_candidate {candidates : List DeclaredType} {type : DeclaredType}
    (h : HasDistinctNames (.choice candidates)) (hmem : type ∈ candidates) : type.HasDistinctNames :=
  fun schema hschema => h schema (.candidate hmem hschema)

/-! ## Induction over schemas -/

/-- Whether a type is made of no other types. -/
def isSimple : DeclaredType → Bool
  | record (some _) | choice _ => false
  | _ => true

/-- Induction over types with one case for all types that are made of no others. -/
theorem schemaInduction {motive : DeclaredType → Prop}
    (simple : ∀ type : DeclaredType, type.isSimple = true → motive type)
    (record : ∀ schema : RecordSchema, (∀ field ∈ schema.fields, motive field.2) →
      motive (.record (some schema)))
    (choice : ∀ candidates : List DeclaredType, (∀ candidate ∈ candidates, motive candidate) →
      motive (.choice candidates))
    (type : DeclaredType) : motive type := by
  induction type using familyInduction with
  | numeric kind => exact simple _ (by cases kind <;> rfl)
  | temporal kind format => exact simple _ (by cases kind <;> rfl)
  | record schema ih => exact record schema ih
  | choice candidates ih => exact choice candidates ih
  | _ => exact simple _ rfl

/-- The cases of a type, one for all types that are made of no others. -/
theorem schemaCases {motive : DeclaredType → Prop}
    (simple : ∀ type : DeclaredType, type.isSimple = true → motive type)
    (record : ∀ schema : RecordSchema, motive (.record (some schema)))
    (choice : ∀ candidates : List DeclaredType, motive (.choice candidates))
    (type : DeclaredType) : motive type :=
  schemaInduction simple (fun schema _ => record schema) (fun candidates _ => choice candidates) type

/-! ## Sameness -/

/-- A type that is made of no others is the same only as itself. -/
theorem same_iff_of_isSimple {type : DeclaredType} (h : type.isSimple = true)
    (other : DeclaredType) : type.same other = true ↔ type = other := by
  cases type with
  | record schema =>
    cases schema with
    | some schema => cases h
    | none => rcases other with _ | _ | _ | _ | _ | _ | _ | _ | _ | _ | _ | _ | _ | _ | _ |
        (_ | _) | _ <;> simp [same]
  | choice candidates => cases h
  | _ => cases other <;> simp [same, kind, format?]

/-- Record types with schemas are the same if their schemas are. -/
theorem same_record (schema other : RecordSchema) :
    (record (some schema)).same (.record (some other)) = schema.same other := rfl

/-- Choices are the same if their candidates are, in order. -/
theorem same_choice (candidates others : List DeclaredType) :
    (choice candidates).same (.choice others) = sameLists candidates others := by
  rw [same]

/-- Each field has the same type as the field of that name. -/
theorem fieldsAmong_iff (fields others : List (String × DeclaredType)) :
    fieldsAmong fields others = true ↔
      Ordered.Among (· == ·) (fun type other => type.same other = true) fields others := by
  induction fields with
  | nil => simp [fieldsAmong, Ordered.Among]
  | cons field rest ih =>
    obtain ⟨name, type⟩ := field
    rw [fieldsAmong, Bool.and_eq_true, ih, Ordered.Among, Ordered.Among, List.forall_mem_cons,
      Ordered.get?_beq_eq_lookup]
    cases others.lookup name <;> simp

/-- Lists of types are the same if they are the same type by type. -/
theorem sameLists_iff (types others : List DeclaredType) :
    sameLists types others = true ↔
      List.Forall₂ (fun type other => type.same other = true) types others := by
  induction types generalizing others with
  | nil => cases others <;> simp [sameLists]
  | cons type rest ih => cases others <;> simp [sameLists, ih]

/-- Only the type of a record with a schema is the same as one. -/
theorem exists_of_same_record {schema : RecordSchema} {other : DeclaredType}
    (h : (record (some schema)).same other = true) : ∃ schema', other = .record (some schema') := by
  cases other with
  | record schema' =>
    cases schema' with
    | some schema' => exact ⟨schema', rfl⟩
    | none => simp [same] at h
  | _ => simp [same] at h

/-- Only a choice is the same as a choice. -/
theorem exists_of_same_choice {candidates : List DeclaredType} {other : DeclaredType}
    (h : (choice candidates).same other = true) : ∃ candidates', other = .choice candidates' := by
  cases other with
  | choice candidates' => exact ⟨candidates', rfl⟩
  | _ => simp [same] at h

end DeclaredType

/-- Schemas are the same if they have as many fields, and each field of the one has the same type in the
other. -/
theorem Schema.same_iff (schema other : RecordSchema) :
    schema.same other = true ↔ schema.fields.length = other.fields.length ∧
      Ordered.Among (· == ·) (fun type type' => DeclaredType.same type type' = true) schema.fields
        other.fields := by
  rw [Schema.same, Bool.and_eq_true, beq_iff_eq, DeclaredType.fieldsAmong_iff, Schema.size,
    Schema.size]

namespace DeclaredType

/-- A type is the same as itself if its schemas repeat no name. -/
theorem same_self {type : DeclaredType} (h : type.HasDistinctNames) : type.same type = true := by
  induction type using schemaInduction with
  | simple type hsimple => exact (same_iff_of_isSimple hsimple type).mpr rfl
  | record schema ih =>
    have hschema : schema.HasDistinctNames := h
    rw [same_record, Schema.same_iff, Ordered.among_self_iff Ordered.isEquiv_beq hschema.distinct]
    exact ⟨rfl, fun field hmem => ih field hmem (hschema.of_field hmem)⟩
  | choice candidates ih =>
    rw [same_choice, sameLists_iff, List.forall₂_same]
    exact fun type hmem => ih type hmem (h.of_candidate hmem)

/-- Sameness of types goes both ways, if neither repeats a name. -/
theorem same_symm {type other : DeclaredType} (h : type.HasDistinctNames)
    (hother : other.HasDistinctNames) (hsame : type.same other = true) : other.same type = true := by
  induction type using schemaInduction generalizing other with
  | simple type hsimple =>
    obtain rfl := (same_iff_of_isSimple hsimple other).mp hsame
    exact hsame
  | record schema ih =>
    obtain ⟨schema', rfl⟩ := exists_of_same_record hsame
    have hschema : schema.HasDistinctNames := h
    have hschema' : schema'.HasDistinctNames := hother
    rw [same_record, Schema.same_iff] at hsame ⊢
    refine ⟨hsame.1.symm, hsame.2.symm Ordered.isEquiv_beq hschema.distinct hschema'.distinct
      hsame.1 ?_⟩
    intro field hmem field' hmem'
    exact ih field hmem (hschema.of_field hmem) (hschema'.of_field hmem')
  | choice candidates ih =>
    obtain ⟨candidates', rfl⟩ := exists_of_same_choice hsame
    rw [same_choice, sameLists_iff] at hsame ⊢
    refine forall₂_symm (fun type hmem other hmem' => ?_) hsame
    exact ih type hmem (h.of_candidate hmem) (hother.of_candidate hmem')

/-- Types that are the same as a third one in between are the same. -/
theorem same_trans {type other third : DeclaredType} (h : type.same other = true)
    (h' : other.same third = true) : type.same third = true := by
  induction type using schemaInduction generalizing other third with
  | simple type hsimple =>
    obtain rfl := (same_iff_of_isSimple hsimple other).mp h
    exact h'
  | record schema ih =>
    obtain ⟨schema', rfl⟩ := exists_of_same_record h
    obtain ⟨schema'', rfl⟩ := exists_of_same_record h'
    rw [same_record, Schema.same_iff] at h h' ⊢
    exact ⟨h.1.trans h'.1, h.2.trans Ordered.isEquiv_beq (fun field hmem b c => ih field hmem) h'.2⟩
  | choice candidates ih =>
    obtain ⟨candidates', rfl⟩ := exists_of_same_choice h
    obtain ⟨candidates'', rfl⟩ := exists_of_same_choice h'
    rw [same_choice, sameLists_iff] at h h' ⊢
    exact forall₂_trans (fun type hmem b c => ih type hmem) h h'

end DeclaredType

/-! ## Schemas -/

namespace Schema

variable {schema other third : RecordSchema}

/-- A schema is the same as itself if it repeats no name, nor does a schema inside it. -/
theorem same_self (h : schema.HasDistinctNames) : schema.same schema = true :=
  DeclaredType.same_self h

/-- Sameness of schemas goes both ways, if neither repeats a name. -/
theorem same_symm (h : schema.HasDistinctNames) (hother : other.HasDistinctNames)
    (hsame : schema.same other = true) : other.same schema = true :=
  DeclaredType.same_symm h hother hsame

/-- Schemas that are the same as a third one in between are the same. -/
theorem same_trans (h : schema.same other = true) (h' : other.same third = true) :
    schema.same third = true := by
  rw [← DeclaredType.same_record] at h h' ⊢
  exact DeclaredType.same_trans h h'

end Schema

end RecordCoercion
