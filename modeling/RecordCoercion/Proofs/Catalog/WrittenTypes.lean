import RecordCoercion.Proofs.Catalog.ValidTypes
import RecordCoercion.Proofs.Json.WrittenDocuments

/-!
# Written types are read back

The form of a type is read as the type itself, whatever it is inside, if no name comes twice in its
schemas (`DeclaredType.read_toForm`), and there are no numbers in it that its text could change. Together
with what is refused this gives `DeclaredType.written_catalog`.
-/

set_option autoImplicit false

namespace RecordCoercion

/-- The text of a document that is read as it was written is read as the form that it is. -/
theorem Json.readAs_text {α : Type} (ofForm : Json → Except FormError α) {form : Json}
    (hkept : form.IsKept) (hnesting : form.nesting ≤ nestingLimit) :
    readAs ofForm (String.ofList form.text) = ofForm form := by
  rw [readAs, String.toList_ofList, read?_text hnesting, hkept]

/-- What is read of a text is read of the form that the text has. -/
theorem Json.exists_of_readAs {α : Type} {ofForm : Json → Except FormError α} {text : String} {a : α}
    (h : readAs ofForm text = .ok a) : ∃ form, ofForm form = .ok a := by
  unfold readAs at h
  split at h
  · next form _ => exact ⟨form, h⟩
  · cases h

/-- A text whose form is not accepted is not accepted. -/
theorem Json.exists_readAs_eq_error {α : Type} {ofForm : Json → Except FormError α} {text : String}
    {form : Json} (hform : read? nestingLimit text.toList = some form)
    (h : ∀ a, ofForm form ≠ .ok a) : ∃ e, readAs ofForm text = .error e := by
  rw [readAs, hform]
  cases hread : ofForm form with
  | ok a => exact absurd hread (h a)
  | error e => exact ⟨e, hread⟩

/-- A format that may be missing is read back from its form. -/
theorem TemporalFormat.ofForm?_ofOption (format : Option TemporalFormat) :
    ofForm? (Json.ofOption toForm format) = .ok format := by
  cases format with
  | none => rfl
  | some format => rw [Json.ofOption, toForm, ofForm?, ofPattern?_pattern]

namespace DeclaredType

/-! ## Forms -/

/-- The forms of types are written one by one. -/
theorem forms_eq (types : List DeclaredType) : forms types = types.map toForm := by
  induction types with
  | nil => rfl
  | cons type rest ih => rw [forms, ih, List.map_cons]

/-- The form of a field. -/
def fieldForm (field : String × DeclaredType) : Json :=
  .object [("name", .string field.1), ("type", field.2.toForm)]

/-- The forms of fields are written one by one. -/
theorem fieldForms_eq (fields : List (String × DeclaredType)) :
    fieldForms fields = fields.map fieldForm := by
  induction fields with
  | nil => rfl
  | cons field rest ih => rw [fieldForms, ih, List.map_cons, fieldForm]

/-- The form of a type that may have a format holds its kind and its format, which make up the type. -/
theorem toForm_of_hasFormat {type : DeclaredType} (h : hasFormat type.kind = true) :
    type.toForm = formWithFormat type.kind type.format? ∧ ofFormat type.kind type.format? = type := by
  cases type <;> first | exact ⟨rfl, rfl⟩ | cases h

/-- The form of a type without parts holds its kind, which makes up the type. -/
theorem toForm_of_not_hasPart {type : DeclaredType} (h : hasPart type.kind = false) :
    type.toForm = .object [kindMember type.kind] ∧ bare type.kind = type := by
  cases type <;> first | exact ⟨rfl, rfl⟩ | cases h

/-- The form of a record type holds the form of its schema. -/
theorem toForm_record (schema : RecordSchema) :
    (record (some schema)).toForm = .object [kindMember .record, ("schema", schema.toForm)] := rfl

/-- The form of a choice holds the forms of its candidates. -/
theorem toForm_choice (candidates : List DeclaredType) :
    (choice candidates).toForm =
      .object [kindMember .choice, ("candidates", .array (candidates.map toForm))] := by
  rw [toForm, forms_eq]

/-- The form of a schema holds the forms of its fields. -/
theorem toForm_schema (schema : RecordSchema) :
    schema.toForm = .object [("fields", .array (schema.fields.map fieldForm))] := by
  rw [Schema.toForm, fieldForms_eq]

/-- The only type that may have other types as a part and has none is that of records without a
schema. -/
theorem eq_record_none {type : DeclaredType} (h : type.isSimple = true)
    (hpart : hasPart type.kind = true) (hformat : ¬hasFormat type.kind = true) :
    type = .record none := by
  cases type with
  | record schema =>
    cases schema with
    | none => rfl
    | some schema => cases h
  | choice candidates => cases h
  | _ => exact absurd hpart hformat

/-- The form of a type that is made of no others holds at most one part, null or a text. -/
theorem toForm_of_isSimple {type : DeclaredType} (h : type.isSimple = true) :
    type.toForm = .object [kindMember type.kind] ∨
      ∃ key, type.toForm = .object [kindMember type.kind, (key, .null)] ∨
        ∃ s, type.toForm = .object [kindMember type.kind, (key, .string s)] := by
  by_cases hpart : hasPart type.kind = true
  · by_cases hformat : hasFormat type.kind = true
    · rw [(toForm_of_hasFormat hformat).1, formWithFormat]
      cases type.format? with
      | none => exact .inr ⟨_, .inl rfl⟩
      | some format => exact .inr ⟨_, .inr ⟨_, rfl⟩⟩
    · rw [eq_record_none h hpart hformat]
      exact .inr ⟨_, .inl rfl⟩
  · exact .inl (toForm_of_not_hasPart (Bool.eq_false_iff.mpr hpart)).1

/-- The forms of types are made of null, texts, arrays and objects. -/
theorem toForm_induction {motive : Json → Prop} (null : motive .null)
    (string : ∀ s, motive (.string s))
    (array : ∀ items, (∀ item ∈ items, motive item) → motive (.array items))
    (object : ∀ members : List (String × Json), (∀ member ∈ members, motive member.2) →
      motive (.object members))
    (type : DeclaredType) : motive type.toForm := by
  have tagged : ∀ (kind : FieldKind) key form, motive form →
      motive (.object [kindMember kind, (key, form)]) := by
    intro kind key form hform
    refine object _ ?_
    simpa [kindMember] using ⟨string kind.name, hform⟩
  induction type using schemaInduction with
  | simple type h =>
    rcases toForm_of_isSimple h with heq | ⟨key, heq | ⟨s, heq⟩⟩
    · rw [heq]
      refine object _ ?_
      simpa [kindMember] using string type.kind.name
    · rw [heq]
      exact tagged _ _ _ null
    · rw [heq]
      exact tagged _ _ _ (string s)
  | record schema ih =>
    rw [toForm_record, toForm_schema]
    refine tagged _ _ _ (object _ ?_)
    rw [List.forall_mem_singleton]
    refine array _ fun form hform => ?_
    obtain ⟨field, hmem, rfl⟩ := List.mem_map.mp hform
    refine object _ ?_
    simpa using ⟨string field.1, ih field hmem⟩
  | choice candidates ih =>
    rw [toForm_choice]
    refine tagged _ _ _ (array _ fun form hform => ?_)
    obtain ⟨type, hmem, rfl⟩ := List.mem_map.mp hform
    exact ih type hmem

/-- Every part of the form of a type can be read. -/
theorem isReadable_toForm (type : DeclaredType) : type.toForm.isReadable = true :=
  toForm_induction (motive := fun form => form.isReadable = true) rfl (fun _ => rfl)
    (fun _ h => Json.areReadable_iff.mpr h) (fun _ h => Json.areReadableMembers_iff.mpr h) type

/-- The form of a type is the same after it was written and read. -/
theorem isKept_toForm (type : DeclaredType) : type.toForm.IsKept :=
  toForm_induction (motive := Json.IsKept) rfl Json.isKept_string (fun _ => Json.isKept_array)
    (fun _ => Json.isKept_object) type

/-! ## Reading -/

/-- A kind is read back from its name. -/
theorem readKind_name (kind : FieldKind) : readKind kind.name = .ok kind := by
  rw [readKind, FieldKind.ofName?_name]

/-- An object that names its kind first, and only there, is read as what its parts make. -/
theorem read_object {kind : FieldKind} {members : List (String × Json)} (inner : Bool)
    (hreadable : (Json.object (kindMember kind :: members)).isReadable = true)
    (hkey : Json.hasKey "type" members = false) :
    read inner (.object (kindMember kind :: members)) =
      ofPart kind (TemporalFormat.ofMember? "format" (kindMember kind :: members))
        (schemaMember (kindMember kind :: members)) (candidatesMember (kindMember kind :: members)) := by
  have hkind : kindOfMembers inner (kindMember kind :: members) = .ok kind := by
    simp [kindOfMembers, kindMember, Json.member?, hkey, kindOfForm, readKind_name]
  rw [read, hreadable, Bool.or_true, if_pos rfl, hkind]
  rfl

/-- The format of a written type is found behind its kind. -/
theorem ofMember?_format (kind : FieldKind) (form : Json) :
    TemporalFormat.ofMember? "format" [kindMember kind, ("format", form)] =
      TemporalFormat.ofForm? form := by
  simp [TemporalFormat.ofMember?, kindMember, Json.member?, Json.hasKey]

/-- The schema of a written record type is found behind its kind. -/
theorem schemaMember_schema (form : Json) :
    schemaMember [kindMember .record, ("schema", form)] = orNull form (readSchema true form) := by
  simp [schemaMember, kindMember, Json.hasKey]

/-- The candidates of a written choice are found behind its kind. -/
theorem candidatesMember_candidates (forms : List Json) :
    candidatesMember [kindMember .choice, ("candidates", .array forms)] = readAll forms := by
  simp [candidatesMember, kindMember, Json.hasKey, readCandidates]

/-- The forms of types that are read back are read together. -/
theorem readAll_map_toForm {types : List DeclaredType}
    (h : ∀ type ∈ types, read true type.toForm = .ok type) :
    readAll (types.map toForm) = .ok types := by
  rw [readAll_eq_ok_iff, List.forall₂_map_left_iff, List.forall₂_same]
  exact h

/-- A field is read back from its form if its type is. -/
theorem readField_fieldForm {inner : Bool} {field : String × DeclaredType}
    (h : read inner field.2.toForm = .ok field.2) : readField inner (fieldForm field) = .ok field := by
  have hname : Json.stringMember "name" [("name", .string field.1), ("type", field.2.toForm)] =
      .ok field.1 := by
    simp [Json.stringMember, Json.member?, Json.hasKey]
  have htype : typeMember inner [("name", .string field.1), ("type", field.2.toForm)] =
      .ok field.2 := by
    simp [typeMember, Json.hasKey, h]
  rw [fieldForm, readField, hname, htype]
  rfl

/-- A schema whose fields are read back is read back, if no name comes twice. -/
theorem readSchema_toForm_of_fields {inner : Bool} {schema : RecordSchema}
    (hnames : schema.names.Nodup)
    (h : ∀ field ∈ schema.fields, read inner field.2.toForm = .ok field.2) :
    readSchema inner schema.toForm = .ok schema := by
  have hfields : readFields inner (schema.fields.map fieldForm) = .ok schema.fields := by
    rw [readFields_eq_ok_iff, List.forall₂_map_left_iff, List.forall₂_same]
    exact fun field hmem => readField_fieldForm (h field hmem)
  have hmember : fieldsMember inner [("fields", .array (schema.fields.map fieldForm))] =
      .ok schema.fields := by
    simp [fieldsMember, Json.hasKey, readFieldList, hfields]
  rw [toForm_schema, readSchema, hmember]
  exact checkedSchema_eq_ok_iff.mpr ⟨rfl, hnames⟩

/-- The form of a type is read as the type, inside another one or not. -/
theorem read_toForm {type : DeclaredType} (h : type.HasDistinctNames) (inner : Bool) :
    read inner type.toForm = .ok type := by
  have hreadable := isReadable_toForm type
  induction type using schemaInduction generalizing inner with
  | simple type hsimple =>
    by_cases hformat : hasFormat type.kind = true
    · obtain ⟨hform, htype⟩ := toForm_of_hasFormat hformat
      rw [hform, formWithFormat] at hreadable ⊢
      rw [read_object inner hreadable rfl, ofPart_of_hasFormat hformat, ofMember?_format,
        TemporalFormat.ofForm?_ofOption, Except.map, htype]
    · by_cases hpart : hasPart type.kind = true
      · rw [eq_record_none hsimple hpart hformat, toForm] at hreadable ⊢
        rw [read_object inner hreadable rfl, ofPart, schemaMember_schema]
        rfl
      · rw [Bool.not_eq_true] at hpart
        obtain ⟨hform, htype⟩ := toForm_of_not_hasPart hpart
        rw [hform] at hreadable ⊢
        rw [read_object inner hreadable rfl, ofPart_of_not_hasPart hpart, htype]
  | record schema ih =>
    have hschema : schema.HasDistinctNames := h
    rw [toForm_record] at hreadable ⊢
    have hread : readSchema true schema.toForm = .ok schema :=
      readSchema_toForm_of_fields hschema.names_nodup fun field hmem =>
        ih field hmem (hschema.of_field hmem) true (isReadable_toForm field.2)
    rw [read_object inner hreadable rfl, ofPart, schemaMember_schema, hread]
    rfl
  | choice candidates ih =>
    rw [toForm_choice] at hreadable ⊢
    have hread : readAll (candidates.map toForm) = .ok candidates :=
      readAll_map_toForm fun type hmem =>
        ih type hmem (h.of_candidate hmem) true (isReadable_toForm type)
    rw [read_object inner hreadable rfl, ofPart, candidatesMember_candidates, hread]
    rfl

/-- A format is the one of a type or of a type inside it, at any depth. -/
inductive HoldsFormat (format : TemporalFormat) : DeclaredType → Prop
  | here {type : DeclaredType} (h : type.format? = some format) : HoldsFormat format type
  | field {schema : RecordSchema} {field : String × DeclaredType} (hmem : field ∈ schema.fields)
      (h : HoldsFormat format field.2) : HoldsFormat format (.record (some schema))
  | candidate {candidates : List DeclaredType} {type : DeclaredType} (hmem : type ∈ candidates)
      (h : HoldsFormat format type) : HoldsFormat format (.choice candidates)

end DeclaredType

namespace Schema

/-- A format is the one of a field or of a type inside it, at any depth. -/
def HoldsFormat (schema : RecordSchema) (format : TemporalFormat) : Prop :=
  ∃ field ∈ schema.fields, field.2.HoldsFormat format

/-- A schema is a part of the form of the type of its records. -/
theorem isKept_toForm (schema : RecordSchema) : schema.toForm.IsKept := by
  rw [DeclaredType.toForm_schema]
  refine Json.isKept_object ?_
  rw [List.forall_mem_singleton]
  refine Json.isKept_array fun form hform => ?_
  obtain ⟨field, -, rfl⟩ := List.mem_map.mp hform
  refine Json.isKept_object ?_
  simpa using ⟨Json.isKept_string field.1, DeclaredType.isKept_toForm field.2⟩

/-- The form of a schema is read as the schema, inside a type or not. -/
theorem readSchema_toForm {schema : RecordSchema} (h : schema.HasDistinctNames) (inner : Bool) :
    DeclaredType.readSchema inner schema.toForm = .ok schema :=
  DeclaredType.readSchema_toForm_of_fields h.names_nodup fun _ hmem =>
    DeclaredType.read_toForm (h.of_field hmem) inner

end Schema

namespace DeclaredType

/-! ## Texts -/

/-- Types and schemas in which no name comes twice come back from their written forms as they were. A
text that has a repeated name or a pattern that is not accepted where a type or a schema is to be read,
at any depth, is refused, and what is not refused is valid at any depth. -/
theorem written_catalog :
    (∀ type : DeclaredType, type.HasDistinctNames → type.toForm.nesting ≤ Json.nestingLimit →
      ofText (String.ofList type.toForm.text) = .ok type) ∧
    (∀ schema : RecordSchema, schema.HasDistinctNames → schema.toForm.nesting ≤ Json.nestingLimit →
      Schema.ofText (String.ofList schema.toForm.text) = .ok schema) ∧
    (∀ (text : String) (form : Json), Json.read? Json.nestingLimit text.toList = some form →
      (Flawed .type form → ∃ e, ofText text = .error e) ∧
      (Flawed .schema form → ∃ e, Schema.ofText text = .error e)) ∧
    (∀ (text : String) (type : DeclaredType), ofText text = .ok type →
      type.HasDistinctNames ∧ ∀ format, type.HoldsFormat format →
        TemporalFormat.ofPattern? format.pattern = some format) ∧
    (∀ (text : String) (schema : RecordSchema), Schema.ofText text = .ok schema →
      schema.HasDistinctNames ∧ ∀ format, schema.HoldsFormat format →
        TemporalFormat.ofPattern? format.pattern = some format) := by
  refine ⟨?types, ?schemas, ?flawed, ?validType, ?validSchema⟩
  case types =>
    intro type hnames hnesting
    rw [ofText, Json.readAs_text ofForm (isKept_toForm type) hnesting]
    exact read_toForm hnames false
  case schemas =>
    intro schema hnames hnesting
    rw [Schema.ofText, Json.readAs_text Schema.ofForm schema.isKept_toForm hnesting]
    exact Schema.readSchema_toForm hnames false
  case flawed =>
    intro text form hform
    refine ⟨fun hflawed => ?_, fun hflawed => ?_⟩
    · refine Json.exists_readAs_eq_error hform fun type htype => ?_
      exact hflawed.not_accepted ⟨false, type, htype⟩
    · refine Json.exists_readAs_eq_error hform fun schema hschema => ?_
      exact hflawed.not_accepted ⟨false, schema, hschema⟩
  case validType =>
    intro text type htext
    obtain ⟨form, htype⟩ := Json.exists_of_readAs htext
    exact ⟨hasDistinctNames_of_read htype, fun format _ => format.ofPattern?_pattern⟩
  case validSchema =>
    intro text schema htext
    obtain ⟨form, hschema⟩ := Json.exists_of_readAs htext
    exact ⟨hasDistinctNames_of_readSchema hschema, fun format _ => format.ofPattern?_pattern⟩

/-- A choice between a date and a record with a date. -/
def nestedDates : DeclaredType :=
  choice [date (some .isoDate), record (some ⟨[("day", date (some .isoDate)), ("n", int)]⟩)]

/-- A schema inside a choice comes back, and an unknown specifier or a repeated name is refused. -/
theorem written_catalog_nestedDates :
    ofText (String.ofList nestedDates.toForm.text) = .ok nestedDates ∧
    Schema.ofText (String.ofList (Schema.toForm ⟨[("choice", nestedDates)]⟩).text) =
      .ok ⟨[("choice", nestedDates)]⟩ ∧
    (∃ e, ofText "\x7b\"type\":\"Choice\",\"candidates\":[[\"Date\",\"%Q\"]]\x7d" = .error e) ∧
    ∃ e, Schema.ofText "\x7b\"fields\":[[\"a\",[\"Any\"]],[\"a\",[\"Int\"]]]\x7d" = .error e := by
  obtain ⟨htypes, hschemas, hflawed, -, -⟩ := written_catalog
  have hread : readSchema true (Schema.toForm ⟨[("choice", nestedDates)]⟩) =
      .ok ⟨[("choice", nestedDates)]⟩ := rfl
  have hnames := hasDistinctNames_of_readSchema hread
  refine ⟨htypes _ (hnames.of_field (.head _)) (by decide), hschemas _ hnames (by decide), ?_, ?_⟩
  · have hcandidate : Flawed .type (.array [.string "Date", .string "%Q"]) :=
      .format (.item rfl) rfl rfl (.item rfl) (by decide)
    refine (hflawed _ (.object [("type", .string "Choice"), ("candidates",
      .array [.array [.string "Date", .string "%Q"]])]) (by rfl)).1 ?_
    exact .candidate (.member (.head _)) rfl (.member (.tail _ (.head _))) (.head _) hcandidate
  · refine (hflawed _ (.object [("fields", .array [.array [.string "a", .array [.string "Any"]],
      .array [.string "a", .array [.string "Int"]]])]) (by rfl)).2 ?_
    exact .name (.member (.head _)) Nat.zero_lt_one rfl rfl (.item rfl) (.item rfl)

end DeclaredType

end RecordCoercion
