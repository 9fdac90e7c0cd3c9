import RecordCoercion.Conversion.Basic

/-!
# Families of declared types

The seven numeric types differ only in their `NumericKind` and the three temporal types only in
their `TemporalKind` and format. `NumericKind.type` and `TemporalKind.type` name these types, so that
what holds of a family is stated once, and `DeclaredType.familyInduction` is the induction over types
that has one case for each family (`DeclaredType.familyCases` if no case needs the others). After it
come the equations of `accepts` and `convert`, one for each family; nothing outside this file needs to
unfold the two functions.
-/

set_option autoImplicit false

namespace RecordCoercion

/-- The declared type of a kind of numbers. -/
def NumericKind.type : NumericKind → DeclaredType
  | byte => .byte
  | short => .short
  | int => .int
  | long => .long
  | bigInt => .bigInt
  | float => .float
  | double => .double

/-- The declared type of a kind of points in time with a format. -/
def TemporalKind.type : TemporalKind → Option TemporalFormat → DeclaredType
  | date, format => .date format
  | time, format => .time format
  | timestamp, format => .timestamp format

/-- The type of a kind of numbers has this kind. -/
@[simp] theorem NumericKind.kind_type (kind : NumericKind) : kind.type.kind = kind.kind := by
  cases kind <;> rfl

/-- The type of a kind of points in time has this kind, whatever its format. -/
@[simp] theorem TemporalKind.kind_type (kind : TemporalKind) (format : Option TemporalFormat) :
    (kind.type format).kind = kind.kind := by
  cases kind <;> rfl

/-- The effective format of a temporal type is its own, or else the default one of its kind. -/
theorem FormatDefaults.effective?_temporal (defaults : FormatDefaults) (kind : TemporalKind)
    (format : Option TemporalFormat) :
    defaults.effective? (kind.type format) = format.or (defaults.format? kind.kind) := by
  cases kind <;> rfl

/-- A kind of numbers is a single kind, and no kind of points in time. -/
theorem NumericKind.isComposite_kind (kind : NumericKind) :
    kind.kind.isComposite = false ∧ kind.kind.isTemporal = false := by
  cases kind <;> exact ⟨rfl, rfl⟩

/-- A kind of points in time is a single kind. -/
theorem TemporalKind.isComposite_kind (kind : TemporalKind) :
    kind.kind.isComposite = false ∧ kind.kind.isTemporal = true := by
  cases kind <;> exact ⟨rfl, rfl⟩

namespace DeclaredType

/-- A temporal type is one of the three. -/
theorem exists_temporal {type : DeclaredType} (h : type.kind.isTemporal = true) :
    ∃ (kind : TemporalKind) (format : Option TemporalFormat), type = kind.type format := by
  cases type
  case date format => exact ⟨.date, format, rfl⟩
  case time format => exact ⟨.time, format, rfl⟩
  case timestamp format => exact ⟨.timestamp, format, rfl⟩
  all_goals cases h

/-- Induction over types with one case for each family. A record type has what holds for the types
of all its fields to build on, and a choice what holds for all its candidates. -/
theorem familyInduction {motive : DeclaredType → Prop} (boolean : motive .boolean)
    (numeric : ∀ kind : NumericKind, motive kind.type) (char : motive .char)
    (string : ∀ format, motive (.string format))
    (temporal : ∀ (kind : TemporalKind) (format : Option TemporalFormat), motive (kind.type format))
    (array : motive .array) (map : motive .map) (bareRecord : motive (.record none))
    (record : ∀ schema : RecordSchema, (∀ field ∈ schema.fields, motive field.2) →
      motive (.record (some schema)))
    (choice : ∀ candidates : List DeclaredType, (∀ candidate ∈ candidates, motive candidate) →
      motive (.choice candidates))
    (type : DeclaredType) : motive type := by
  -- the recursor wants a motive for each type on the way: schemas, their fields and lists of types
  refine @DeclaredType.rec motive
    (fun schema => ∀ s, schema = some s → ∀ field ∈ s.fields, motive field.2)
    (fun candidates => ∀ candidate ∈ candidates, motive candidate)
    (fun schema => ∀ field ∈ schema.fields, motive field.2)
    (fun fields => ∀ field ∈ fields, motive field.2)
    (fun field => motive field.2)
    boolean (numeric .byte) (numeric .short) (numeric .int) (numeric .long) (numeric .bigInt)
    (numeric .float) (numeric .double) char string (temporal .date) (temporal .time)
    (temporal .timestamp) array map ?_ choice ?_ ?_ ?_ ?_ ?_ ?_ ?_ ?_ type
  · intro schema ih
    cases schema with
    | none => exact bareRecord
    | some schema => exact record schema (ih schema rfl)
  · intro s hs
    cases hs
  · rintro schema ih s ⟨rfl⟩
    exact ih
  · intro candidate hmem
    cases hmem
  · intro head tail hhead htail
    exact List.forall_mem_cons.mpr ⟨hhead, htail⟩
  · intro fields ih
    exact ih
  · intro field hmem
    cases hmem
  · intro head tail hhead htail
    exact List.forall_mem_cons.mpr ⟨hhead, htail⟩
  · intro name type ih
    exact ih

/-- The cases of a type, one for each family, for what does not depend on the types inside it. -/
theorem familyCases {motive : DeclaredType → Prop} (boolean : motive .boolean)
    (numeric : ∀ kind : NumericKind, motive kind.type) (char : motive .char)
    (string : ∀ format, motive (.string format))
    (temporal : ∀ (kind : TemporalKind) (format : Option TemporalFormat), motive (kind.type format))
    (array : motive .array) (map : motive .map)
    (record : ∀ schema : Option RecordSchema, motive (.record schema))
    (choice : ∀ candidates : List DeclaredType, motive (.choice candidates))
    (type : DeclaredType) : motive type :=
  familyInduction boolean numeric char string temporal array map (record none)
    (fun schema _ => record (some schema)) (fun candidates _ => choice candidates) type

/-- Text is to be written in a format by a type: by the type itself, by the type of one of its fields
or by one of its candidates, at any depth. -/
inductive HoldsTextFormat (format : TemporalFormat) : DeclaredType → Prop
  | here : HoldsTextFormat format (.string (some format))
  | field {schema : RecordSchema} {name : String} {type : DeclaredType}
      (hmem : (name, type) ∈ schema.fields) (h : HoldsTextFormat format type) :
      HoldsTextFormat format (.record (some schema))
  | candidate {candidates : List DeclaredType} {type : DeclaredType} (hmem : type ∈ candidates)
      (h : HoldsTextFormat format type) : HoldsTextFormat format (.choice candidates)

/-- All formats in which a type may write text can write. -/
def WritesText (type : DeclaredType) : Prop :=
  ∀ format, type.HoldsTextFormat format → format.isRenderable = true

/-- The candidates of a choice that writes text write text. -/
theorem WritesText.of_candidate {candidates : List DeclaredType} {type : DeclaredType}
    (h : WritesText (.choice candidates)) (hmem : type ∈ candidates) : type.WritesText :=
  fun format hformat => h format (.candidate hmem hformat)

end DeclaredType

/-! ## Null -/

namespace Value

/-- The test for null is true of null alone. -/
theorem isNull_iff (v : Value) : v.isNull = true ↔ v = .null := by
  cases v <;> simp [isNull]

/-- A value with a kind is not null. -/
theorem ne_null_of_kind? {v : Value} {kind : FieldKind} (h : v.kind? = some kind) : v ≠ .null := by
  rintro rfl
  cases h

/-- A value of the kind of records is a record. -/
theorem exists_of_kind?_record {v : Value} (h : v.kind? = some .record) :
    ∃ schema members, v = .record schema members := by
  cases v <;> cases h
  exact ⟨_, _, rfl⟩

/-- A value of the kind of maps is a map. -/
theorem exists_of_kind?_map {v : Value} (h : v.kind? = some .map) : ∃ entries, v = .map entries := by
  cases v <;> cases h
  exact ⟨_, rfl⟩

end Value

section

variable (defaults : FormatDefaults)

/-- Null converts to every type and stays null. -/
@[simp] theorem convert_null (type : DeclaredType) (field : String) :
    convert defaults type .null field = .ok .null := by
  rw [convert.eq_def]
  exact if_pos rfl

/-- No type accepts null. -/
@[simp] theorem accepts_null (type : DeclaredType) : accepts defaults type .null = false := by
  rw [accepts.eq_def]
  rfl

/-- A value that a type accepts is not null. -/
theorem ne_null_of_accepts {defaults : FormatDefaults} {type : DeclaredType} {v : Value}
    (h : accepts defaults type v = true) : v ≠ .null := by
  rintro rfl
  simp at h

/-! ## Looking up types -/

/-- The conversion of a member is the one to the type of its field. -/
theorem memberConversion?_eq (schema : RecordSchema) (name : String) :
    memberConversion? defaults schema.fields name =
      (schema.typeOf? name).map (convert defaults) := by
  obtain ⟨fields⟩ := schema
  simp only [Schema.typeOf?]
  induction fields with
  | nil => rfl
  | cons head rest ih =>
    obtain ⟨key, type⟩ := head
    by_cases h : key = name
    · simp [memberConversion?, h]
    · have hne : (name == key) = false := by simpa using Ne.symm h
      simp [memberConversion?, List.lookup_cons, h, hne, ih]

/-- A type that a schema gives for a name is that of one of its fields. -/
theorem mem_fields_of_typeOf? {schema : RecordSchema} {name : String} {type : DeclaredType}
    (h : schema.typeOf? name = some type) : (name, type) ∈ schema.fields := by
  obtain ⟨before, after, heq, -⟩ := List.lookup_eq_some_iff.mp h
  rw [heq]
  simp

/-- The conversion of a value to one of several types is the one to the first that accepts it. -/
theorem candidateConversion?_eq (candidates : List DeclaredType) (v : Value) :
    candidateConversion? defaults candidates v =
      (candidates.find? fun candidate => accepts defaults candidate v).map
        fun candidate => convert defaults candidate v := by
  induction candidates with
  | nil => rfl
  | cons type rest ih =>
    cases h : accepts defaults type v <;> simp [candidateConversion?, h, ih]

/-- Whether some candidate accepts a value is asked of one candidate after the other. -/
theorem someAccepts_eq (candidates : List DeclaredType) (v : Value) :
    someAccepts defaults candidates v =
      candidates.any fun candidate => accepts defaults candidate v := by
  induction candidates with
  | nil => rfl
  | cons type rest ih => rw [someAccepts, ih, List.any_cons]

/-- The candidate that is chosen is the first one that accepts the value. -/
theorem choose?_map_snd (candidates : List DeclaredType) (v : Value) :
    (choose? defaults (.choice candidates) v).map (·.2) =
      candidates.find? fun candidate => accepts defaults candidate v := by
  -- positions are counted along, so the induction is for every first position
  have search : ∀ start : Nat,
      ((candidates.zipIdx start).find? fun entry => accepts defaults entry.1 v).map (·.1) =
        candidates.find? fun candidate => accepts defaults candidate v := by
    induction candidates with
    | nil => intro start; rfl
    | cons type rest ih =>
      intro start
      cases h : accepts defaults type v
      · simpa [List.zipIdx_cons, h] using ih (start + 1)
      · simp [List.zipIdx_cons, h]
  rw [← search 0, choose?, Option.map_map]
  rfl

/-- The search for a candidate that accepts a value finds the chosen one. -/
theorem find?_of_choose? {candidates : List DeclaredType} {v : Value} {index : Nat}
    {candidate : DeclaredType}
    (h : choose? defaults (.choice candidates) v = some (index, candidate)) :
    (candidates.find? fun candidate => accepts defaults candidate v) = some candidate := by
  rw [← choose?_map_snd, h, Option.map_some]

/-- The chosen candidate is one of the candidates and accepts the value. -/
theorem accepts_of_choose? {candidates : List DeclaredType} {v : Value} {index : Nat}
    {candidate : DeclaredType}
    (h : choose? defaults (.choice candidates) v = some (index, candidate)) :
    candidate ∈ candidates ∧ accepts defaults candidate v = true := by
  have hfind := find?_of_choose? defaults h
  exact ⟨List.mem_of_find?_eq_some hfind, by simpa using List.find?_some hfind⟩

/-- Either a candidate is chosen or none of them accepts the value. -/
theorem choose?_cases (candidates : List DeclaredType) (v : Value) :
    (∃ index candidate, choose? defaults (.choice candidates) v = some (index, candidate)) ∨
      ∀ candidate ∈ candidates, accepts defaults candidate v = false := by
  cases hchosen : choose? defaults (.choice candidates) v with
  | some chosen => exact .inl ⟨chosen.1, chosen.2, rfl⟩
  | none =>
    have hfind : (candidates.find? fun candidate => accepts defaults candidate v) = none := by
      rw [← choose?_map_snd, hchosen, Option.map_none]
    exact .inr (by simpa using hfind)

/-! ## Acceptance by family -/

variable {v : Value} (hv : v ≠ .null)

include hv

/-- The test for null is false of every other value. -/
theorem Value.isNull_eq_false : v.isNull = false := by
  rw [Bool.eq_false_iff, ne_eq, Value.isNull_iff]
  exact hv

section

-- the two functions unfold in the equations of the families and nowhere else
attribute [local simp] accepts convert

/-- The type of truth values accepts them and their literals. -/
theorem accepts_boolean : accepts defaults .boolean v = acceptsBoolean v := by
  simp [Value.isNull_eq_false hv]

/-- A numeric type accepts what its kind of numbers accepts. -/
theorem accepts_numeric (kind : NumericKind) :
    accepts defaults kind.type v = kind.accepts v := by
  cases kind <;> simp [NumericKind.type, Value.isNull_eq_false hv]

/-- The type of characters accepts them and texts that have one. -/
theorem accepts_char : accepts defaults .char v = acceptsChar v := by
  simp [Value.isNull_eq_false hv]

/-- Every value but null is accepted as text. -/
theorem accepts_string (format : Option TemporalFormat) :
    accepts defaults (.string format) v = true := by
  simp [Value.isNull_eq_false hv]

/-- A temporal field accepts by its own format, or else by the default one of its kind. -/
theorem accepts_temporal (kind : TemporalKind) (format : Option TemporalFormat) :
    accepts defaults (kind.type format) v =
      TemporalKind.accepts (format.or (defaults.format? kind.kind)) v := by
  cases kind <;>
    simp [TemporalKind.type, TemporalKind.kind, FormatDefaults.format?,
      Value.isNull_eq_false hv]

/-- The type of arrays accepts arrays only. -/
theorem accepts_array : accepts defaults .array v = (v.kind? == some .array) := by
  simp [Value.isNull_eq_false hv]

/-- The type of maps accepts maps only. -/
theorem accepts_map : accepts defaults .map v = (v.kind? == some .map) := by
  simp [Value.isNull_eq_false hv]

/-- A record field accepts records, whatever its schema. -/
theorem accepts_record (schema : Option RecordSchema) :
    accepts defaults (.record schema) v = (v.kind? == some .record) := by
  simp [Value.isNull_eq_false hv]

/-- A choice accepts what one of its candidates accepts. -/
theorem accepts_choice (candidates : List DeclaredType) :
    accepts defaults (.choice candidates) v =
      candidates.any fun candidate => accepts defaults candidate v := by
  simp [Value.isNull_eq_false hv, someAccepts_eq]

/-! ## Conversion by family -/

/-- The conversion to truth values, with the field told of a failure. -/
theorem convert_boolean (field : String) :
    convert defaults .boolean v field = settled v .boolean field (toBoolean v) := by
  simp [Value.isNull_eq_false hv]

/-- The conversion to a numeric type is that of its kind of numbers, with the field told of a failure. -/
theorem convert_numeric (kind : NumericKind) (field : String) :
    convert defaults kind.type v field = settled v kind.kind field (kind.convert v) := by
  cases kind <;> simp [NumericKind.type, NumericKind.kind, Value.isNull_eq_false hv]

/-- The conversion to characters, with the field told of a failure. -/
theorem convert_char (field : String) :
    convert defaults .char v field = settled v .char field (toChar v) := by
  simp [Value.isNull_eq_false hv]

/-- The conversion to text does not depend on the field, since it never fails. -/
theorem convert_string (format : Option TemporalFormat) (field : String) :
    convert defaults (.string format) v field = toText format v := by
  simp [Value.isNull_eq_false hv]

/-- Conversion to a point in time, with the default format of the kind if the type has none. -/
theorem convert_temporal (kind : TemporalKind) (format : Option TemporalFormat) (field : String) :
    convert defaults (kind.type format) v field =
      settled v kind.kind field (kind.convert (format.or (defaults.format? kind.kind)) v) := by
  cases kind <;>
    simp [TemporalKind.type, TemporalKind.kind, FormatDefaults.format?,
      Value.isNull_eq_false hv]

/-- The conversion to arrays, with the field told of a failure. -/
theorem convert_array (field : String) :
    convert defaults .array v field = settled v .array field (toArray v) := by
  simp [Value.isNull_eq_false hv]

/-- The conversion to maps, with the field told of a failure. -/
theorem convert_map (field : String) :
    convert defaults .map v field = settled v .map field (toMap v) := by
  simp [Value.isNull_eq_false hv]

end

/-- A value that no candidate accepts does not convert to a choice. -/
theorem convert_choice_of_forall {candidates : List DeclaredType}
    (h : ∀ candidate ∈ candidates, accepts defaults candidate v = false) (field : String) :
    convert defaults (.choice candidates) v field =
      .error (.failed
        ⟨v, .choice, field, .noMatchingCandidate (candidates.map DeclaredType.display)⟩) := by
  have hfind : (candidates.find? fun candidate => accepts defaults candidate v) = none := by
    simpa using h
  rw [convert, candidateConversion?_eq, Value.isNull_eq_false hv, hfind]
  rfl

/-- What is neither a record nor a map does not become a record. -/
theorem convert_record_of_other (schema : Option RecordSchema) (hmap : v.kind? ≠ some .map)
    (hrecord : v.kind? ≠ some .record) (field : String) :
    convert defaults (.record schema) v field =
      .error (.failed ⟨v, .record, field, .incompatible⟩) := by
  cases schema <;> cases v <;> simp_all [convert, Value.isNull, Value.kind?, settled]

omit hv

/-- Conversion to a choice is the one to the chosen candidate. -/
theorem convert_choice_of_choose? {candidates : List DeclaredType} {index : Nat}
    {candidate : DeclaredType}
    (h : choose? defaults (.choice candidates) v = some (index, candidate)) (field : String) :
    convert defaults (.choice candidates) v field = convert defaults candidate v field := by
  have hv : v ≠ .null := ne_null_of_accepts (accepts_of_choose? defaults h).2
  rw [convert, candidateConversion?_eq, Value.isNull_eq_false hv, find?_of_choose? defaults h]
  rfl

/-- A record stays as it is, with the schema it has, whatever schema is asked for. -/
theorem convert_record_of_record (schema : Option RecordSchema) (bound : RecordSchema)
    (members : Members) (field : String) :
    convert defaults (.record schema) (.record bound members) field =
      .ok (.record bound members) := by
  cases schema <;> rfl

/-- A map becomes no record without a schema. -/
theorem convert_bareRecord_of_map (entries : Entries) (field : String) :
    convert defaults (.record none) (.map entries) field =
      .error (.failed ⟨.map entries, .record, field, .missingSchema⟩) := rfl

/-- A map becomes a record of the members that its entries become. -/
theorem convert_record_of_map (schema : RecordSchema) (entries : Entries) (field : String) :
    convert defaults (.record (some schema)) (.map entries) field =
      (convertEntries (fun name => (schema.typeOf? name).map (convert defaults)) field []
        entries).map (.record schema) := by
  rw [← funext (memberConversion?_eq defaults schema)]
  rfl

end

/-! ## Settled conversions -/

/-- A conversion that is told of in a field gives the value that it gives by itself. -/
@[simp] theorem settled_eq_ok_iff {v w : Value} {target : FieldKind} {field : String}
    {result : Except Reason Value} : settled v target field result = .ok w ↔ result = .ok w := by
  cases result <;> simp [settled]

end RecordCoercion
