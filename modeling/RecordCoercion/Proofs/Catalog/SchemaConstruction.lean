import RecordCoercion.Catalog.DeclaredType
import RecordCoercion.Proofs.Value.Comparison

/-!
# Building schemas

A schema is built field by field, and the step (`Schema.add`) fails exactly if the name is taken. The
invariant that carries the run (`Schema.foldlM_add`) is that the names of the schema so far are the
names seen so far. So a list of fields makes a schema exactly if its names are distinct, the schema
has the fields of the list as they come, and otherwise the error names the first field that repeats
an earlier one.
-/

set_option autoImplicit false

namespace RecordCoercion

/-! ## The first repeated name -/

/-- A name is the one that the first item of a list to repeat an earlier one has. -/
def FirstRepeats (name : String) (names : List String) : Prop :=
  ∃ before after, names = before ++ name :: after ∧ before.Nodup ∧ name ∈ before

/-- The repeated name that is found is the first that is among the names before it or in `seen`. -/
theorem firstRepeated?_eq_some_iff (seen names : List String) (name : String) :
    firstRepeated? seen names = some name ↔
      ∃ before after, names = before ++ name :: after ∧
        (before.Nodup ∧ ∀ earlier ∈ before, earlier ∉ seen) ∧ (name ∈ seen ∨ name ∈ before) := by
  induction names generalizing seen with
  | nil => simp [firstRepeated?]
  | cons first rest ih =>
    unfold firstRepeated?
    by_cases hseen : first ∈ seen
    · rw [if_pos hseen, Option.some_inj]
      constructor
      · rintro rfl
        exact ⟨[], rest, rfl, by simp, .inl hseen⟩
      · rintro ⟨before, after, heq, ⟨-, hnew⟩, -⟩
        cases before with
        | nil => exact (List.cons.inj heq).1
        | cons earlier before =>
          obtain ⟨rfl, -⟩ := List.cons.inj heq
          exact absurd hseen (hnew first List.mem_cons_self)
    · rw [if_neg hseen, ih]
      constructor
      · rintro ⟨before, after, rfl, ⟨hnodup, hnew⟩, hname⟩
        refine ⟨first :: before, after, rfl, ⟨?_, ?_⟩, ?_⟩
        · exact List.nodup_cons.mpr ⟨fun h => hnew first h List.mem_cons_self, hnodup⟩
        · intro earlier hmem hold
          rcases List.mem_cons.mp hmem with rfl | hmem
          · exact hseen hold
          · exact hnew earlier hmem (List.mem_cons_of_mem _ hold)
        · simp only [List.mem_cons] at hname ⊢
          tauto
      · rintro ⟨before, after, heq, ⟨hnodup, hnew⟩, hname⟩
        cases before with
        | nil =>
          obtain ⟨rfl, -⟩ := List.cons.inj heq
          simp [hseen] at hname
        | cons earlier before =>
          obtain ⟨rfl, rfl⟩ := List.cons.inj heq
          obtain ⟨hfirst, hnodup⟩ := List.nodup_cons.mp hnodup
          refine ⟨before, after, rfl, ⟨hnodup, ?_⟩, ?_⟩
          · intro earlier hmem hold
            rcases List.mem_cons.mp hold with rfl | hold
            · exact hfirst hmem
            · exact hnew earlier (List.mem_cons_of_mem _ hmem) hold
          · simp only [List.mem_cons] at hname ⊢
            tauto

/-- Without names seen before, the name that is found is that of the first repetition. -/
theorem firstRepeated?_nil_eq_some_iff (names : List String) (name : String) :
    firstRepeated? [] names = some name ↔ FirstRepeats name names := by
  simp [firstRepeated?_eq_some_iff, FirstRepeats]

namespace Schema

variable {α : Type}

/-! ## Looking up -/

/-- There is a field of a name exactly if the name is among those of the fields. -/
theorem contains_iff (schema : Schema α) (name : String) :
    schema.contains name = true ↔ name ∈ schema.names := by
  rw [contains, typeOf?, ← Ordered.get?_beq_eq_lookup, Ordered.isSome_get?, List.any_eq_true]
  simp [names]

/-- For a name that no field has no type is found. -/
theorem typeOf?_of_not_mem {schema : Schema α} {name : String} (h : name ∉ schema.names) :
    schema.typeOf? name = none := by
  rw [← contains_iff, contains, Option.not_isSome_iff_eq_none] at h
  exact h

/-- Among fields with distinct names the type that is found is that of the field of the name. -/
theorem typeOf?_eq_some_iff {schema : Schema α} (h : schema.names.Nodup) (name : String) (type : α) :
    schema.typeOf? name = some type ↔ (name, type) ∈ schema.fields := by
  rw [typeOf?, ← Ordered.get?_beq_eq_lookup]
  constructor
  · intro hget
    obtain ⟨key, hmem, hkey⟩ := Ordered.exists_mem_of_get?_eq_some hget
    rw [← beq_iff_eq.mp hkey]
    exact hmem
  · intro hmem
    exact Ordered.get?_of_mem Ordered.isEquiv_beq (Ordered.distinct_beq_iff.mpr h) hmem

/-! ## Adding fields -/

/-- A field whose name is taken is refused. -/
theorem add_of_mem {schema : Schema α} {field : String × α} (h : field.1 ∈ schema.names) :
    schema.add field = .error (.duplicateField field.1) := by
  rw [add, if_pos ((contains_iff _ _).mpr h)]

/-- A field with a new name goes to the end. -/
theorem add_of_not_mem {schema : Schema α} {field : String × α} (h : field.1 ∉ schema.names) :
    schema.add field = .ok ⟨schema.fields ++ [field]⟩ := by
  have hnew : ∀ earlier ∈ schema.fields, (earlier.1 == field.1) = false := by
    intro earlier hmem
    rw [beq_eq_false_iff_ne]
    intro heq
    apply h
    rw [← heq]
    exact List.mem_map_of_mem hmem
  rw [add, if_neg (mt (contains_iff _ _).mp h), Ordered.insert_of_forall_ne hnew]

/-- Adding fields in turn refuses the first whose name is taken by then, and otherwise leaves all of
them behind those before. -/
theorem foldlM_add {schema : Schema α} {seen : List String}
    (hseen : ∀ name, name ∈ seen ↔ name ∈ schema.names) (fields : List (String × α)) :
    fields.foldlM add schema =
      match firstRepeated? seen (fields.map (·.1)) with
      | some name => .error (.duplicateField name)
      | none => .ok ⟨schema.fields ++ fields⟩ := by
  induction fields generalizing schema seen with
  | nil => simp [firstRepeated?, pure, Except.pure]
  | cons field rest ih =>
    rw [List.foldlM_cons, List.map_cons, firstRepeated?]
    by_cases hfield : field.1 ∈ seen
    · rw [add_of_mem ((hseen _).mp hfield), if_pos hfield]
      rfl
    · have hadded : ∀ name, name ∈ field.1 :: seen ↔
          name ∈ (⟨schema.fields ++ [field]⟩ : Schema α).names := by
        intro name
        have := hseen name
        simp only [names, List.map_append, List.mem_append, List.mem_cons, List.map_cons,
          List.map_nil, List.not_mem_nil, or_false] at this ⊢
        tauto
      rw [add_of_not_mem (mt (hseen _).mpr hfield), if_neg hfield]
      change rest.foldlM add _ = _
      rw [ih hadded, List.append_assoc, List.singleton_append]

/-- Adding fields in turn to the schema without fields builds the schema of the list. -/
theorem foldlM_add_empty (fields : List (String × α)) :
    fields.foldlM add empty = ofFields fields := by
  have hseen : ∀ name, name ∈ ([] : List String) ↔ name ∈ (empty : Schema α).names := by
    simp [empty, names]
  rw [foldlM_add hseen, ofFields]
  cases firstRepeated? [] (fields.map (·.1)) <;> simp [empty]

/-! ## The schema of a list of fields -/

/-- A list of fields makes a schema exactly if the names are distinct, and then has its fields. -/
theorem ofFields_eq_ok_iff (fields : List (String × α)) (schema : Schema α) :
    ofFields fields = .ok schema ↔ (fields.map (·.1)).Nodup ∧ schema = ⟨fields⟩ := by
  have hnone := firstRepeated?_eq_none_iff [] (fields.map (·.1))
  unfold ofFields
  cases hrepeated : firstRepeated? [] (fields.map (·.1)) with
  | some name => simp_all
  | none => simp_all [eq_comm]

/-- A list of fields is refused exactly for the name of the first repetition. -/
theorem ofFields_eq_error_iff (fields : List (String × α)) (error : CatalogError) :
    ofFields fields = .error error ↔
      ∃ name, FirstRepeats name (fields.map (·.1)) ∧ error = .duplicateField name := by
  simp only [← firstRepeated?_nil_eq_some_iff]
  unfold ofFields
  cases hrepeated : firstRepeated? [] (fields.map (·.1)) with
  | some name => simp [eq_comm]
  | none => simp

end Schema

/-- A builder holds the fields that were added to it, in order. -/
theorem SchemaBuilder.fields_foldl {α : Type} (builder : SchemaBuilder α)
    (fields : List (String × α)) :
    (fields.foldl (fun builder f => builder.field f.1 f.2) builder).fields =
      builder.fields ++ fields := by
  induction fields generalizing builder with
  | nil => simp
  | cons f rest ih =>
    rw [List.foldl_cons, ih, SchemaBuilder.field, List.append_assoc, List.singleton_append]

/-- The ways to build a schema agree: field by field, from the list, and through a builder. A list of
fields makes a schema exactly if its names are distinct. The schema then has these names in order and
is as long as the list, and under a name it gives the type of the field of that name and none for any
other name. Otherwise the error has the name of the first field that repeats an earlier one. -/
theorem Schema.built_of_distinct_names {α : Type} (fields : List (String × α)) :
    (fields.foldlM Schema.add Schema.empty = Schema.ofFields fields ∧
      (fields.foldl (fun builder f => builder.field f.1 f.2) SchemaBuilder.empty).build =
        Schema.ofFields fields) ∧
    ((∃ schema, Schema.ofFields fields = .ok schema) ↔ (fields.map (·.1)).Nodup) ∧
    (∀ schema, Schema.ofFields fields = .ok schema →
      schema.names = fields.map (·.1) ∧ schema.size = fields.length ∧
        (∀ name type, schema.typeOf? name = some type ↔ (name, type) ∈ fields) ∧
        ∀ name, name ∉ fields.map (·.1) → schema.typeOf? name = none) ∧
    ∀ error, Schema.ofFields fields = .error error ↔
      ∃ name, FirstRepeats name (fields.map (·.1)) ∧ error = .duplicateField name := by
  refine ⟨⟨Schema.foldlM_add_empty fields, ?_⟩, ?_, ?_, Schema.ofFields_eq_error_iff fields⟩
  · rw [SchemaBuilder.build, SchemaBuilder.fields_foldl, SchemaBuilder.empty, List.nil_append]
  · simp only [Schema.ofFields_eq_ok_iff]
    exact ⟨fun ⟨_, h, _⟩ => h, fun h => ⟨_, h, rfl⟩⟩
  · intro schema hschema
    obtain ⟨hnodup, rfl⟩ := (Schema.ofFields_eq_ok_iff fields schema).mp hschema
    refine ⟨rfl, rfl, ?_, ?_⟩
    · intro name type
      exact Schema.typeOf?_eq_some_iff hnodup name type
    · intro name hname
      exact Schema.typeOf?_of_not_mem hname

/-- Case counts, and the first repetition is reported, not the first of the names that are repeated. -/
example : Schema.ofFields [("a", 1), ("A", 2), ("b", 3), ("b", 4), ("a", 5)] =
    .error (.duplicateField "b") := by rfl

end RecordCoercion
