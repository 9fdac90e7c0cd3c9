import RecordCoercion.Proofs.Catalog.SameType
import RecordCoercion.Proofs.Value.DistinctKeys

/-!
# Well-formed values

What no sequence of insertions can leave and no schema that was built can be is left out by
`Value.IsWellFormed`: no key comes twice in a map or a record, and no name in a schema, at any depth and
inside the keys of maps too. The parts of a well-formed value are well formed.
-/

set_option autoImplicit false

namespace RecordCoercion.Value

/-- A record in a value is bound to a schema. It may be at any depth and inside the keys of maps. -/
inductive HoldsSchema (schema : RecordSchema) : Value → Prop
  | here {members : Members} : HoldsSchema schema (.record schema members)
  | item {items : List Value} {item : Value} (hmem : item ∈ items) (h : HoldsSchema schema item) :
      HoldsSchema schema (.array items)
  | key {entries : Entries} {entry : Value × Value} (hmem : entry ∈ entries)
      (h : HoldsSchema schema entry.1) : HoldsSchema schema (.map entries)
  | value {entries : Entries} {entry : Value × Value} (hmem : entry ∈ entries)
      (h : HoldsSchema schema entry.2) : HoldsSchema schema (.map entries)
  | member {bound : RecordSchema} {members : Members} {member : String × Value}
      (hmem : member ∈ members) (h : HoldsSchema schema member.2) :
      HoldsSchema schema (.record bound members)

/-- No key comes twice in a map or a record that a value is made of, and no name in a schema. -/
structure IsWellFormed (v : Value) : Prop where
  distinctKeys : v.HasDistinctKeys
  distinctNames : ∀ schema, v.HoldsSchema schema → schema.HasDistinctNames

namespace IsWellFormed

/-- The items of a well-formed array are well-formed. -/
theorem of_item {items : List Value} (h : IsWellFormed (.array items)) {item : Value}
    (hmem : item ∈ items) : item.IsWellFormed :=
  ⟨h.distinctKeys.of_item hmem, fun schema hschema => h.distinctNames schema (.item hmem hschema)⟩

section

variable {entries : Entries} (h : IsWellFormed (.map entries))

include h

/-- No key comes twice in a well-formed map. -/
theorem distinct_entries : Ordered.Distinct keyEq entries := h.distinctKeys.distinct_of_map

variable {entry : Value × Value} (hmem : entry ∈ entries)

include hmem

/-- The keys of a well-formed map are well-formed. -/
theorem of_key : entry.1.IsWellFormed :=
  ⟨h.distinctKeys.of_key hmem, fun schema hschema => h.distinctNames schema (.key hmem hschema)⟩

/-- The values of a well-formed map are well-formed. -/
theorem of_value : entry.2.IsWellFormed :=
  ⟨h.distinctKeys.of_entry hmem, fun schema hschema => h.distinctNames schema (.value hmem hschema)⟩

end

section

variable {schema : RecordSchema} {members : Members} (h : IsWellFormed (.record schema members))

include h

/-- No name comes twice in the schema of a well-formed record. -/
theorem schema_distinctNames : schema.HasDistinctNames := h.distinctNames schema .here

/-- No name comes twice in a well-formed record. -/
theorem distinct_members : Ordered.Distinct (· == ·) members := h.distinctKeys.distinct_of_record

/-- The members of a well-formed record are well-formed. -/
theorem of_member {member : String × Value} (hmem : member ∈ members) : member.2.IsWellFormed :=
  ⟨h.distinctKeys.of_member hmem,
    fun schema hschema => h.distinctNames schema (.member hmem hschema)⟩

end

end IsWellFormed

/-- A value that is not made of others is well-formed. -/
theorem isWellFormed_of_single {v : Value}
    (h : ∀ kind, v.kind? = some kind → kind.isComposite = false) : v.IsWellFormed := by
  refine ⟨.single h, ?_⟩
  rintro schema (_ | _ | _ | _ | _)
  · cases h .record rfl
  · cases h .array rfl
  · cases h .map rfl
  · cases h .map rfl
  · cases h .record rfl

/-- An array is well-formed exactly if its items are. -/
theorem isWellFormed_array_iff {items : List Value} :
    IsWellFormed (.array items) ↔ ∀ item ∈ items, item.IsWellFormed := by
  constructor
  · exact fun h item hmem => h.of_item hmem
  · intro h
    refine ⟨.array fun item hmem => (h item hmem).distinctKeys, ?_⟩
    rintro schema (_ | ⟨hmem, hschema⟩)
    exact (h _ hmem).distinctNames schema hschema

/-- A map is well-formed exactly if its keys are distinct and its keys and values well-formed. -/
theorem isWellFormed_map_iff {entries : Entries} :
    IsWellFormed (.map entries) ↔ Ordered.Distinct keyEq entries ∧
      ∀ entry ∈ entries, entry.1.IsWellFormed ∧ entry.2.IsWellFormed := by
  constructor
  · exact fun h => ⟨h.distinct_entries, fun entry hmem => ⟨h.of_key hmem, h.of_value hmem⟩⟩
  · rintro ⟨hdistinct, h⟩
    refine ⟨.map hdistinct (fun entry hmem => (h entry hmem).1.distinctKeys)
      fun entry hmem => (h entry hmem).2.distinctKeys, ?_⟩
    rintro schema (_ | _ | ⟨hmem, hschema⟩ | ⟨hmem, hschema⟩)
    · exact (h _ hmem).1.distinctNames schema hschema
    · exact (h _ hmem).2.distinctNames schema hschema

/-- A record is well-formed exactly if the names of its schema and its members are distinct and its
members well-formed. -/
theorem isWellFormed_record_iff {schema : RecordSchema} {members : Members} :
    IsWellFormed (.record schema members) ↔ schema.HasDistinctNames ∧
      Ordered.Distinct (· == ·) members ∧ ∀ member ∈ members, member.2.IsWellFormed := by
  constructor
  · exact fun h => ⟨h.schema_distinctNames, h.distinct_members, fun member hmem => h.of_member hmem⟩
  · rintro ⟨hschema, hdistinct, h⟩
    refine ⟨.record hdistinct fun member hmem => (h member hmem).distinctKeys, ?_⟩
    rintro schema' (_ | _ | _ | _ | ⟨hmem, hinner⟩)
    · exact hschema
    · exact (h _ hmem).distinctNames schema' hinner

end RecordCoercion.Value
