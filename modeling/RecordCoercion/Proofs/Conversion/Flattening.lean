import RecordCoercion.Proofs.Conversion.Location
import RecordCoercion.Proofs.Conversion.Repetition
import RecordCoercion.Proofs.Value.Comparison

/-!
# Records flattened to maps and back

A record becomes the map of the fields of its schema, whatever the order of its members
(`flattened_eq`, `flattened_perm`). All entries of this map are kept by the schema (`keptEntries_flattened`),
and a member that came out of a conversion to the type of its field is converted to itself, unless the
type is a choice (`convert_get_of_convert`). `convert_flattened_back` puts this together: nothing is lost on
the way to the map and back.
-/

set_option autoImplicit false

namespace RecordCoercion

/-! ## Fields by name -/

section

variable {schema : RecordSchema} (hnames : schema.names.Nodup)

include hnames

/-- The name of a field leads to the type of that field if no name is repeated. -/
theorem Schema.typeOf?_of_mem {f : String × DeclaredType} (hmem : f ∈ schema.fields) :
    schema.typeOf? f.1 = some f.2 := by
  rw [Schema.typeOf?, ← Ordered.get?_beq_eq_lookup]
  exact Ordered.get?_of_mem Ordered.isEquiv_beq (Ordered.distinct_beq_iff.mpr hnames) hmem

/-- A record becomes the map of the fields of its schema in their order. -/
theorem flattened_eq (members : Members) :
    flattened schema members = schema.names.map fun name => (.string name, members.get name) := by
  apply Ordered.ofList_of_distinct
  rw [Ordered.Distinct, List.map_map, List.pairwise_map]
  apply hnames.imp
  intro name other hne
  simpa [Value.keyEq] using hne

/-- All entries of a flattened record are kept. -/
theorem keptEntries_flattened (members : Members) :
    keptEntries schema (flattened schema members) =
      schema.fields.map fun f => ⟨f.1, f.2, members.get f.1⟩ := by
  rw [flattened_eq hnames, Schema.names, List.map_map, keptEntries, List.filterMap_map,
    ← List.filterMap_eq_map]
  apply List.filterMap_congr
  intro f hmem
  simp [kept?, Value.rendered?, Schema.typeOf?_of_mem hnames hmem]

end

/-- The order of the members of a record does not matter for the map. -/
theorem flattened_perm (schema : RecordSchema) {members others : Members}
    (hdistinct : Ordered.Distinct (· == ·) members) (hperm : members.Perm others) :
    flattened schema members = flattened schema others := by
  have hget : ∀ name, members.get name = others.get name := by
    intro name
    rw [Members.get, Members.find?, Ordered.get?_perm Ordered.isEquiv_beq hdistinct hperm]
    rfl
  simp only [flattened, hget]

/-- Members listed under names are found under these names only. -/
theorem Members.get_map (names : List String) (value : String → Value) (name : String) :
    Members.get (names.map fun other => (other, value other)) name =
      if name ∈ names then value name else .null := by
  induction names with
  | nil => rfl
  | cons other rest ih =>
    by_cases h : other = name
    · simp [Members.get, Members.find?, Ordered.get?, h]
    · simpa [Members.get, Members.find?, Ordered.get?, h, Ne.symm h] using ih

/-! ## There and back -/

section

variable {defaults : FormatDefaults} {schema : RecordSchema} {entries : Entries} {members : Members}
  {field : String}

/-- What a record that was a map has under a name came out of the conversion of a kept entry. -/
theorem exists_kept_of_find?
    (h : convert defaults (.record (some schema)) (.map entries) field = .ok (.record schema members))
    {name : String} {w : Value} (hfind : members.find? name = some w) :
    ∃ kept : KeptEntry, schema.typeOf? name = some kept.type ∧
      kept.convert defaults field = .ok w := by
  obtain ⟨value, hvalue, heq⟩ := exists_values_of_convert_map h
  obtain ⟨-, rfl⟩ := Value.record.inj heq
  obtain ⟨other, hmember, hname⟩ := Ordered.exists_mem_of_get?_eq_some hfind
  obtain ⟨kept, hkept, hpair⟩ := List.mem_map.mp (Ordered.mem_of_mem_ofList hmember)
  obtain ⟨rfl, rfl⟩ := Prod.mk.inj hpair
  obtain ⟨-, -, -, htype⟩ := mem_keptEntries.mp hkept
  refine ⟨kept, ?_, hvalue kept hkept⟩
  rw [← beq_iff_eq.mp hname, htype]

/-- The member of a field in a record that was a map is null or came out of a conversion to the type of
the field, so that it is converted to itself. -/
theorem convert_get_of_convert (hnames : schema.names.Nodup)
    (h : convert defaults (.record (some schema)) (.map entries) field = .ok (.record schema members))
    {f : String × DeclaredType} (hmem : f ∈ schema.fields) (hchoice : f.2.kind ≠ .choice)
    (label : String) : convert defaults f.2 (members.get f.1) label = .ok (members.get f.1) := by
  cases hfind : members.find? f.1 with
  | none => simp [Members.get, hfind]
  | some w =>
    obtain ⟨kept, htype, hw⟩ := exists_kept_of_find? h hfind
    rw [Schema.typeOf?_of_mem hnames hmem, Option.some.injEq] at htype
    rw [KeptEntry.convert, ← htype] at hw
    rw [Members.get, hfind, Option.getD_some]
    -- the label of the field plays no part in what comes out
    exact (hasOutcome defaults f.2 w).ok_all (convert_convert hchoice hw) label

/-- No member of a record that was a map is outside the schema. -/
theorem get_eq_null_of_not_mem
    (h : convert defaults (.record (some schema)) (.map entries) field = .ok (.record schema members))
    {name : String} (hname : name ∉ schema.names) : members.get name = .null := by
  cases hfind : members.find? name with
  | none => simp [Members.get, hfind]
  | some w =>
    obtain ⟨kept, htype, -⟩ := exists_kept_of_find? h hfind
    exact absurd (List.mem_map_of_mem (mem_fields_of_typeOf? htype)) hname

/-- Where every field is converted to itself, the map of a record becomes a record of all fields in their
order. -/
theorem convert_flattened (hnames : schema.names.Nodup)
    (hstable : ∀ f ∈ schema.fields, ∀ label,
      convert defaults f.2 (members.get f.1) label = .ok (members.get f.1)) :
    convert defaults (.record (some schema)) (.map (flattened schema members)) field =
      .ok (.record schema (schema.names.map fun name => (name, members.get name))) := by
  have hvalue : ∀ kept ∈ keptEntries schema (flattened schema members),
      kept.convert defaults field = .ok kept.value := by
    rw [keptEntries_flattened hnames, List.forall_mem_map]
    intro f hmem
    exact hstable f hmem _
  have hdistinct : Ordered.Distinct (· == ·)
      (schema.names.map fun name => (name, members.get name)) := by
    rw [Ordered.distinct_beq_iff]
    simpa [Function.comp_def] using hnames
  rw [convert_map_of_forall_ok hvalue, keptEntries_flattened hnames, List.map_map]
  have hnamed : schema.fields.map ((fun kept : KeptEntry => (kept.name, kept.value)) ∘
      fun f => ⟨f.1, f.2, members.get f.1⟩) =
        schema.names.map fun name => (name, members.get name) := by
    rw [Schema.names, List.map_map]
    rfl
  rw [hnamed, Members.ofList, Ordered.ofList_of_distinct hdistinct]

end

/-- A record that was a map and has no choice among its fields loses nothing on the way to a map and back.
It becomes the map of the fields of its schema in their order, with null where it holds no member, and
this map becomes a record of the schema that has the same under every name. The order of the members plays
no part. -/
theorem convert_flattened_back (defaults : FormatDefaults) (schema : RecordSchema)
    (hnames : schema.names.Nodup) (hchoice : ∀ f ∈ schema.fields, f.2.kind ≠ .choice)
    (entries : Entries) (field label : String) (bound : RecordSchema) (members : Members)
    (h : convert defaults (.record (some schema)) (.map entries) field =
      .ok (.record bound members)) :
    convert defaults .map (.record bound members) label =
        .ok (.map (schema.names.map fun name => (.string name, members.get name))) ∧
      (∃ back : Members,
        convert defaults (.record (some schema))
            (.map (schema.names.map fun name => (.string name, members.get name))) label =
          .ok (.record schema back) ∧
        ∀ name, back.get name = members.get name) ∧
      ∀ others : Members, others.Perm members →
        convert defaults .map (.record bound others) label =
          convert defaults .map (.record bound members) label := by
  obtain ⟨value, -, heq⟩ := exists_values_of_convert_map h
  obtain ⟨rfl, hmembers⟩ := Value.record.inj heq
  have hmap : ∀ others, convert defaults .map (.record bound others) label =
      .ok (.map (flattened bound others)) := by
    intro others
    rw [convert_map defaults (by simp)]
    rfl
  rw [hmap, ← flattened_eq hnames]
  refine ⟨rfl, ⟨bound.names.map fun name => (name, members.get name), ?_, ?_⟩, ?_⟩
  · apply convert_flattened hnames
    intro f hmem
    exact convert_get_of_convert hnames h hmem (hchoice f hmem)
  · intro name
    rw [Members.get_map]
    split
    next => rfl
    next hname => exact (get_eq_null_of_not_mem h hname).symm
  · intro others hperm
    have hdistinct : Ordered.Distinct (· == ·) members := by
      rw [hmembers]
      exact Ordered.distinct_ofList _
    rw [hmap, flattened_perm bound hdistinct hperm.symm]

/-- Three fields, of which the map below has two, in the other order. -/
def Schema.flatteningSample : RecordSchema := ⟨[("age", .int), ("data", .map), ("note", .string none)]⟩

/-- The fields come back in the order of the schema, and the missing one as null. -/
theorem convert_flattened_back_flatteningSample :
    Schema.flatteningSample.names.Nodup ∧
      (∀ f ∈ Schema.flatteningSample.fields, f.2.kind ≠ .choice) ∧
      convert .empty (.record (some Schema.flatteningSample))
          (.map [(.string "data", .map [(.int 1, .null)]), (.null, .int 0), (.string "age", .string "42")])
          "person" =
        .ok (.record Schema.flatteningSample
          [("data", .map [(.string "1", .null)]), ("age", .int 42)]) ∧
      convert .empty .map
          (.record Schema.flatteningSample [("data", .map [(.string "1", .null)]), ("age", .int 42)])
          "row" =
        .ok (.map [(.string "age", .int 42), (.string "data", .map [(.string "1", .null)]),
          (.string "note", .null)]) ∧
      ∃ back : Members,
        convert .empty (.record (some Schema.flatteningSample))
            (.map [(.string "age", .int 42), (.string "data", .map [(.string "1", .null)]),
              (.string "note", .null)]) "row" =
          .ok (.record Schema.flatteningSample back) ∧
        back.get "age" = .int 42 ∧ back.get "note" = .null := by
  have hnames : Schema.flatteningSample.names.Nodup := by decide
  have hchoice : ∀ f ∈ Schema.flatteningSample.fields, f.2.kind ≠ .choice := by
    simp [Schema.flatteningSample, DeclaredType.kind]
  have hrecord : convert .empty (.record (some Schema.flatteningSample))
      (.map [(.string "data", .map [(.int 1, .null)]), (.null, .int 0), (.string "age", .string "42")])
      "person" =
        .ok (.record Schema.flatteningSample
          [("data", .map [(.string "1", .null)]), ("age", .int 42)]) := by
    rfl
  obtain ⟨hmap, ⟨back, hback, hget⟩, -⟩ :=
    convert_flattened_back .empty _ hnames hchoice _ _ "row" _ _ hrecord
  exact ⟨hnames, hchoice, hrecord, hmap, back, hback, hget "age", hget "note"⟩

end RecordCoercion
