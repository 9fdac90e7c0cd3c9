import RecordCoercion.Proofs.Conversion.MapToRecord
import RecordCoercion.Proofs.Conversion.TextKeys

/-!
# Records of maps under text keys

A map can become a record at once, or become a map under text keys first. The one walk inserts what the
kept entries convert to, the other converts what is left of the kept entries after they were inserted
under their texts (`named_keptEntries_textKeyed`); converting and inserting commute, so the records are
the same. The way through the map leaves out the entries that a later one replaces, and with them their
failures: `convert_through_map` is the top.
-/

set_option autoImplicit false

namespace RecordCoercion

section

variable {schema : RecordSchema} {entries : Entries}

/-! ## Kept entries of a map under text keys -/

/-- An entry under a text as an entry of the field with this name, if there is one. -/
def keptOfText? (schema : RecordSchema) (entry : Option String × Value) : Option KeptEntry :=
  entry.1.bind fun name => (schema.typeOf? name).map fun type => ⟨name, type, entry.2⟩

/-- Which entries are kept depends on the texts of the keys. -/
theorem keptEntries_eq_filterMap_texts (schema : RecordSchema) (entries : Entries) :
    keptEntries schema entries = entries.texts.filterMap (keptOfText? schema) := by
  rw [Entries.texts, List.filterMap_map]
  rfl

/-- An entry under a text is kept under this text, if a field has it as its name. -/
theorem map_name_keptOfText? (schema : RecordSchema) (text? : Option String) (v : Value) :
    (keptOfText? schema (text?, v)).map KeptEntry.name = text?.filter schema.contains := by
  cases text? with
  | none => rfl
  | some name =>
    cases htype : schema.typeOf? name <;> simp [keptOfText?, Schema.contains, htype, Option.filter]

/-- The kept entries under text keys are what the kept entries leave, each inserted under its name. -/
theorem named_keptEntries_textKeyed (schema : RecordSchema) (entries : Entries) :
    Ordered.named KeptEntry.name (keptEntries schema (textKeyed entries)) =
      Ordered.ofList (· == ·) (Ordered.named KeptEntry.name (keptEntries schema entries)) := by
  have hinj : ∀ (text? other? : Option String) (name : String),
      text?.filter schema.contains = some name → other?.filter schema.contains = some name →
        text? = other? := by
    intro text? other? name htext hother
    rw [(Option.filter_eq_some_iff.mp htext).1, (Option.filter_eq_some_iff.mp hother).1]
  rw [keptEntries_eq_filterMap_texts, texts_textKeyed, keptEntries_eq_filterMap_texts]
  exact Ordered.named_filterMap_ofList (map_name_keptOfText? schema) hinj entries.texts

/-- What is kept under text keys is kept of the map itself. -/
theorem mem_keptEntries_of_textKeyed {kept : KeptEntry}
    (h : kept ∈ keptEntries schema (textKeyed entries)) : kept ∈ keptEntries schema entries := by
  rw [← Ordered.mem_named_iff KeptEntry.name, named_keptEntries_textKeyed] at h
  exact (Ordered.mem_named_iff KeptEntry.name).mp (Ordered.mem_of_mem_ofList h)

/-- The last kept entry of a name is kept under text keys. -/
theorem mem_keptEntries_textKeyed_of_last {before after : List KeptEntry} {last : KeptEntry}
    (hsplit : keptEntries schema entries = before ++ last :: after)
    (hlast : ∀ later ∈ after, later.name ≠ last.name) :
    last ∈ keptEntries schema (textKeyed entries) := by
  rw [← Ordered.mem_named_iff KeptEntry.name, named_keptEntries_textKeyed, hsplit,
    Ordered.named, List.map_append, List.map_cons]
  apply Ordered.mem_ofList_of_last
  simpa using hlast

/-- The members of a record are the same whether what the entries become is inserted, or what the inserted
entries become. -/
theorem ofList_keptEntries_textKeyed (value : KeptEntry → Value) :
    Members.ofList
        ((keptEntries schema (textKeyed entries)).map fun kept => (kept.name, value kept)) =
      Members.ofList ((keptEntries schema entries).map fun kept => (kept.name, value kept)) := by
  have hvalues : ∀ kept : List KeptEntry, (kept.map fun entry => (entry.name, value entry)) =
      (Ordered.named KeptEntry.name kept).map (Prod.map id value) := by
    intro kept
    simp [Ordered.named]
  have hrename : ∀ name other : String, (id name == id other) = (name == other) := fun _ _ => rfl
  rw [hvalues, hvalues, named_keptEntries_textKeyed, Ordered.map_ofList hrename]
  exact Ordered.ofList_of_distinct (Ordered.distinct_ofList _)

end

/-! ## The two ways -/

/-- A map converts to the map under text keys, or stays as it is. -/
theorem convert_map_cases (defaults : FormatDefaults) (entries : Entries) (field : String) :
    convert defaults .map (.map entries) field = .ok (.map entries) ∨
      convert defaults .map (.map entries) field = .ok (.map (textKeyed entries)) := by
  simp only [convert_map defaults (v := .map entries) (by simp), settled_eq_ok_iff, toMap]
  split
  · exact .inl rfl
  · exact .inr rfl

section

variable {defaults : FormatDefaults} {schema : RecordSchema} {entries : Entries} {field : String}

/-- What a map becomes at once it becomes through the map under text keys. -/
theorem convert_textKeyed_of_convert {r : Value}
    (h : convert defaults (.record (some schema)) (.map entries) field = .ok r) :
    convert defaults (.record (some schema)) (.map (textKeyed entries)) field = .ok r := by
  obtain ⟨value, hvalue, rfl⟩ := exists_values_of_convert_map h
  have hleft : ∀ kept ∈ keptEntries schema (textKeyed entries),
      kept.convert defaults field = .ok (value kept) :=
    fun kept hkept => hvalue kept (mem_keptEntries_of_textKeyed hkept)
  rw [convert_map_of_forall_ok hleft, ofList_keptEntries_textKeyed]

/-- Where only the way through the map under text keys gives a record, an entry that fails is replaced by
a later one. -/
theorem exists_replaced_failure {e : ConversionError} {r : Value}
    (h : convert defaults (.record (some schema)) (.map entries) field = .error e)
    (hkeyed : convert defaults (.record (some schema)) (.map (textKeyed entries)) field = .ok r) :
    ∃ before failing after, keptEntries schema entries = before ++ failing :: after ∧
      convert defaults failing.type failing.value (memberPath field failing.name) = .error e ∧
      ∃ later ∈ after, later.name = failing.name := by
  obtain hall | ⟨before, failing, after, e', hsplit, hbefore, hfailing⟩ :=
    forall_ok_or_first_failure (KeptEntry.convert defaults field) (keptEntries schema entries)
  · obtain ⟨w, hw⟩ := convert_map_isOk_iff.mpr hall
    rw [h] at hw
    cases hw
  · rw [convert_map_of_first_failure hsplit hbefore hfailing] at h
    cases h
    refine ⟨before, failing, after, hsplit, hfailing, ?_⟩
    by_contra! hlast
    -- the failing entry would be left under its text and fail there too
    obtain ⟨w, hw⟩ := convert_map_isOk_iff.mp ⟨r, hkeyed⟩ failing
      (mem_keptEntries_textKeyed_of_last hsplit hlast)
    rw [hfailing] at hw
    cases hw

end

/-- A map converts to a map under text keys. What becomes a record at once becomes the same record, its
members in the same order, through this map; what fails through the map fails at once. The other way
round that need not be: an entry that fails may be replaced by a later one under the same text. -/
theorem convert_through_map (defaults : FormatDefaults) (field : String) :
    (∀ (schema : RecordSchema) (entries : Entries), ∃ textEntries,
      convert defaults .map (.map entries) field = .ok (.map textEntries) ∧
      (∀ r, convert defaults (.record (some schema)) (.map entries) field = .ok r →
        convert defaults (.record (some schema)) (.map textEntries) field = .ok r) ∧
      (∀ e, convert defaults (.record (some schema)) (.map textEntries) field = .error e →
        ∃ e', convert defaults (.record (some schema)) (.map entries) field = .error e') ∧
      ∀ e r, convert defaults (.record (some schema)) (.map entries) field = .error e →
        convert defaults (.record (some schema)) (.map textEntries) field = .ok r →
        ∃ before failing after, keptEntries schema entries = before ++ failing :: after ∧
          convert defaults failing.type failing.value (memberPath field failing.name) = .error e ∧
          ∃ later ∈ after, later.name = failing.name) ∧
    ∃ (schema : RecordSchema) (entries textEntries : Entries) (e : ConversionError) (r : Value),
      convert defaults (.record (some schema)) (.map entries) field = .error e ∧
      convert defaults .map (.map entries) field = .ok (.map textEntries) ∧
      convert defaults (.record (some schema)) (.map textEntries) field = .ok r := by
  refine ⟨fun schema entries => ?_, ?_⟩
  · obtain hmap | hmap := convert_map_cases defaults entries field
    · refine ⟨entries, hmap, fun r h => h, fun e h => ⟨e, h⟩, fun e r h hr => ?_⟩
      rw [h] at hr
      cases hr
    · refine ⟨textKeyed entries, hmap, fun r => convert_textKeyed_of_convert, fun e h => ?_,
        fun e r => exists_replaced_failure⟩
      cases hdirect : convert defaults (.record (some schema)) (.map entries) field with
      | error e' => exact ⟨e', rfl⟩
      | ok r =>
        rw [convert_textKeyed_of_convert hdirect] at h
        cases h
  · refine ⟨⟨[("n", .int)]⟩, [(.string "n", .string "x"), (.char 'n', .int 1)], [(.string "n", .int 1)],
      _, .record ⟨[("n", .int)]⟩ [("n", .int 1)], rfl, ?_, rfl⟩
    have hkeyed : textKeyed [(.string "n", .string "x"), (.char 'n', .int 1)] =
        [(.string "n", .int 1)] := by
      rw [textKeyed_eq]
      rfl
    rw [convert_map defaults (by simp), settled_eq_ok_iff, ← hkeyed]
    rfl

/-- An integer and a text have the same text. The member is the conversion of the later entry either
way. -/
theorem convert_through_map_same_text :
    convert .empty (.record (some ⟨[("1", .int), ("on", .boolean)]⟩))
        (.map [(.int 1, .string "7"), (.boolean true, .null), (.string "1", .long 8)]) "row" =
      .ok (.record ⟨[("1", .int), ("on", .boolean)]⟩ [("1", .int 8)]) ∧
    ∃ textEntries,
      convert .empty .map
          (.map [(.int 1, .string "7"), (.boolean true, .null), (.string "1", .long 8)]) "row" =
        .ok (.map textEntries) ∧
      convert .empty (.record (some ⟨[("1", .int), ("on", .boolean)]⟩)) (.map textEntries) "row" =
        .ok (.record ⟨[("1", .int), ("on", .boolean)]⟩ [("1", .int 8)]) := by
  have hdirect : convert .empty (.record (some ⟨[("1", .int), ("on", .boolean)]⟩))
      (.map [(.int 1, .string "7"), (.boolean true, .null), (.string "1", .long 8)]) "row" =
        .ok (.record ⟨[("1", .int), ("on", .boolean)]⟩ [("1", .int 8)]) := by
    rfl
  obtain ⟨textEntries, hmap, hrecord, -⟩ := (convert_through_map .empty "row").1 _ _
  exact ⟨hdirect, textEntries, hmap, hrecord _ hdirect⟩

end RecordCoercion
