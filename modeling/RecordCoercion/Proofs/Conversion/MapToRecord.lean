import RecordCoercion.Proofs.Conversion.Families
import RecordCoercion.Proofs.Value.Insertion

/-!
# From maps to records

The conversion of a map to a record walks through the entries, looks up the field each key names as
text, converts, inserts and stops at the first failure. Here the walk is taken apart: the entries
that belong to a field (`keptEntries`) are converted one after the other, and what they become is
inserted afterwards (`convertEntries_eq`). `convert_map_to_record` is the top: the names of the
record are those of the kept entries in order of first occurrence, each with the conversion of its
last entry, or else there is no record and the error is that of the first entry that fails.
-/

set_option autoImplicit false

namespace RecordCoercion

/-! ## The first failure in a list -/

section

variable {ε α β : Type} {f : α → Except ε β}

/-- Either every element of a list has an image, or one is the first without. -/
theorem forall_ok_or_first_failure (f : α → Except ε β) (l : List α) :
    (∀ a ∈ l, ∃ b, f a = .ok b) ∨
      ∃ before a after e, l = before ++ a :: after ∧ (∀ b ∈ before, ∃ image, f b = .ok image) ∧
        f a = .error e := by
  induction l with
  | nil => exact .inl (by simp)
  | cons a rest ih =>
    cases ha : f a with
    | error e => exact .inr ⟨[], a, rest, e, rfl, by simp, ha⟩
    | ok image =>
      obtain hall | ⟨before, b, after, e, rfl, hbefore, hb⟩ := ih
      · exact .inl (List.forall_mem_cons.mpr ⟨⟨image, ha⟩, hall⟩)
      · exact .inr ⟨a :: before, b, after, e, rfl,
          List.forall_mem_cons.mpr ⟨⟨image, ha⟩, hbefore⟩, hb⟩

/-- Mapping over a list gives all images if there are all. -/
theorem mapM_of_forall_ok {g : α → β} {l : List α} (h : ∀ a ∈ l, f a = .ok (g a)) :
    l.mapM f = .ok (l.map g) := by
  induction l with
  | nil => rfl
  | cons a rest ih =>
    rw [List.forall_mem_cons] at h
    rw [List.mapM_cons, h.1, ih h.2]
    rfl

/-- Mapping over a list gives the error at the first element without an image. -/
theorem mapM_of_first_failure {before after : List α} {a : α} {e : ε}
    (hbefore : ∀ b ∈ before, ∃ image, f b = .ok image) (ha : f a = .error e) :
    (before ++ a :: after).mapM f = .error e := by
  induction before with
  | nil =>
    rw [List.nil_append, List.mapM_cons, ha]
    rfl
  | cons b rest ih =>
    obtain ⟨⟨image, hb⟩, hrest⟩ := List.forall_mem_cons.mp hbefore
    rw [List.cons_append, List.mapM_cons, hb, ih hrest]
    rfl

end

/-! ## Kept entries -/

/-- An entry of a map that belongs to a field of a schema. -/
structure KeptEntry where
  /-- The name of the field, which is the key as text. -/
  name : String
  /-- The type of the field. -/
  type : DeclaredType
  value : Value

/-- An entry as an entry of the field that its key names, if there is one; null names none. -/
def kept? (schema : RecordSchema) (entry : Value × Value) : Option KeptEntry :=
  entry.1.rendered?.bind fun name =>
    (schema.typeOf? name).map fun type => ⟨name, type, entry.2⟩

/-- The entries of a map that belong to a field, in order. -/
def keptEntries (schema : RecordSchema) (entries : Entries) : List KeptEntry :=
  entries.filterMap (kept? schema)

/-- The conversion of an entry in a record that stands in a field. -/
def KeptEntry.convert (defaults : FormatDefaults) (field : String) (entry : KeptEntry) :
    Conversion :=
  RecordCoercion.convert defaults entry.type entry.value (memberPath field entry.name)

/-- An entry is kept if its key as text is the name of a field. -/
theorem kept?_eq_some_iff {schema : RecordSchema} {entry : Value × Value} {kept : KeptEntry} :
    kept? schema entry = some kept ↔
      entry.1.rendered? = some kept.name ∧ schema.typeOf? kept.name = some kept.type ∧
        entry.2 = kept.value := by
  obtain ⟨name, type, value⟩ := kept
  simp only [kept?, Option.bind_eq_some_iff, Option.map_eq_some_iff, KeptEntry.mk.injEq]
  constructor
  · rintro ⟨_, hname, _, htype, rfl, rfl, hvalue⟩
    exact ⟨hname, htype, hvalue⟩
  · rintro ⟨hname, htype, hvalue⟩
    exact ⟨name, hname, type, htype, rfl, rfl, hvalue⟩

/-- The kept entries come from entries of the map whose keys name fields. -/
theorem mem_keptEntries {schema : RecordSchema} {entries : Entries} {kept : KeptEntry} :
    kept ∈ keptEntries schema entries ↔
      ∃ key, (key, kept.value) ∈ entries ∧ key.rendered? = some kept.name ∧
        schema.typeOf? kept.name = some kept.type := by
  simp only [keptEntries, List.mem_filterMap, kept?_eq_some_iff]
  constructor
  · rintro ⟨⟨key, _⟩, hmem, hname, htype, rfl⟩
    exact ⟨key, hmem, hname, htype⟩
  · rintro ⟨key, hmem, hname, htype⟩
    exact ⟨(key, kept.value), hmem, hname, htype, rfl⟩

/-! ## The walk through the entries -/

/-- What becomes of a kept entry: its name with the converted value. -/
def KeptEntry.member (defaults : FormatDefaults) (field : String) (entry : KeptEntry) :
    Except ConversionError (String × Value) :=
  (entry.convert defaults field).map fun w => (entry.name, w)

/-- The walk turns the kept entries into members in order and inserts these. -/
theorem convertEntries_eq (defaults : FormatDefaults) (schema : RecordSchema) (field : String)
    (members : Members) (entries : Entries) :
    convertEntries (fun name => (schema.typeOf? name).map (convert defaults)) field members
        entries =
      ((keptEntries schema entries).mapM (KeptEntry.member defaults field)).map
        (Ordered.insertAll (· == ·) members) := by
  -- the members so far grow along the walk, so the induction is for all of them
  induction entries generalizing members with
  | nil => rfl
  | cons entry rest ih =>
    obtain ⟨key, v⟩ := entry
    cases hkept : kept? schema (key, v) with
    | none =>
      have hskip : keptEntries schema ((key, v) :: rest) = keptEntries schema rest :=
        List.filterMap_cons_none hkept
      rw [hskip, ← ih members, convertEntries]
      cases hkey : key.rendered? with
      | none => rfl
      | some name =>
        have hfield : schema.typeOf? name = none := by simpa [kept?, hkey] using hkept
        simp only [hfield, Option.map_none]
    | some kept =>
      have hkeep : keptEntries schema ((key, v) :: rest) = kept :: keptEntries schema rest :=
        List.filterMap_cons_some hkept
      obtain ⟨hkey, hfield, rfl⟩ := kept?_eq_some_iff.mp hkept
      rw [hkeep, convertEntries, List.mapM_cons, KeptEntry.member, KeptEntry.convert]
      simp only [hkey, hfield, Option.map_some]
      cases convert defaults kept.type kept.value (memberPath field kept.name) with
      | error e => rfl
      | ok w =>
        simp only [ih]
        cases (keptEntries schema rest).mapM (KeptEntry.member defaults field) <;> rfl

/-! ## The record of a map -/

section

variable {defaults : FormatDefaults} {schema : RecordSchema} {entries : Entries} {field : String}

/-- The values that entries convert to, if they all do. -/
theorem exists_values {kept : List KeptEntry}
    (h : ∀ entry ∈ kept, ∃ w, entry.convert defaults field = .ok w) :
    ∃ value : KeptEntry → Value, ∀ entry ∈ kept, entry.convert defaults field = .ok (value entry) := by
  refine ⟨fun entry => (entry.convert defaults field).toOption.getD .null, ?_⟩
  intro entry hmem
  obtain ⟨w, hw⟩ := h entry hmem
  simp only [hw]
  rfl

/-- If all kept entries convert, the record holds what they become. -/
theorem convert_map_of_forall_ok {value : KeptEntry → Value}
    (h : ∀ kept ∈ keptEntries schema entries, kept.convert defaults field = .ok (value kept)) :
    convert defaults (.record (some schema)) (.map entries) field =
      .ok (.record schema
        (Members.ofList ((keptEntries schema entries).map fun kept => (kept.name, value kept)))) := by
  have hmember : ∀ kept ∈ keptEntries schema entries,
      kept.member defaults field = .ok (kept.name, value kept) := by
    intro kept hmem
    rw [KeptEntry.member, h kept hmem]
    rfl
  rw [convert_record_of_map, convertEntries_eq, mapM_of_forall_ok hmember]
  rfl

/-- If a kept entry is the first that does not convert, its error is the outcome. -/
theorem convert_map_of_first_failure {before after : List KeptEntry} {failing : KeptEntry}
    {e : ConversionError} (hsplit : keptEntries schema entries = before ++ failing :: after)
    (hbefore : ∀ kept ∈ before, ∃ w, kept.convert defaults field = .ok w)
    (hfailing : failing.convert defaults field = .error e) :
    convert defaults (.record (some schema)) (.map entries) field = .error e := by
  have hmembers : ∀ kept ∈ before, ∃ member, kept.member defaults field = .ok member := by
    intro kept hmem
    obtain ⟨w, hw⟩ := hbefore kept hmem
    exact ⟨(kept.name, w), by rw [KeptEntry.member, hw]; rfl⟩
  have herror : failing.member defaults field = .error e := by
    rw [KeptEntry.member, hfailing]
    rfl
  rw [convert_record_of_map, convertEntries_eq, hsplit, mapM_of_first_failure hmembers herror]
  rfl

/-- A map becomes a record exactly if all kept entries convert. -/
theorem convert_map_isOk_iff :
    (∃ w, convert defaults (.record (some schema)) (.map entries) field = .ok w) ↔
      ∀ kept ∈ keptEntries schema entries, ∃ w, kept.convert defaults field = .ok w := by
  obtain hall | ⟨before, failing, after, e, hsplit, hbefore, hfailing⟩ :=
    forall_ok_or_first_failure (KeptEntry.convert defaults field) (keptEntries schema entries)
  · obtain ⟨value, hvalue⟩ := exists_values hall
    exact iff_of_true ⟨_, convert_map_of_forall_ok hvalue⟩ hall
  · have hmem : failing ∈ keptEntries schema entries := by simp [hsplit]
    rw [convert_map_of_first_failure hsplit hbefore hfailing]
    refine iff_of_false (by simp) fun hall => ?_
    obtain ⟨w, hw⟩ := hall failing hmem
    rw [hfailing] at hw
    cases hw

/-- What a map becomes is bound to the schema and holds what the kept entries become. -/
theorem exists_values_of_convert_map {w : Value}
    (h : convert defaults (.record (some schema)) (.map entries) field = .ok w) :
    ∃ value : KeptEntry → Value,
      (∀ kept ∈ keptEntries schema entries, kept.convert defaults field = .ok (value kept)) ∧
      w = .record schema
        (Members.ofList ((keptEntries schema entries).map fun kept => (kept.name, value kept))) := by
  obtain ⟨value, hvalue⟩ := exists_values (convert_map_isOk_iff.mp ⟨w, h⟩)
  rw [convert_map_of_forall_ok hvalue] at h
  exact ⟨value, hvalue, (Except.ok.inj h).symm⟩

/-- What a map becomes depends on the kept entries only. -/
theorem convert_map_congr {others : Entries}
    (h : keptEntries schema entries = keptEntries schema others) :
    convert defaults (.record (some schema)) (.map entries) field =
      convert defaults (.record (some schema)) (.map others) field := by
  rw [convert_record_of_map, convert_record_of_map, convertEntries_eq, convertEntries_eq, h]

/-- The names of the members are those of the kept entries in order of first occurrence. -/
theorem names_ofList_kept (kept : List KeptEntry) (value : KeptEntry → Value) :
    (Members.ofList (kept.map fun entry => (entry.name, value entry))).map (·.1) =
      (kept.map (·.name)).eraseDups := by
  rw [Members.ofList, Ordered.keys_ofList_beq, List.map_map]
  rfl

/-- The value of a member is what the last kept entry of its name becomes. -/
theorem find?_ofList_kept (before : List KeptEntry) (last : KeptEntry) {after : List KeptEntry}
    (value : KeptEntry → Value) (hlast : ∀ later ∈ after, later.name ≠ last.name) :
    Members.find? (Members.ofList
      ((before ++ last :: after).map fun entry => (entry.name, value entry))) last.name =
        some (value last) := by
  rw [List.map_append, List.map_cons]
  apply Ordered.get?_insertAll_last Ordered.isEquiv_beq
  intro insertion hmem
  obtain ⟨later, hlater, rfl⟩ := List.mem_map.mp hmem
  simpa using hlast later hlater

end

/-- A map becomes a record if every entry that belongs to a field converts. The names of the record
are then those of the kept entries in order of first occurrence, and the value of each is the
conversion of the last entry of that name. Otherwise the outcome is the error of the first kept entry
that does not convert, whatever stands after it. -/
theorem convert_map_to_record (defaults : FormatDefaults) (schema : RecordSchema)
    (entries : Entries) (field : String) :
    (∃ members,
      convert defaults (.record (some schema)) (.map entries) field =
        .ok (.record schema members) ∧
      (∀ kept ∈ keptEntries schema entries,
        ∃ w, convert defaults kept.type kept.value (memberPath field kept.name) = .ok w) ∧
      members.map (·.1) = ((keptEntries schema entries).map (·.name)).eraseDups ∧
      ∀ before last after, keptEntries schema entries = before ++ last :: after →
        (∀ later ∈ after, later.name ≠ last.name) →
        ∃ w, convert defaults last.type last.value (memberPath field last.name) = .ok w ∧
          Members.find? members last.name = some w) ∨
    (∃ before failing after e,
      keptEntries schema entries = before ++ failing :: after ∧
      (∀ kept ∈ before,
        ∃ w, convert defaults kept.type kept.value (memberPath field kept.name) = .ok w) ∧
      convert defaults failing.type failing.value (memberPath field failing.name) = .error e ∧
      convert defaults (.record (some schema)) (.map entries) field = .error e) := by
  obtain hall | ⟨before, failing, after, e, hsplit, hbefore, hfailing⟩ :=
    forall_ok_or_first_failure (KeptEntry.convert defaults field) (keptEntries schema entries)
  · obtain ⟨value, hvalue⟩ := exists_values hall
    refine .inl ⟨_, convert_map_of_forall_ok hvalue, hall, names_ofList_kept _ value, ?_⟩
    intro before last after hsplit hlast
    have hmem : last ∈ keptEntries schema entries := by simp [hsplit]
    refine ⟨value last, hvalue last hmem, ?_⟩
    rw [hsplit]
    exact find?_ofList_kept before last value hlast
  · exact .inr ⟨before, failing, after, e, hsplit, hbefore, hfailing,
      convert_map_of_first_failure hsplit hbefore hfailing⟩

end RecordCoercion
