import RecordCoercion.Proofs.Conversion.MapToRecord
import RecordCoercion.Proofs.Value.Comparison

/-!
# The order of independent entries

What a map becomes under a schema depends on its kept entries only, so entries whose keys name no field
may come and go (`keptEntries_filter_namesField`). Where the other entries name different fields, each of
them becomes the member of its field whatever comes before it: in another order the same members come out
(`convert_perm`). `convert_entry_order` is the top.
-/

set_option autoImplicit false

namespace RecordCoercion

/-- Whether the key of an entry names a field of a schema; null names none. -/
def namesField (schema : RecordSchema) (entry : Value × Value) : Bool :=
  entry.1.rendered?.any schema.contains

section

variable {schema : RecordSchema} {entries others : Entries}

/-- Kept are the entries that name a field. -/
theorem isSome_kept? (schema : RecordSchema) (entry : Value × Value) :
    (kept? schema entry).isSome = namesField schema entry := by
  cases hname : entry.1.rendered? <;> simp [kept?, namesField, Schema.contains, hname]

/-- Entries that name no field leave no trace among the kept ones. -/
theorem keptEntries_filter_namesField (schema : RecordSchema) (entries : Entries) :
    keptEntries schema (entries.filter (namesField schema)) = keptEntries schema entries := by
  rw [keptEntries, List.filterMap_filter, keptEntries]
  congr 1
  funext entry
  rw [← isSome_kept?]
  cases kept? schema entry <;> rfl

/-- The names of the kept entries are the texts of the keys that name a field. -/
theorem names_keptEntries (schema : RecordSchema) (entries : Entries) :
    (keptEntries schema entries).map (fun kept => some kept.name) =
      (entries.filter (namesField schema)).map (·.1.rendered?) := by
  induction entries with
  | nil => rfl
  | cons entry rest ih =>
    have hsome := isSome_kept? schema entry
    cases hkept : kept? schema entry with
    | none =>
      rw [hkept, Option.isSome_none] at hsome
      rw [keptEntries, List.filterMap_cons_none hkept, List.filter_cons_of_neg (by simp [← hsome])]
      exact ih
    | some kept =>
      rw [hkept, Option.isSome_some] at hsome
      rw [keptEntries, List.filterMap_cons_some hkept, List.filter_cons_of_pos hsome.symm,
        List.map_cons, List.map_cons, (kept?_eq_some_iff.mp hkept).1]
      exact congrArg _ ih

/-- Rearranging the entries of a map rearranges those that are kept. -/
theorem keptEntries_perm (schema : RecordSchema) (hperm : entries.Perm others) :
    (keptEntries schema entries).Perm (keptEntries schema others) :=
  hperm.filterMap (kept? schema)

/-! ## Independent entries -/

/-- The entries of a map that name a field name different ones. -/
def AreIndependent (schema : RecordSchema) (entries : Entries) : Prop :=
  ((entries.filter (namesField schema)).map (·.1.rendered?)).Nodup

/-- Whether entries are independent can be computed from the names that they are kept under. -/
instance (schema : RecordSchema) (entries : Entries) : Decidable (AreIndependent schema entries) :=
  inferInstanceAs (Decidable (List.Nodup _))

/-- Entries stay independent when they are rearranged. -/
theorem AreIndependent.perm (h : AreIndependent schema entries) (hperm : entries.Perm others) :
    AreIndependent schema others :=
  ((hperm.filter _).map _).nodup_iff.mp h

/-- Independent entries become the members of a record in their order. -/
theorem AreIndependent.ofList_eq (h : AreIndependent schema entries) (value : KeptEntry → Value) :
    Members.ofList ((keptEntries schema entries).map fun kept => (kept.name, value kept)) =
      (keptEntries schema entries).map fun kept => (kept.name, value kept) := by
  apply Ordered.ofList_of_distinct
  rw [AreIndependent, ← names_keptEntries] at h
  rw [Ordered.distinct_beq_iff, List.map_map]
  simpa [List.Nodup, List.pairwise_map] using h

variable {defaults : FormatDefaults} {field : String}

/-- In another order, a map of independent entries that becomes a record becomes one with the same
members in another order. -/
theorem convert_perm (hperm : entries.Perm others) (h : AreIndependent schema entries) {w : Value}
    (hw : convert defaults (.record (some schema)) (.map entries) field = .ok w) :
    ∃ members members' : Members, w = .record schema members ∧
      convert defaults (.record (some schema)) (.map others) field =
        .ok (.record schema members') ∧
      members.Perm members' ∧ ∀ name, members.find? name = members'.find? name := by
  obtain ⟨value, hvalue, rfl⟩ := exists_values_of_convert_map hw
  have hkept := keptEntries_perm schema hperm
  have hvalue' : ∀ kept ∈ keptEntries schema others,
      kept.convert defaults field = .ok (value kept) :=
    fun kept hmem => hvalue kept (hkept.mem_iff.mpr hmem)
  have hmembers : (Members.ofList
      ((keptEntries schema entries).map fun kept => (kept.name, value kept))).Perm
        (Members.ofList ((keptEntries schema others).map fun kept => (kept.name, value kept))) := by
    rw [h.ofList_eq, (h.perm hperm).ofList_eq]
    exact hkept.map _
  exact ⟨_, _, rfl, convert_map_of_forall_ok hvalue', hmembers,
    Ordered.get?_perm Ordered.isEquiv_beq (Ordered.distinct_ofList _) hmembers⟩

end

/-- The order of independent entries plays no part in whether a map becomes a record, nor in the names and
values of its members. Entries under null and under keys that name no field may be added and removed: the
outcome stays the same, the order of the members and the error included. -/
theorem convert_entry_order (defaults : FormatDefaults) (schema : RecordSchema)
    (entries others : Entries) (field : String) :
    (entries.Perm others → AreIndependent schema entries →
      ((∃ w, convert defaults (.record (some schema)) (.map entries) field = .ok w) ↔
        ∃ w, convert defaults (.record (some schema)) (.map others) field = .ok w) ∧
      ∀ w w', convert defaults (.record (some schema)) (.map entries) field = .ok w →
        convert defaults (.record (some schema)) (.map others) field = .ok w' →
        ∃ members members' : Members, w = .record schema members ∧ w' = .record schema members' ∧
          members.Perm members' ∧ ∀ name, members.find? name = members'.find? name) ∧
    (entries.filter (namesField schema) = others.filter (namesField schema) →
      convert defaults (.record (some schema)) (.map entries) field =
        convert defaults (.record (some schema)) (.map others) field) := by
  refine ⟨fun hperm h => ⟨⟨?_, ?_⟩, ?_⟩, fun hfilter => ?_⟩
  · rintro ⟨w, hw⟩
    obtain ⟨-, members', -, hother, -⟩ := convert_perm hperm h hw
    exact ⟨_, hother⟩
  · rintro ⟨w, hw⟩
    obtain ⟨-, members', -, hother, -⟩ := convert_perm hperm.symm (h.perm hperm) hw
    exact ⟨_, hother⟩
  · intro w w' hw hw'
    obtain ⟨members, members', hrecord, hother, hsame⟩ := convert_perm hperm h hw
    rw [hw'] at hother
    exact ⟨members, members', hrecord, Except.ok.inj hother, hsame⟩
  · apply convert_map_congr
    rw [← keptEntries_filter_namesField, hfilter, keptEntries_filter_namesField]

/-- Two fields, both named by an entry of the map below, by a text and by a character. -/
def Schema.orderSample : RecordSchema := ⟨[("a", .int), ("b", .boolean)]⟩

/-- A map whose second entry names no field. -/
def Entries.orderSample : Entries :=
  [(.string "a", .string "1"), (.null, .int 9), (.char 'b', .boolean true)]

/-- The map the other way round gives the same members, and without the entry under null nothing
changes. -/
theorem convert_entry_order_orderSample :
    Entries.orderSample.Perm Entries.orderSample.reverse ∧
      AreIndependent Schema.orderSample Entries.orderSample ∧
      convert .empty (.record (some Schema.orderSample)) (.map Entries.orderSample) "row" =
        .ok (.record Schema.orderSample [("a", .int 1), ("b", .boolean true)]) ∧
      (∃ members' : Members,
        convert .empty (.record (some Schema.orderSample)) (.map Entries.orderSample.reverse) "row" =
          .ok (.record Schema.orderSample members') ∧
        List.Perm [("a", .int 1), ("b", .boolean true)] members') ∧
      convert .empty (.record (some Schema.orderSample)) (.map Entries.orderSample) "row" =
        convert .empty (.record (some Schema.orderSample))
          (.map [(.string "a", .string "1"), (.char 'b', .boolean true)]) "row" := by
  have hperm : Entries.orderSample.Perm Entries.orderSample.reverse :=
    (List.reverse_perm Entries.orderSample).symm
  have hindependent : AreIndependent Schema.orderSample Entries.orderSample := by
    decide
  have hrecord : convert .empty (.record (some Schema.orderSample)) (.map Entries.orderSample) "row" =
      .ok (.record Schema.orderSample [("a", .int 1), ("b", .boolean true)]) := by
    rfl
  have hfilter : Entries.orderSample.filter (namesField Schema.orderSample) =
      List.filter (namesField Schema.orderSample)
        [(.string "a", .string "1"), (.char 'b', .boolean true)] := by
    rfl
  obtain ⟨hiff, hsame⟩ :=
    (convert_entry_order .empty Schema.orderSample _ _ "row").1 hperm hindependent
  obtain ⟨w', hw'⟩ := hiff.mp ⟨_, hrecord⟩
  obtain ⟨members, members', hmembers, rfl, hmembersPerm, -⟩ := hsame _ _ hrecord hw'
  obtain ⟨-, rfl⟩ := Value.record.inj hmembers
  exact ⟨hperm, hindependent, hrecord, ⟨members', hw', hmembersPerm⟩,
    (convert_entry_order .empty Schema.orderSample _ _ "row").2 hfilter⟩

end RecordCoercion
