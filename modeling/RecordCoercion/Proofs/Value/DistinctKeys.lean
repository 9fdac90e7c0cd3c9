import RecordCoercion.Proofs.Value.Insertion

/-!
# Values without repeated keys

Maps and records are built by insertion, so no key comes twice in them. The lists that stand for them
do not say so; `Value.HasDistinctKeys` does, for all maps and records in a value at any depth. Among
keys that are text or null, equality as keys is plain equality (`Entries.nodup_keys`).
-/

set_option autoImplicit false

namespace RecordCoercion

namespace Value

/-- In none of the maps and records that a value is made of does a key come twice. -/
inductive HasDistinctKeys : Value → Prop
  | single {v : Value} (h : ∀ kind, v.kind? = some kind → kind.isComposite = false) :
      HasDistinctKeys v
  | array {items : List Value} (h : ∀ item ∈ items, HasDistinctKeys item) :
      HasDistinctKeys (.array items)
  | map {entries : Entries} (distinct : Ordered.Distinct keyEq entries)
      (keys : ∀ entry ∈ entries, HasDistinctKeys entry.1)
      (values : ∀ entry ∈ entries, HasDistinctKeys entry.2) : HasDistinctKeys (.map entries)
  | record {schema : RecordSchema} {members : Members}
      (distinct : Ordered.Distinct (· == ·) members)
      (values : ∀ member ∈ members, HasDistinctKeys member.2) :
      HasDistinctKeys (.record schema members)

/-- The items of an array have distinct keys in turn. -/
theorem HasDistinctKeys.of_item {items : List Value} (h : HasDistinctKeys (.array items))
    {item : Value} (hmem : item ∈ items) : HasDistinctKeys item := by
  cases h with
  | single h => cases h .array rfl
  | array h => exact h item hmem

/-- The keys of a map are distinct. -/
theorem HasDistinctKeys.distinct_of_map {entries : Entries} (h : HasDistinctKeys (.map entries)) :
    Ordered.Distinct keyEq entries := by
  cases h with
  | single h => cases h .map rfl
  | map distinct _ _ => exact distinct

/-- The keys of a map have distinct keys in turn. -/
theorem HasDistinctKeys.of_key {entries : Entries} (h : HasDistinctKeys (.map entries))
    {entry : Value × Value} (hmem : entry ∈ entries) : HasDistinctKeys entry.1 := by
  cases h with
  | single h => cases h .map rfl
  | map _ keys _ => exact keys entry hmem

/-- The values of a map have distinct keys in turn. -/
theorem HasDistinctKeys.of_entry {entries : Entries} (h : HasDistinctKeys (.map entries))
    {entry : Value × Value} (hmem : entry ∈ entries) : HasDistinctKeys entry.2 := by
  cases h with
  | single h => cases h .map rfl
  | map _ _ values => exact values entry hmem

/-- The names of the members of a record are distinct. -/
theorem HasDistinctKeys.distinct_of_record {schema : RecordSchema} {members : Members}
    (h : HasDistinctKeys (.record schema members)) : Ordered.Distinct (· == ·) members := by
  cases h with
  | single h => cases h .record rfl
  | record distinct _ => exact distinct

/-- The members of a record have distinct keys in turn. -/
theorem HasDistinctKeys.of_member {schema : RecordSchema} {members : Members}
    (h : HasDistinctKeys (.record schema members)) {member : String × Value}
    (hmem : member ∈ members) : HasDistinctKeys member.2 := by
  cases h with
  | single h => cases h .record rfl
  | record _ values => exact values member hmem

/-- A value of the kind of text is text. -/
theorem exists_of_kind?_string {v : Value} (h : v.kind? = some .string) : ∃ s, v = .string s := by
  cases v <;> cases h
  exact ⟨_, rfl⟩

/-- A key as text is text or null. -/
def IsTextKey (key : Value) : Prop := key = .null ∨ ∃ text, key = .string text

/-- A text key is the same key as itself. -/
theorem IsTextKey.keyEq_self {key : Value} (h : key.IsTextKey) : key.keyEq key = true := by
  obtain rfl | ⟨text, rfl⟩ := h <;> simp [keyEq]

/-- Only a text key is the same key as a text key. -/
theorem IsTextKey.of_keyEq {k key : Value} (h : key.IsTextKey) (heq : k.keyEq key = true) :
    k.IsTextKey := by
  obtain rfl | ⟨text, rfl⟩ := h
  · cases k <;> simp [keyEq] at heq
    exact .inl rfl
  · cases k <;> simp [keyEq] at heq
    exact .inr ⟨_, rfl⟩

end Value

namespace Entries

/-- Distinct text keys are different from each other. -/
theorem nodup_keys {entries : Entries} (htext : ∀ entry ∈ entries, entry.1.IsTextKey)
    (h : Ordered.Distinct Value.keyEq entries) : (entries.map (·.1)).Nodup := by
  apply List.Pairwise.imp_of_mem _ h
  intro k l hk _ hne heq
  obtain ⟨entry, hmem, rfl⟩ := List.mem_map.mp hk
  rw [← heq, (htext entry hmem).keyEq_self] at hne
  cases hne

/-- Entries that all stand under text stand under text keys. -/
theorem forall_isTextKey_of_hasTextKeys {entries : Entries} (h : entries.hasTextKeys = true) :
    ∀ entry ∈ entries, entry.1.IsTextKey := by
  intro entry hmem
  have hkind := List.all_eq_true.mp h entry hmem
  rw [beq_iff_eq] at hkind
  exact .inr (Value.exists_of_kind?_string hkind)

/-- Insertions under text keys leave text keys. -/
theorem forall_isTextKey_ofList {insertions : List (Value × Value)}
    (h : ∀ insertion ∈ insertions, insertion.1.IsTextKey) :
    ∀ entry ∈ Entries.ofList insertions, entry.1.IsTextKey := by
  refine Ordered.forall_mem_insertAll (P := fun entry : Value × Value => entry.1.IsTextKey) ?_
    (by simp)
  rintro insertion hmem k (rfl | heq)
  · exact h insertion hmem
  · exact (h insertion hmem).of_keyEq heq

end Entries

end RecordCoercion
