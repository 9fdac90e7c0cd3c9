import Mathlib.Data.Finset.Card
import RecordCoercion.Proofs.Conversion.Families
import RecordCoercion.Proofs.Value.DistinctKeys
import RecordCoercion.Proofs.Value.Selection

/-!
# Maps under text keys

Keys of different kinds may have the same text, so that entries come together when keys become text. Seen
under its texts (`Entries.texts`) a map is a list of insertions, and `textKeyed_eq` says that the map under
text keys is what these leave. `convert_map_textKeyed` is the top: every map converts to the map under text
keys, also where the keys are text already and nothing is done.
-/

set_option autoImplicit false

namespace RecordCoercion

/-! ## Keys as text -/

/-- A text as a key, and null where there is no text. -/
def Value.ofText? : Option String → Value
  | some text => .string text
  | none => .null

/-- A text as a key is rendered as itself. -/
@[simp] theorem Value.rendered?_ofText? (text? : Option String) :
    (Value.ofText? text?).rendered? = text? := by
  cases text? <;> rfl

/-- A text as a key is text, and no text is null. -/
theorem Value.isTextKey_ofText? (text? : Option String) : (Value.ofText? text?).IsTextKey := by
  cases text? with
  | none => exact .inl rfl
  | some text => exact .inr ⟨text, rfl⟩

/-- Texts as keys are one key if they are the same text. -/
theorem Value.keyEq_ofText? (text? other? : Option String) :
    (Value.ofText? text?).keyEq (Value.ofText? other?) = (text? == other?) := by
  cases text? <;> cases other? <;> simp [Value.ofText?, Value.keyEq]

/-- A key as text is what it is rendered as. -/
theorem textKey_eq (key : Value) : textKey key = Value.ofText? key.rendered? := by
  unfold textKey
  cases key.rendered? <;> rfl

/-- A key as text is text or null. -/
theorem isTextKey_textKey (key : Value) : (textKey key).IsTextKey := by
  rw [textKey_eq]
  exact Value.isTextKey_ofText? key.rendered?

/-- A key that is text or null stays as it is. -/
theorem textKey_of_isTextKey {key : Value} (h : key.IsTextKey) : textKey key = key := by
  obtain rfl | ⟨text, rfl⟩ := h <;> rfl

/-! ## Entries under their texts -/

/-- The entries of a map under the texts of their keys; null has none. -/
def Entries.texts (entries : Entries) : List (Option String × Value) :=
  entries.map (Prod.map Value.rendered? id)

section

variable {entries : Entries}

/-- Text keys are equal as keys exactly if they are the same text, so it does not matter whether the texts
are made keys before or after the insertions. -/
theorem textKeyed_eq (entries : Entries) :
    textKeyed entries =
      (Ordered.ofList (· == ·) entries.texts).map (Prod.map Value.ofText? id) := by
  rw [Ordered.map_ofList Value.keyEq_ofText?, Entries.texts, List.map_map]
  simp only [textKeyed, Entries.ofList, textKey_eq]
  rfl

/-- The texts under text keys are those that were inserted. -/
theorem texts_textKeyed (entries : Entries) :
    (textKeyed entries).texts = Ordered.ofList (· == ·) entries.texts := by
  have hcancel : Prod.map Value.rendered? id ∘ Prod.map Value.ofText? (id : Value → Value) = id := by
    funext ⟨text?, v⟩
    simp
  rw [textKeyed_eq, Entries.texts, List.map_map, hcancel, List.map_id]

/-- Entries under different texts stay as they are. -/
theorem textKeyed_of_isTextKey (htext : ∀ entry ∈ entries, entry.1.IsTextKey)
    (hdistinct : Ordered.Distinct Value.keyEq entries) : textKeyed entries = entries := by
  rw [textKeyed, List.map_congr_left (g := id), List.map_id]
  · exact Ordered.ofList_of_distinct hdistinct
  · intro entry hmem
    simp [textKey_of_isTextKey (htext entry hmem)]

/-- The texts stand in the order in which each comes first. -/
theorem keys_ofList_texts (entries : Entries) :
    (Ordered.ofList (· == ·) entries.texts).map (·.1) = (entries.map (·.1.rendered?)).eraseDups := by
  rw [Ordered.keys_ofList_beq, Entries.texts, List.map_map]
  rfl

/-- The keys are the different texts of all keys, each where it comes first. -/
theorem keys_textKeyed (entries : Entries) :
    (textKeyed entries).map (·.1) =
      (entries.map (·.1.rendered?)).eraseDups.map Value.ofText? := by
  rw [textKeyed_eq, ← keys_ofList_texts, List.map_map, List.map_map]
  rfl

/-- The last entry of a text is the one under this text. -/
theorem mem_textKeyed_of_last {before after : Entries} {last : Value × Value}
    (h : ∀ later ∈ after, later.1.rendered? ≠ last.1.rendered?) :
    (textKey last.1, last.2) ∈ textKeyed (before ++ last :: after) := by
  have hlast : (last.1.rendered?, last.2) ∈
      Ordered.ofList (· == ·) (Entries.texts (before ++ last :: after)) := by
    rw [Entries.texts, List.map_append, List.map_cons]
    apply Ordered.mem_ofList_of_last
    intro later hmem
    obtain ⟨source, hsource, rfl⟩ := List.mem_map.mp hmem
    exact h source hsource
  rw [textKeyed_eq, textKey_eq]
  exact List.mem_map_of_mem (f := Prod.map Value.ofText? id) hlast

/-- What stands under a text comes from an entry of the map with this text. -/
theorem exists_of_mem_textKeyed {entry : Value × Value} (h : entry ∈ textKeyed entries) :
    ∃ source ∈ entries, entry = (textKey source.1, source.2) := by
  rw [textKeyed_eq] at h
  obtain ⟨named, hnamed, rfl⟩ := List.mem_map.mp h
  obtain ⟨source, hsource, rfl⟩ := List.mem_map.mp (Ordered.mem_of_mem_ofList hnamed)
  refine ⟨source, hsource, ?_⟩
  rw [textKey_eq]
  rfl

/-- Every text has an entry, which comes from an entry of the map. -/
theorem exists_mem_textKeyed {entry : Value × Value} (h : entry ∈ entries) :
    ∃ source ∈ entries, source.1.rendered? = entry.1.rendered? ∧
      (textKey source.1, source.2) ∈ textKeyed entries := by
  have hkey : textKey entry.1 ∈ (textKeyed entries).map (·.1) := by
    rw [keys_textKeyed, textKey_eq]
    apply List.mem_map_of_mem
    rw [List.mem_eraseDups]
    exact List.mem_map_of_mem (f := (·.1.rendered?)) h
  obtain ⟨kept, hkept, hsame⟩ := List.mem_map.mp hkey
  obtain ⟨source, hsource, rfl⟩ := exists_of_mem_textKeyed hkept
  refine ⟨source, hsource, ?_, hkept⟩
  simpa [textKey_eq] using congrArg Value.rendered? hsame

/-- There are as many entries as there are different texts. -/
theorem length_textKeyed (entries : Entries) :
    (textKeyed entries).length = (entries.map (·.1.rendered?)).toFinset.card := by
  have hkeys := keys_ofList_texts entries
  have hnodup : (entries.map (·.1.rendered?)).eraseDups.Nodup := by
    rw [← hkeys, ← Ordered.distinct_beq_iff]
    exact Ordered.distinct_ofList entries.texts
  calc (textKeyed entries).length
      = (entries.map (·.1.rendered?)).eraseDups.length := by simp [textKeyed_eq, ← hkeys]
    _ = (entries.map (·.1.rendered?)).eraseDups.toFinset.card :=
        (List.toFinset_card_of_nodup hnodup).symm
    _ = (entries.map (·.1.rendered?)).toFinset.card := by
        congr 1
        ext text?
        simp

end

/-- A map converts to the map under the texts of its keys, null staying null. The texts stand in the order
in which each comes first, and each has the value of its last entry; what has a text of its own is kept,
and there are as many entries as different texts. Where all keys are text, that is the map itself. -/
theorem convert_map_textKeyed (defaults : FormatDefaults) (entries : Entries)
    (hdistinct : Ordered.Distinct Value.keyEq entries) (field : String) :
    convert defaults .map (.map entries) field = .ok (.map (textKeyed entries)) ∧
      (textKeyed entries).map (·.1) =
        (entries.map (·.1.rendered?)).eraseDups.map Value.ofText? ∧
      (∀ before last after, entries = before ++ last :: after →
        (∀ later ∈ after, later.1.rendered? ≠ last.1.rendered?) →
        (textKey last.1, last.2) ∈ textKeyed entries) ∧
      (∀ entry ∈ entries,
        (∀ other ∈ entries, other.1.rendered? = entry.1.rendered? → other = entry) →
        (textKey entry.1, entry.2) ∈ textKeyed entries) ∧
      (textKeyed entries).length = (entries.map (·.1.rendered?)).toFinset.card ∧
      (Entries.hasTextKeys entries = true → textKeyed entries = entries) := by
  have hsame : Entries.hasTextKeys entries = true → textKeyed entries = entries := by
    intro htext
    exact textKeyed_of_isTextKey (Entries.forall_isTextKey_of_hasTextKeys htext) hdistinct
  refine ⟨?_, keys_textKeyed entries, ?_, ?_, length_textKeyed entries, hsame⟩
  · rw [convert_map defaults (by simp), settled_eq_ok_iff, toMap]
    split
    next htext => rw [hsame htext]
    next => rfl
  · rintro before last after rfl h
    exact mem_textKeyed_of_last h
  · intro entry hmem hunique
    obtain ⟨source, hsource, htext, hkept⟩ := exists_mem_textKeyed hmem
    rwa [hunique source hsource htext] at hkept

/-- An integer, a text and a day under keys of the same text. -/
def Entries.sameTextSample : Entries :=
  [(.int 1, .string "one"), (.null, .string "nothing"), (.string "1", .string "uno"),
    (.boolean true, .string "yes"), (.date ⟨1⟩, .string "eins")]

/-- The last of the entries of one text has the place of the first. -/
theorem convert_map_textKeyed_sameTextSample :
    Ordered.Distinct Value.keyEq Entries.sameTextSample ∧
      convert .empty .map (.map Entries.sameTextSample) "numbers" =
        .ok (.map [(.string "1", .string "eins"), (.null, .string "nothing"),
          (.string "true", .string "yes")]) := by
  have hdistinct : Ordered.Distinct Value.keyEq Entries.sameTextSample := by
    simp [Entries.sameTextSample, Ordered.Distinct, Value.keyEq]
  have hkeyed : textKeyed Entries.sameTextSample =
      [(.string "1", .string "eins"), (.null, .string "nothing"), (.string "true", .string "yes")] := by
    rw [textKeyed_eq]
    rfl
  refine ⟨hdistinct, ?_⟩
  rw [(convert_map_textKeyed .empty _ hdistinct "numbers").1, hkeyed]

end RecordCoercion
