import RecordCoercion.Proofs.Conversion.Agreement
import RecordCoercion.Proofs.Conversion.TextKeys

/-!
# The shape of what comes out

`HasShape type v w` says what a value `w` that `v` was converted to looks like, for every declared type
and at every depth: null only for null and for blank text that was to become a point in time, single
values of the kind of the type, arrays and records unchanged, maps with distinct text keys, records of
maps with members of the shape of their fields, and for a choice the shape of the chosen candidate.
`convert_hasShape` says that every conversion gives such a value.
-/

set_option autoImplicit false

namespace RecordCoercion

/-- A value converts to null: null itself does, and a blank text that is to become a point in
time. -/
def BecomesNull (type : DeclaredType) (v : Value) : Prop :=
  v = .null ∨ (type.kind.isTemporal = true ∧ v.IsBlankText)

mutual

/-- What a value that was converted to a type looks like. -/
inductive HasShape (defaults : FormatDefaults) : DeclaredType → Value → Value → Prop
  | null {type : DeclaredType} {v : Value} (hnull : BecomesNull type v) :
      HasShape defaults type v .null
  | single {type : DeclaredType} {v w : Value} (hnull : ¬ BecomesNull type v)
      (hsingle : type.kind.isComposite = false) (hkind : w.kind? = some type.kind) :
      HasShape defaults type v w
  | array (items : List Value) : HasShape defaults .array (.array items) (.array items)
  | map {v : Value} {entries : Entries} (hv : v ≠ .null)
      (htext : ∀ entry ∈ entries, entry.1.IsTextKey) (hdistinct : (entries.map (·.1)).Nodup) :
      HasShape defaults .map v (.map entries)
  | record (schema : Option RecordSchema) (bound : RecordSchema) (members : Members) :
      HasShape defaults (.record schema) (.record bound members) (.record bound members)
  | recordOfMap {schema : RecordSchema} {entries : Entries} {members : Members}
      (h : ∀ member ∈ members, HasMemberShape defaults schema entries member) :
      HasShape defaults (.record (some schema)) (.map entries) (.record schema members)
  | choice {candidates : List DeclaredType} {index : Nat} {candidate : DeclaredType} {v w : Value}
      (hchosen : choose? defaults (.choice candidates) v = some (index, candidate))
      (h : HasShape defaults candidate v w) : HasShape defaults (.choice candidates) v w

/-- What a member of a record that was a map looks like: its name is the name of a field, and its
value has the shape of that field for an entry under the name. -/
inductive HasMemberShape (defaults : FormatDefaults) :
    RecordSchema → Entries → String × Value → Prop
  | mk {schema : RecordSchema} {entries : Entries} {key : Value} {name : String}
      {type : DeclaredType} {v w : Value} (hmem : (key, v) ∈ entries)
      (hname : key.rendered? = some name) (htype : schema.typeOf? name = some type)
      (h : HasShape defaults type v w) : HasMemberShape defaults schema entries (name, w)

end

variable {defaults : FormatDefaults}

/-- Where no point in time is asked for, only null becomes null. -/
theorem not_becomesNull {type : DeclaredType} {v : Value} (hv : v ≠ .null)
    (h : type.kind.isTemporal = false) : ¬ BecomesNull type v := by
  rintro (hnull | ⟨htemporal, -⟩)
  · exact hv hnull
  · rw [h] at htemporal
    cases htemporal

/-- What is accepted does not become null. -/
theorem not_becomesNull_of_accepts {type : DeclaredType} {v : Value}
    (h : accepts defaults type v = true) : ¬ BecomesNull type v := by
  rintro (rfl | ⟨htemporal, hblank⟩)
  · simp at h
  · obtain ⟨kind, format, rfl⟩ := DeclaredType.exists_temporal htemporal
    rw [accepts_temporal defaults (ne_null_of_accepts h),
      TemporalKind.accepts_of_isBlankText _ hblank] at h
    cases h

/-! ## Null -/

/-- A value of some shape is null exactly if it was to become null. -/
theorem HasShape.eq_null_iff {type : DeclaredType} {v w : Value} :
    HasShape defaults type v w → (w = .null ↔ BecomesNull type v)
  | .null hnull => iff_of_true rfl hnull
  | .single hnull _ hkind => iff_of_false (Value.ne_null_of_kind? hkind) hnull
  | .array _ => iff_of_false (by simp) (not_becomesNull (by simp) rfl)
  | .map hv _ _ => iff_of_false (by simp) (not_becomesNull hv rfl)
  | .record _ _ _ => iff_of_false (by simp) (not_becomesNull (by simp) rfl)
  | .recordOfMap _ => iff_of_false (by simp) (not_becomesNull (by simp) rfl)
  | .choice hchosen h => by
    -- the chosen candidate accepts the value, so neither of the two can become null
    have haccepts := (accepts_of_choose? defaults hchosen).2
    exact h.eq_null_iff.trans (iff_of_false (not_becomesNull_of_accepts haccepts)
      (not_becomesNull (ne_null_of_accepts haccepts) rfl))

/-- A value of some shape that is not null has the kind of the type, unless this is a choice. -/
theorem HasShape.kind?_eq {type : DeclaredType} {v w : Value} (h : HasShape defaults type v w)
    (hw : w ≠ .null) (htype : type.kind ≠ .choice) : w.kind? = some type.kind := by
  cases h with
  | null _ => exact absurd rfl hw
  | single _ _ hkind => exact hkind
  | choice _ _ => exact absurd rfl htype
  | array | map | record | recordOfMap => rfl

/-! ## Conversion -/

/-- A single conversion that agrees with a test gives a value of the shape of its type. -/
theorem Agrees.hasShape {type : DeclaredType} {kind : FieldKind} {accepted : Bool}
    {result : Except Reason Value} {v w : Value} (h : Agrees kind accepted result)
    (hnull : ¬ BecomesNull type v) (hkind : type.kind = kind) (hsingle : kind.isComposite = false)
    (hw : result = .ok w) : HasShape defaults type v w := by
  subst hkind
  exact .single hnull hsingle (h.kind_of_ok hw)

/-- Maps with distinct keys and records become maps with distinct text keys. -/
theorem toMap_hasShape {v w : Value} (hv : v.HasDistinctKeys) (h : toMap v = .ok w) :
    HasShape defaults .map v w := by
  have hofList : ∀ insertions : List (Value × Value),
      (∀ insertion ∈ insertions, insertion.1.IsTextKey) → v ≠ .null →
        HasShape defaults .map v (.map (Entries.ofList insertions)) := by
    intro insertions htext hnull
    have hkeys := Entries.forall_isTextKey_ofList htext
    exact .map hnull hkeys (Entries.nodup_keys hkeys (Ordered.distinct_ofList insertions))
  cases v <;> cases h
  case map entries =>
    split
    next htext =>
      have hkeys := Entries.forall_isTextKey_of_hasTextKeys htext
      exact .map (by simp) hkeys (Entries.nodup_keys hkeys hv.distinct_of_map)
    next =>
      refine hofList _ ?_ (by simp)
      intro insertion hmem
      obtain ⟨⟨key, value⟩, -, rfl⟩ := List.mem_map.mp hmem
      exact isTextKey_textKey key
  case record bound members =>
    refine hofList _ ?_ (by simp)
    intro insertion hmem
    obtain ⟨name, -, rfl⟩ := List.mem_map.mp hmem
    exact .inr ⟨name, rfl⟩

/-- The members of a record that was a map have the shapes of their fields. -/
theorem recordOfMap_hasShape {schema : RecordSchema} {entries : Entries} {field : String} {w : Value}
    (h : convert defaults (.record (some schema)) (.map entries) field = .ok w)
    (hmembers : ∀ kept ∈ keptEntries schema entries, ∀ w,
      kept.convert defaults field = .ok w → HasShape defaults kept.type kept.value w) :
    HasShape defaults (.record (some schema)) (.map entries) w := by
  obtain ⟨value, hvalue, rfl⟩ := exists_values_of_convert_map h
  apply HasShape.recordOfMap
  refine Ordered.forall_mem_insertAll (P := HasMemberShape defaults schema entries) ?_ (by simp)
  intro insertion hmem name hname
  obtain ⟨kept, hkept, rfl⟩ := List.mem_map.mp hmem
  have hsame : name = kept.name := by simpa using hname
  subst hsame
  obtain ⟨key, hentry, hrendered, htype⟩ := mem_keptEntries.mp hkept
  exact .mk hentry hrendered htype (hmembers kept hkept _ (hvalue kept hkept))

/-- A value that does not turn null converts to a record of the shape of the type. -/
theorem record_hasShape {schema : Option RecordSchema} {field : String} {v w : Value}
    (hv : v ≠ .null) (h : convert defaults (.record schema) v field = .ok w)
    (hmembers : ∀ s entries, schema = some s → v = .map entries →
      ∀ kept ∈ keptEntries s entries, ∀ w,
        kept.convert defaults field = .ok w → HasShape defaults kept.type kept.value w) :
    HasShape defaults (.record schema) v w := by
  obtain hrecord | ⟨s, entries, rfl, rfl, -⟩ := source_of_record hv h
  · obtain ⟨bound, members, rfl⟩ := Value.exists_of_kind?_record hrecord
    rw [convert_record_of_record] at h
    cases h
    exact .record schema bound members
  · exact recordOfMap_hasShape h (hmembers s entries rfl rfl)

/-- Null converts to a value of the shape of any type, which is null. -/
theorem null_hasShape {type : DeclaredType} {field : String} {v w : Value} (hv : v = .null)
    (h : convert defaults type v field = .ok w) : HasShape defaults type v w := by
  subst hv
  rw [convert_null] at h
  cases h
  exact .null (.inl rfl)

/-- What is not null converts to a value of the shape of the type. -/
theorem hasShape_of_convert {type : DeclaredType} {field : String} {v w : Value}
    (hkeys : v.HasDistinctKeys) (hv : v ≠ .null) (h : convert defaults type v field = .ok w) :
    HasShape defaults type v w := by
  induction type using DeclaredType.familyInduction generalizing v w field with
  | boolean =>
    rw [convert_boolean defaults hv, settled_eq_ok_iff] at h
    exact (toBoolean_agrees v).hasShape (not_becomesNull hv rfl) rfl rfl h
  | numeric kind =>
    rw [convert_numeric defaults hv, settled_eq_ok_iff] at h
    have hkind : kind.type.kind.isTemporal = false := by
      rw [kind.kind_type]
      exact kind.isComposite_kind.2
    exact (kind.convert_agrees v).hasShape (not_becomesNull hv hkind) kind.kind_type kind.isComposite_kind.1 h
  | char =>
    rw [convert_char defaults hv, settled_eq_ok_iff] at h
    exact (toChar_agrees v).hasShape (not_becomesNull hv rfl) rfl rfl h
  | string format =>
    rw [convert_string defaults hv] at h
    obtain ⟨text, ht⟩ | ⟨f, i, rfl, hi, hcannot⟩ := toText_cases format hv
    · rw [ht] at h
      cases h
      exact .single (not_becomesNull hv rfl) rfl rfl
    · rw [toText_of_cannotWrite hi hcannot] at h
      cases h
  | temporal kind format =>
    rw [convert_temporal defaults hv, settled_eq_ok_iff] at h
    by_cases hblank : v.IsBlankText
    · rw [kind.convert_of_isBlankText _ hblank] at h
      cases h
      refine .null (.inr ⟨?_, hblank⟩)
      rw [kind.kind_type]
      exact kind.isComposite_kind.2
    · refine (kind.convert_agrees _ hblank).hasShape ?_ (kind.kind_type format)
        kind.isComposite_kind.1 h
      rintro (hv' | ⟨-, hblank'⟩)
      · exact hv hv'
      · exact hblank hblank'
  | array =>
    rw [convert_array defaults hv, settled_eq_ok_iff] at h
    cases v <;> cases h
    exact .array _
  | map =>
    rw [convert_map defaults hv, settled_eq_ok_iff] at h
    exact toMap_hasShape hkeys h
  | bareRecord => exact record_hasShape hv h (by rintro s entries ⟨⟩)
  | record schema ih =>
    refine record_hasShape hv h ?_
    rintro s entries ⟨rfl⟩ rfl kept hkept w hw
    obtain ⟨key, hentry, -, htype⟩ := mem_keptEntries.mp hkept
    -- the map is not null, but its entries may be
    by_cases hvalue : kept.value = .null
    · exact null_hasShape hvalue hw
    · exact ih (kept.name, kept.type) (mem_fields_of_typeOf? htype) (hkeys.of_entry hentry) hvalue hw
  | choice candidates ih =>
    obtain ⟨index, candidate, hchosen⟩ | hnone := choose?_cases defaults candidates v
    · rw [convert_choice_of_choose? defaults hchosen] at h
      exact .choice hchosen
        (ih candidate (accepts_of_choose? defaults hchosen).1 hkeys hv h)
    · rw [convert_choice_of_forall defaults hv hnone] at h
      cases h

/-- What a conversion gives is null exactly for null and for blank text that was to become a point in
time; otherwise it has the kind of the type, if this is no choice. At every depth it has the shape of
its type: that of the chosen candidate for a choice, distinct text keys for a map, the array itself,
the record itself, and for a record made of a map the schema of the type, names declared by it and
values of the shapes of their fields. -/
theorem convert_hasShape (defaults : FormatDefaults) (type : DeclaredType) (v : Value)
    (hkeys : v.HasDistinctKeys) (field : String) (w : Value)
    (h : convert defaults type v field = .ok w) :
    (w = .null ↔ v = .null ∨ (type.kind.isTemporal = true ∧ v.IsBlankText)) ∧
      (w ≠ .null → type.kind ≠ .choice → w.kind? = some type.kind) ∧
      HasShape defaults type v w := by
  have hshape : HasShape defaults type v w := by
    by_cases hv : v = .null
    · exact null_hasShape hv h
    · exact hasShape_of_convert hkeys hv h
  exact ⟨hshape.eq_null_iff, hshape.kind?_eq, hshape⟩

/-- A map becomes a record with the member that its schema declares, which has the shape of the first
candidate that can hold the number, and without the entry under null. -/
theorem convert_choice_member_hasShape :
    Value.HasDistinctKeys (.map [(.string "n", .string "300"), (.null, .long 1)]) ∧
      convert .empty (.record (some ⟨[("n", .choice [.byte, .bigInt])]⟩))
        (.map [(.string "n", .string "300"), (.null, .long 1)]) "order" =
          .ok (.record ⟨[("n", .choice [.byte, .bigInt])]⟩ [("n", .bigInt 300)]) ∧
      HasShape .empty (.record (some ⟨[("n", .choice [.byte, .bigInt])]⟩))
        (.map [(.string "n", .string "300"), (.null, .long 1)])
        (.record ⟨[("n", .choice [.byte, .bigInt])]⟩ [("n", .bigInt 300)]) := by
  have hsingle : ∀ entry ∈ [(Value.string "n", Value.string "300"), (Value.null, Value.long 1)],
      entry.1.HasDistinctKeys ∧ entry.2.HasDistinctKeys := by
    simp only [List.forall_mem_cons, List.not_mem_nil, false_imp_iff, implies_true, and_true]
    refine ⟨⟨.single ?_, .single ?_⟩, .single ?_, .single ?_⟩ <;> rintro kind ⟨⟩ <;> rfl
  have hkeys : Value.HasDistinctKeys (.map [(.string "n", .string "300"), (.null, .long 1)]) := by
    refine .map (by simp [Ordered.Distinct, Value.keyEq]) ?_ ?_
    · exact fun entry hmem => (hsingle entry hmem).1
    · exact fun entry hmem => (hsingle entry hmem).2
  have hconvert : convert .empty (.record (some ⟨[("n", .choice [.byte, .bigInt])]⟩))
      (.map [(.string "n", .string "300"), (.null, .long 1)]) "order" =
        .ok (.record ⟨[("n", .choice [.byte, .bigInt])]⟩ [("n", .bigInt 300)]) := by
    rfl
  exact ⟨hkeys, hconvert, (convert_hasShape .empty _ _ hkeys "order" _ hconvert).2.2⟩

end RecordCoercion
