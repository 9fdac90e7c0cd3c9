import RecordCoercion.Proofs.Conversion.Agreement

/-!
# Where a conversion fails

The name of the field only labels a failure. For every type and value there is one outcome whatever
the name: a value, or a failure that belongs to a value and a type some way down the nested maps and
record schemas (`Reaches`) and arises right there (`FailsItself`). The path that is told is then the
name of the field followed by the names of the members on the way. A conversion that gets to writing
an instant in a format that can only be read (`GetsStuck`) has neither outcome, and is the only one
that has neither. `convert_localised` is the top.
-/

set_option autoImplicit false

namespace RecordCoercion

/-- Names of members lead from a type and a value to a type and a value inside them: each step goes
from a record type with a schema and a map to a field of the schema and an entry whose key as text is
the name of that field. -/
inductive Reaches : DeclaredType → Value → List String → DeclaredType → Value → Prop
  | here (type : DeclaredType) (v : Value) : Reaches type v [] type v
  | member {schema : RecordSchema} {entries : Entries} {key : Value} {name : String}
      {type t : DeclaredType} {v x : Value} {names : List String} (hmem : (key, v) ∈ entries)
      (hname : key.rendered? = some name) (htype : schema.typeOf? name = some type)
      (h : Reaches type v names t x) :
      Reaches (.record (some schema)) (.map entries) (name :: names) t x

/-- A value that is not null does not convert to a type for a reason that has nothing to do with its
members: a single conversion gives that reason, or what should become a record is a map without a
schema or neither a record nor a map, or no candidate accepts the value. -/
inductive FailsItself (defaults : FormatDefaults) (v : Value) : DeclaredType → Reason → Prop
  | boolean {reason : Reason} (h : toBoolean v = .error reason) :
      FailsItself defaults v .boolean reason
  | numeric {kind : NumericKind} {reason : Reason} (h : kind.convert v = .error reason) :
      FailsItself defaults v kind.type reason
  | char {reason : Reason} (h : toChar v = .error reason) : FailsItself defaults v .char reason
  | temporal {kind : TemporalKind} {format : Option TemporalFormat} {reason : Reason}
      (h : kind.convert (format.or (defaults.format? kind.kind)) v = .error reason) :
      FailsItself defaults v (kind.type format) reason
  | array {reason : Reason} (h : toArray v = .error reason) : FailsItself defaults v .array reason
  | map {reason : Reason} (h : toMap v = .error reason) : FailsItself defaults v .map reason
  | bareRecord (hmap : v.kind? = some .map) :
      FailsItself defaults v (.record none) .missingSchema
  | record {schema : Option RecordSchema} (hmap : v.kind? ≠ some .map)
      (hrecord : v.kind? ≠ some .record) : FailsItself defaults v (.record schema) .incompatible
  | choice {candidates : List DeclaredType}
      (h : ∀ candidate ∈ candidates, accepts defaults candidate v = false) :
      FailsItself defaults v (.choice candidates)
        (.noMatchingCandidate (candidates.map DeclaredType.display))

/-- A conversion gets to writing an instant in a format that cannot write it: text is asked for in
this format, or the first entry of a map that does not become a member gets there, or the chosen
candidate does. -/
inductive GetsStuck (defaults : FormatDefaults) (format : TemporalFormat) :
    DeclaredType → Value → Prop
  | here {v : Value} {i : Instant} (hinstant : v.instant? = some i) (h : format.CannotWrite i) :
      GetsStuck defaults format (.string (some format)) v
  | member {schema : RecordSchema} {entries : Entries} {before after : List KeptEntry}
      {kept : KeptEntry} (hsplit : keptEntries schema entries = before ++ kept :: after)
      (hbefore : ∀ earlier ∈ before, ∃ w, ∀ field,
        convert defaults earlier.type earlier.value field = .ok w)
      (h : GetsStuck defaults format kept.type kept.value) :
      GetsStuck defaults format (.record (some schema)) (.map entries)
  | candidate {candidates : List DeclaredType} {index : Nat} {candidate : DeclaredType} {v : Value}
      (hchosen : choose? defaults (.choice candidates) v = some (index, candidate))
      (h : GetsStuck defaults format candidate v) :
      GetsStuck defaults format (.choice candidates) v

/-! ## Paths -/

/-- Behind a field with a name, a path is the names joined by points. -/
theorem foldl_memberPath {field : String} (h : field ≠ "") (names : List String) :
    names.foldl memberPath field = ".".intercalate (field :: names) := by
  induction names generalizing field with
  | nil => rw [List.foldl_nil, String.intercalate_singleton]
  | cons name rest ih =>
    have hfield : field.isEmpty = false := by
      rw [Bool.eq_false_iff, ne_eq, String.isEmpty_iff]
      exact h
    have hpath : memberPath field name = field ++ "." ++ name := by simp [memberPath, hfield]
    have hne : memberPath field name ≠ "" := by
      rw [hpath]
      simp
    rw [List.foldl_cons, ih hne, hpath, String.intercalate_cons_append,
      String.intercalate_cons_cons]

/-! ## Outcomes -/

/-- What a conversion comes to in all fields alike. -/
inductive HasOutcome (defaults : FormatDefaults) (type : DeclaredType) (v : Value) : Prop
  | value (w : Value) (h : ∀ field, convert defaults type v field = .ok w)
  | failure (names : List String) (t : DeclaredType) (x : Value) (reason : Reason)
      (hreach : Reaches type v names t x) (hx : x ≠ .null) (hfails : FailsItself defaults x t reason)
      (h : ∀ field, convert defaults type v field =
        .error (.failed ⟨x, t.kind, names.foldl memberPath field, reason⟩))
  | stuck (format : TemporalFormat) (hstuck : GetsStuck defaults format type v)
      (h : ∀ field, convert defaults type v field = .error (.unrenderable format))

section

variable {defaults : FormatDefaults} {type : DeclaredType} {v : Value}

/-- A value that converts in one field converts to the same value in every field. -/
theorem HasOutcome.ok_all (houtcome : HasOutcome defaults type v) {field : String} {w : Value}
    (h : convert defaults type v field = .ok w) (other : String) :
    convert defaults type v other = .ok w := by
  cases houtcome with
  | value w' hvalue =>
    rw [hvalue field] at h
    rw [hvalue other, h]
  | failure names t x reason _ _ _ hfailure =>
    rw [hfailure field] at h
    cases h
  | stuck format _ herror =>
    rw [herror field] at h
    cases h

/-- A failure that has nothing to do with members names the value, the type and the field itself. -/
theorem FailsItself.convert_eq {reason : Reason} (h : FailsItself defaults v type reason)
    (hv : v ≠ .null) (field : String) :
    convert defaults type v field = .error (.failed ⟨v, type.kind, field, reason⟩) := by
  cases h with
  | boolean h =>
    rw [convert_boolean defaults hv, h]
    rfl
  | numeric h =>
    rw [convert_numeric defaults hv, h, NumericKind.kind_type]
    rfl
  | char h =>
    rw [convert_char defaults hv, h]
    rfl
  | temporal h =>
    rw [convert_temporal defaults hv, h, TemporalKind.kind_type]
    rfl
  | array h =>
    rw [convert_array defaults hv, h]
    rfl
  | map h =>
    rw [convert_map defaults hv, h]
    rfl
  | bareRecord hmap =>
    obtain ⟨entries, rfl⟩ := Value.exists_of_kind?_map hmap
    exact convert_bareRecord_of_map defaults entries field
  | record hmap hrecord => exact convert_record_of_other defaults hv _ hmap hrecord field
  | choice h => exact convert_choice_of_forall defaults hv h field

/-- A failure that has nothing to do with members is an outcome. -/
theorem FailsItself.hasOutcome {reason : Reason} (h : FailsItself defaults v type reason)
    (hv : v ≠ .null) : HasOutcome defaults type v :=
  .failure [] type v reason (.here type v) hv h (h.convert_eq hv)

/-- A settled conversion has an outcome: its value, or a failure of its own. -/
theorem hasOutcome_of_settled {kind : FieldKind} {result : Except Reason Value} (hv : v ≠ .null)
    (h : ∀ field, convert defaults type v field = settled v kind field result)
    (hfails : ∀ reason, result = .error reason → FailsItself defaults v type reason) :
    HasOutcome defaults type v := by
  cases result with
  | ok w => exact .value w h
  | error reason => exact (hfails reason rfl).hasOutcome hv

/-- A map that is to become a record has an outcome if its kept entries have. -/
theorem hasOutcome_of_map {schema : RecordSchema} {entries : Entries}
    (ih : ∀ kept ∈ keptEntries schema entries, HasOutcome defaults kept.type kept.value) :
    HasOutcome defaults (.record (some schema)) (.map entries) := by
  obtain hall | ⟨before, failing, after, e, hsplit, hbefore, hfailing⟩ :=
    forall_ok_or_first_failure (KeptEntry.convert defaults "") (keptEntries schema entries)
  · obtain ⟨value, hvalue⟩ := exists_values hall
    have hvalue' : ∀ field, ∀ kept ∈ keptEntries schema entries,
        kept.convert defaults field = .ok (value kept) :=
      fun field kept hmem => (ih kept hmem).ok_all (hvalue kept hmem) _
    exact .value _ fun field => convert_map_of_forall_ok (hvalue' field)
  · have hmem : failing ∈ keptEntries schema entries := by simp [hsplit]
    -- the entries before convert in every field, so the first failure is the same in all of them
    have hbefore' : ∀ earlier ∈ before, ∃ w, ∀ field,
        convert defaults earlier.type earlier.value field = .ok w := by
      intro earlier hearlier
      obtain ⟨w, hw⟩ := hbefore earlier hearlier
      exact ⟨w, (ih earlier (by simp [hsplit, hearlier])).ok_all hw⟩
    have hrecord : ∀ field e, failing.convert defaults field = .error e →
        convert defaults (.record (some schema)) (.map entries) field = .error e := by
      refine fun field e => convert_map_of_first_failure hsplit fun earlier hearlier => ?_
      obtain ⟨w, hw⟩ := hbefore' earlier hearlier
      exact ⟨w, hw _⟩
    obtain ⟨key, hentry, hname, htype⟩ := mem_keptEntries.mp hmem
    cases ih failing hmem with
    | value w h =>
      rw [KeptEntry.convert, h] at hfailing
      cases hfailing
    | failure names t x reason hreach hx hfails h =>
      exact .failure (failing.name :: names) t x reason (.member hentry hname htype hreach) hx hfails
        fun field => hrecord field _ (h (memberPath field failing.name))
    | stuck format hstuck h =>
      exact .stuck format (.member hsplit hbefore' hstuck)
        fun field => hrecord field _ (h (memberPath field failing.name))

/-- What is to become a record has an outcome if the kept entries of a map have. -/
theorem hasOutcome_of_record (schema : Option RecordSchema) (hv : v ≠ .null)
    (ih : ∀ s entries, schema = some s → v = .map entries →
      ∀ kept ∈ keptEntries s entries, HasOutcome defaults kept.type kept.value) :
    HasOutcome defaults (.record schema) v := by
  by_cases hrecord : v.kind? = some .record
  · obtain ⟨bound, members, rfl⟩ := Value.exists_of_kind?_record hrecord
    exact .value _ (convert_record_of_record defaults schema bound members)
  · by_cases hmap : v.kind? = some .map
    · cases schema with
      | none => exact (FailsItself.bareRecord hmap).hasOutcome hv
      | some s =>
        obtain ⟨entries, rfl⟩ := Value.exists_of_kind?_map hmap
        exact hasOutcome_of_map (ih s entries rfl rfl)
    · exact (FailsItself.record hmap hrecord).hasOutcome hv

/-- What is to become a choice has the outcome of the chosen candidate, if there is one. -/
theorem hasOutcome_of_choice {candidates : List DeclaredType} (hv : v ≠ .null)
    (ih : ∀ candidate ∈ candidates, HasOutcome defaults candidate v) :
    HasOutcome defaults (.choice candidates) v := by
  obtain ⟨index, candidate, hchosen⟩ | hnone := choose?_cases defaults candidates v
  · obtain ⟨hmem, haccepts⟩ := accepts_of_choose? defaults hchosen
    have hconvert := convert_choice_of_choose? defaults hchosen
    cases ih candidate hmem with
    | value w h => exact .value w fun field => (hconvert field).trans (h field)
    | failure _ _ _ _ _ _ _ h =>
      -- what is accepted gives a value or gets stuck
      obtain ⟨w, hw, -⟩ | ⟨format, -, -, hstuck⟩ := convert_cases_of_accepts haccepts ""
      · rw [h] at hw
        cases hw
      · rw [h] at hstuck
        cases hstuck
    | stuck format hstuck h =>
      exact .stuck format (.candidate hchosen hstuck) fun field => (hconvert field).trans (h field)
  · exact (FailsItself.choice hnone).hasOutcome hv

end

/-- The conversion of null has an outcome, which is null. -/
theorem hasOutcome_of_null {defaults : FormatDefaults} {type : DeclaredType} {v : Value}
    (hv : v = .null) : HasOutcome defaults type v := by
  subst hv
  exact .value .null (convert_null defaults type)

/-- Every conversion of a value that is not null has an outcome. -/
theorem hasOutcome_of_ne_null (defaults : FormatDefaults) {type : DeclaredType} {v : Value}
    (hv : v ≠ .null) : HasOutcome defaults type v := by
  induction type using DeclaredType.familyInduction generalizing v with
  | boolean => exact hasOutcome_of_settled hv (convert_boolean defaults hv) fun _ h => .boolean h
  | numeric kind =>
    exact hasOutcome_of_settled hv (convert_numeric defaults hv kind) fun _ h => .numeric h
  | char => exact hasOutcome_of_settled hv (convert_char defaults hv) fun _ h => .char h
  | string format =>
    obtain ⟨text, ht⟩ | ⟨f, i, rfl, hi, hcannot⟩ := toText_cases format hv
    · exact .value (.string text) fun field => (convert_string defaults hv format field).trans ht
    · exact .stuck f (.here hi hcannot) fun field =>
        (convert_string defaults hv (some f) field).trans (toText_of_cannotWrite hi hcannot)
  | temporal kind format =>
    exact hasOutcome_of_settled hv (convert_temporal defaults hv kind format) fun _ h => .temporal h
  | array => exact hasOutcome_of_settled hv (convert_array defaults hv) fun _ h => .array h
  | map => exact hasOutcome_of_settled hv (convert_map defaults hv) fun _ h => .map h
  | bareRecord => exact hasOutcome_of_record none hv (by rintro s entries ⟨⟩)
  | record schema ih =>
    refine hasOutcome_of_record (some schema) hv ?_
    rintro s entries ⟨rfl⟩ - kept hkept
    obtain ⟨key, -, -, htype⟩ := mem_keptEntries.mp hkept
    -- the map is not null, but its entries may be
    by_cases hvalue : kept.value = .null
    · exact hasOutcome_of_null hvalue
    · exact ih (kept.name, kept.type) (mem_fields_of_typeOf? htype) hvalue
  | choice candidates ih =>
    exact hasOutcome_of_choice hv fun candidate hmem => ih candidate hmem hv

/-- Every conversion has an outcome. -/
theorem hasOutcome (defaults : FormatDefaults) (type : DeclaredType) (v : Value) :
    HasOutcome defaults type v := by
  by_cases hv : v = .null
  · exact hasOutcome_of_null hv
  · exact hasOutcome_of_ne_null defaults hv

/-- A conversion that gets stuck has no value and no failure. -/
theorem GetsStuck.convert_eq {defaults : FormatDefaults} {format : TemporalFormat}
    {type : DeclaredType} {v : Value} (h : GetsStuck defaults format type v) (field : String) :
    convert defaults type v field = .error (.unrenderable format) := by
  induction h generalizing field with
  | here hinstant h =>
    rw [convert_string defaults (by rintro rfl; cases hinstant)]
    exact toText_of_cannotWrite hinstant h
  | @member schema entries before after kept hsplit hbefore _ ih =>
    refine convert_map_of_first_failure hsplit ?_ (ih (memberPath field kept.name))
    intro earlier hearlier
    obtain ⟨w, hw⟩ := hbefore earlier hearlier
    exact ⟨w, hw _⟩
  | candidate hchosen _ ih => rw [convert_choice_of_choose? defaults hchosen, ih]

/-- A conversion stops at a format exactly if it gets to writing an instant that this format cannot
write. -/
theorem convert_eq_unrenderable_iff {defaults : FormatDefaults} {format : TemporalFormat}
    {type : DeclaredType} {v : Value} {field : String} :
    convert defaults type v field = .error (.unrenderable format) ↔
      GetsStuck defaults format type v := by
  refine ⟨fun herror => ?_, fun hstuck => hstuck.convert_eq field⟩
  cases hasOutcome defaults type v with
  | value w h =>
    rw [h] at herror
    cases herror
  | failure _ _ _ _ _ _ _ h =>
    rw [h] at herror
    cases herror
  | stuck other hstuck h =>
    rw [h] at herror
    cases herror
    exact hstuck

/-- A conversion gives the same value in every field, or fails in every field for the same reason of
a value and a type that names of members lead to. The failure tells how that value is displayed and the
name of its kind, the kind of that type, the reason and the path, which is the field and these names,
joined by points if the field has a name. Neither is the case exactly if the conversion gets to writing
an instant in a format that can only be read, where it stops. -/
theorem convert_localised (defaults : FormatDefaults) (type : DeclaredType) (v : Value) :
    (((∃ w, ∀ field, convert defaults type v field = .ok w) ∨
      ∃ names t x reason, Reaches type v names t x ∧ x ≠ .null ∧ FailsItself defaults x t reason ∧
        ∀ field, ∃ failure : Failure, convert defaults type v field = .error (.failed failure) ∧
          failure.value = x ∧ failure.valueText = x.display ∧ failure.valueKind = x.kindName ∧
          failure.target = t.kind ∧ failure.reason = reason ∧
          failure.field = names.foldl memberPath field ∧
          (field ≠ "" → failure.field = ".".intercalate (field :: names))) ↔
      ¬ ∃ format, GetsStuck defaults format type v) ∧
    ∀ format field,
      convert defaults type v field = .error (.unrenderable format) ↔
        GetsStuck defaults format type v := by
  refine ⟨⟨?_, ?_⟩, fun format field => convert_eq_unrenderable_iff⟩
  · rintro houtcome ⟨format, hstuck⟩
    have herror := hstuck.convert_eq ""
    obtain ⟨w, h⟩ | ⟨names, t, x, reason, -, -, -, h⟩ := houtcome
    · rw [h] at herror
      cases herror
    · obtain ⟨failure, hfailure, -⟩ := h ""
      rw [hfailure] at herror
      cases herror
  · intro hfree
    cases hasOutcome defaults type v with
    | value w h => exact .inl ⟨w, h⟩
    | failure names t x reason hreach hx hfails h =>
      refine .inr ⟨names, t, x, reason, hreach, hx, hfails, fun field => ?_⟩
      exact ⟨_, h field, rfl, rfl, rfl, rfl, rfl, rfl, fun hfield => foldl_memberPath hfield names⟩
    | stuck format hstuck _ => exact absurd ⟨format, hstuck⟩ hfree

/-- The conversion of a date to text with the permissive offset gives no value, nor a failure that is
told. -/
theorem convert_date_permissive_not_localised :
    ¬ ((∃ w, ∀ field,
        convert .empty (.string (some ⟨"%#z", by decide⟩)) (.date ⟨0⟩) field = .ok w) ∨
      ∃ failure : String → Failure, ∀ field,
        convert .empty (.string (some ⟨"%#z", by decide⟩)) (.date ⟨0⟩) field =
          .error (.failed (failure field))) := by
  have hstops : convert .empty (.string (some ⟨"%#z", by decide⟩)) (.date ⟨0⟩) "when" =
      .error (.unrenderable ⟨"%#z", by decide⟩) := by
    rfl
  rintro (⟨w, h⟩ | ⟨failure, h⟩)
  · have hvalue := h "when"
    rw [hstops] at hvalue
    cases hvalue
  · have hfailure := h "when"
    rw [hstops] at hfailure
    cases hfailure

end RecordCoercion
