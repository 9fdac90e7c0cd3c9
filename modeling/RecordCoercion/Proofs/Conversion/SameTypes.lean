import Mathlib.Data.List.Forall2
import RecordCoercion.Proofs.Catalog.SameType

/-!
# Conversions to types that are the same

Types that differ only in the order of the fields of their schemas are the same, and conversions do
not tell them apart. They accept the same values, choose the candidate in the same place, and either
fail with the same error or give the same result (`conversions_respect_same`). Only the order of the
fields in the schemas that records built from maps are bound to may differ (`Realigned`); the members
of such a record follow the entries of the map, not the fields, so they come in the same order.
-/

set_option autoImplicit false

namespace RecordCoercion

/-! ## What stays the same -/

mutual

/-- A value is another but for the order of the fields in the schemas of records that were built on
the way. -/
inductive Realigned : Value → Value → Prop
  | same (w : Value) : Realigned w w
  | built {schema other : RecordSchema} (hschema : schema.same other = true)
      {members members' : Members} (h : List.Forall₂ RealignedMember members members') :
      Realigned (.record schema members) (.record other members')

/-- A member is another of the same name but for the order of fields in its value. -/
inductive RealignedMember : String × Value → String × Value → Prop
  | mk (name : String) {w w' : Value} (h : Realigned w w') : RealignedMember (name, w) (name, w')

end

/-- Two outcomes agree: both give results that are related, or both fail with the same error. -/
inductive OutcomesAgree {α : Type} (results : α → α → Prop) :
    Except ConversionError α → Except ConversionError α → Prop
  | ok {a a' : α} (h : results a a') : OutcomesAgree results (.ok a) (.ok a')
  | error (e : ConversionError) : OutcomesAgree results (.error e) (.error e)

section

variable {α β : Type}

/-- An outcome agrees with itself. -/
theorem OutcomesAgree.refl {results : α → α → Prop} (hrefl : ∀ a, results a a)
    (outcome : Except ConversionError α) : OutcomesAgree results outcome outcome := by
  cases outcome with
  | ok a => exact .ok (hrefl a)
  | error e => exact .error e

/-- What is done to the results of outcomes that agree gives outcomes that agree. -/
theorem OutcomesAgree.map {results : α → α → Prop} {results' : β → β → Prop} {f g : α → β}
    {outcome outcome' : Except ConversionError α} (h : OutcomesAgree results outcome outcome')
    (hresults : ∀ a a', results a a' → results' (f a) (g a')) :
    OutcomesAgree results' (outcome.map f) (outcome'.map g) := by
  cases h with
  | ok h => exact .ok (hresults _ _ h)
  | error e => exact .error e

/-- Where the items of two lists are related and pass two tests alike, the first items that pass stand
in the same place and are related. -/
theorem rel_find?_zipIdx {related : α → β → Prop} {p : α → Bool} {q : β → Bool} {items : List α}
    {others : List β} (h : List.Forall₂ related items others)
    (htest : ∀ item other, item ∈ items → other ∈ others → related item other → p item = q other)
    (start : Nat) :
    Option.Rel (fun found found' => related found.1 found'.1 ∧ found.2 = found'.2)
      ((items.zipIdx start).find? fun entry => p entry.1)
      ((others.zipIdx start).find? fun entry => q entry.1) := by
  induction h generalizing start with
  | nil => exact .none
  | @cons item other _ _ hitem _ ih =>
    have hfirst := htest item other List.mem_cons_self List.mem_cons_self hitem
    rw [List.zipIdx_cons, List.zipIdx_cons, List.find?_cons, List.find?_cons, ← hfirst]
    cases p item with
    | true => exact .some ⟨hitem, rfl⟩
    | false =>
      apply ih
      intro item' other' hmem hmem'
      exact htest item' other' (List.mem_cons_of_mem _ hmem) (List.mem_cons_of_mem _ hmem')

end

namespace DeclaredType

/-! ## Display -/

/-- A choice is displayed with its candidates in order. -/
theorem text_choice (candidates : List DeclaredType) :
    (choice candidates).text =
      "Choice[".toList ++ separated ", ".toList (texts candidates) ++ [']'] := rfl

/-- Types that are the same are displayed in the same way. -/
theorem text_eq_of_same {type other : DeclaredType} (h : type.same other = true) :
    type.text = other.text := by
  induction type using schemaInduction generalizing other with
  | simple type hsimple => rw [(same_iff_of_isSimple hsimple other).mp h]
  | record schema _ =>
    obtain ⟨schema', rfl⟩ := exists_of_same_record h
    rfl
  | choice candidates ih =>
    obtain ⟨candidates', rfl⟩ := exists_of_same_choice h
    rw [same_choice, sameLists_iff] at h
    have htexts : texts candidates = texts candidates' := by
      induction h with
      | nil => rfl
      | cons hcandidate _ ihrest =>
        obtain ⟨hfirst, hrest⟩ := List.forall_mem_cons.mp ih
        rw [texts, texts, hfirst hcandidate, ihrest hrest]
    rw [text_choice, text_choice, htexts]

/-- Candidates that are the same are listed in the same way. -/
theorem map_display_eq_of_same {candidates others : List DeclaredType}
    (h : List.Forall₂ (fun type other => type.same other = true) candidates others) :
    candidates.map display = others.map display := by
  induction h with
  | nil => rfl
  | cons hcandidate _ ih =>
    rw [List.map_cons, List.map_cons, ih, display, display, text_eq_of_same hcandidate]

/-! ## Types with distinct names -/

/-- A type that is made of no others has no schema that could repeat a name. -/
theorem hasDistinctNames_of_isSimple {type : DeclaredType} (h : type.isSimple = true) :
    type.HasDistinctNames := by
  intro schema hschema
  cases hschema <;> cases h

/-- A record type has distinct names if those of its fields are and the types of the fields have. -/
theorem hasDistinctNames_record {schema : RecordSchema} (hnames : schema.names.Nodup)
    (hfields : ∀ field ∈ schema.fields, field.2.HasDistinctNames) :
    (record (some schema)).HasDistinctNames := by
  intro inner hinner
  cases hinner with
  | here => exact hnames
  | field hmem h => exact hfields _ hmem inner h

end DeclaredType

namespace Schema

variable {schema other : RecordSchema}

/-- A field of one schema has a type that is the same in the other. -/
theorem exists_typeOf?_of_same (h : schema.same other = true) {name : String} {type : DeclaredType}
    (htype : schema.typeOf? name = some type) :
    ∃ type', other.typeOf? name = some type' ∧ type.same type' = true := by
  obtain ⟨type', htype', hsame⟩ :=
    ((same_iff schema other).mp h).2 (name, type) (mem_fields_of_typeOf? htype)
  rw [Ordered.get?_beq_eq_lookup] at htype'
  exact ⟨type', htype', hsame⟩

/-- Schemas that are the same have fields of the same names, with types that are the same. -/
theorem rel_typeOf?_of_same (hschema : schema.HasDistinctNames) (hother : other.HasDistinctNames)
    (h : schema.same other = true) (name : String) :
    Option.Rel (fun type type' => type.same type' = true) (schema.typeOf? name)
      (other.typeOf? name) := by
  cases htype : schema.typeOf? name with
  | some type =>
    obtain ⟨type', htype', hsame⟩ := exists_typeOf?_of_same h htype
    rw [htype']
    exact .some hsame
  | none =>
    cases htype' : other.typeOf? name with
    | none => exact .none
    | some type' =>
      -- a field of the other schema is one of this schema too, since sameness goes both ways
      obtain ⟨type, hsome, -⟩ := exists_typeOf?_of_same (same_symm hschema hother h) htype'
      rw [htype] at hsome
      cases hsome

end Schema

/-! ## Acceptance and choice -/

section

variable (defaults : FormatDefaults)

/-- Types that are the same accept the same values. -/
theorem accepts_eq_of_same {type other : DeclaredType} (h : type.same other = true) (v : Value) :
    accepts defaults type v = accepts defaults other v := by
  by_cases hv : v = .null
  · rw [hv, accepts_null, accepts_null]
  induction type using DeclaredType.schemaInduction generalizing other with
  | simple type hsimple => rw [(DeclaredType.same_iff_of_isSimple hsimple other).mp h]
  | record schema _ =>
    obtain ⟨schema', rfl⟩ := DeclaredType.exists_of_same_record h
    rw [accepts_record _ hv, accepts_record _ hv]
  | choice candidates ih =>
    obtain ⟨candidates', rfl⟩ := DeclaredType.exists_of_same_choice h
    rw [DeclaredType.same_choice, DeclaredType.sameLists_iff] at h
    rw [accepts_choice _ hv, accepts_choice _ hv]
    induction h with
    | nil => rfl
    | cons hcandidate _ ihrest =>
      obtain ⟨hfirst, hrest⟩ := List.forall_mem_cons.mp ih
      rw [List.any_cons, List.any_cons, hfirst hcandidate, ihrest hrest]

/-- The candidates of types that are the same are the same, in order. -/
theorem candidates_of_same {type other : DeclaredType} (h : type.same other = true) :
    List.Forall₂ (fun type other => DeclaredType.same type other = true) type.candidates
      other.candidates := by
  cases type using DeclaredType.schemaCases with
  | simple type hsimple =>
    obtain rfl := (DeclaredType.same_iff_of_isSimple hsimple other).mp h
    cases type with
    | choice candidates => cases hsimple
    | _ => exact .nil
  | record schema =>
    obtain ⟨schema', rfl⟩ := DeclaredType.exists_of_same_record h
    exact .nil
  | choice candidates =>
    obtain ⟨candidates', rfl⟩ := DeclaredType.exists_of_same_choice h
    rw [DeclaredType.same_choice, DeclaredType.sameLists_iff] at h
    exact h

/-- Types that are the same choose candidates that are, in the same place, or none. -/
theorem rel_choose?_of_same {type other : DeclaredType} (h : type.same other = true) (v : Value) :
    Option.Rel (fun chosen chosen' => chosen.1 = chosen'.1 ∧ chosen.2.same chosen'.2 = true)
      (choose? defaults type v) (choose? defaults other v) := by
  have hfound := rel_find?_zipIdx (candidates_of_same h)
    (fun candidate candidate' _ _ hsame => accepts_eq_of_same defaults hsame v) 0
  unfold choose?
  generalize (type.candidates.zipIdx.find? fun entry => accepts defaults entry.1 v) = found
    at hfound ⊢
  generalize (other.candidates.zipIdx.find? fun entry => accepts defaults entry.1 v) = found'
    at hfound ⊢
  cases hfound with
  | none => exact .none
  | some hfound => exact .some ⟨hfound.2, hfound.1⟩

end

/-! ## Conversion -/

section

variable {defaults : FormatDefaults}

/-- Inserting a value under a name into members keeps them aligned. -/
theorem realigned_insert {members members' : Members} {w w' : Value} (name : String)
    (hmembers : List.Forall₂ RealignedMember members members') (hw : Realigned w w') :
    List.Forall₂ RealignedMember (members.insert name w) (members'.insert name w') := by
  induction hmembers with
  | nil => exact .cons (.mk name hw) .nil
  | cons hmember hrest ih =>
    obtain ⟨other, hold⟩ := hmember
    simp only [Members.insert, Ordered.insert] at ih ⊢
    split
    · exact .cons (.mk other hw) hrest
    · exact .cons (.mk other hold) ih

/-- The walk through the entries of a map has outcomes that agree if the members have the same names
and the outcomes of their conversions agree. -/
theorem convertEntries_agree {type? type?' : String → Option DeclaredType}
    (hmember : ∀ name, Option.Rel (fun type type' => ∀ v field,
      OutcomesAgree Realigned (convert defaults type v field) (convert defaults type' v field))
      (type? name) (type?' name))
    {members members' : Members} (hmembers : List.Forall₂ RealignedMember members members')
    (field : String) (entries : Entries) :
    OutcomesAgree (List.Forall₂ RealignedMember)
      (convertEntries (fun name => (type? name).map (convert defaults)) field members entries)
      (convertEntries (fun name => (type?' name).map (convert defaults)) field members' entries) := by
  -- the members so far grow along the walk, so the induction is for all of them
  induction entries generalizing members members' with
  | nil => exact .ok hmembers
  | cons entry rest ih =>
    obtain ⟨key, v⟩ := entry
    simp only [convertEntries]
    cases key.rendered? with
    | none => exact ih hmembers
    | some name =>
      have hname := hmember name
      generalize htype : type? name = found at hname
      generalize htype' : type?' name = found' at hname
      cases hname with
      | none => simpa only [htype, htype', Option.map_none] using ih hmembers
      | @some type type' hconvert =>
        simp only [htype, htype', Option.map_some]
        have houtcome := hconvert v (memberPath field name)
        generalize convert defaults type v (memberPath field name) = outcome at houtcome
        generalize convert defaults type' v (memberPath field name) = outcome' at houtcome
        cases houtcome with
        | ok hw => exact ih (realigned_insert name hmembers hw)
        | error e => exact .error e

/-- Conversions to records with schemas that are the same agree if those of the members do. -/
theorem convert_record_agree {schema other : RecordSchema} (hsame : schema.same other = true)
    (hmember : ∀ name, Option.Rel (fun type type' => ∀ v field,
      OutcomesAgree Realigned (convert defaults type v field) (convert defaults type' v field))
      (schema.typeOf? name) (other.typeOf? name))
    {v : Value} (hv : v ≠ .null) (field : String) :
    OutcomesAgree Realigned (convert defaults (.record (some schema)) v field)
      (convert defaults (.record (some other)) v field) := by
  by_cases hrecord : v.kind? = some .record
  · obtain ⟨bound, members, rfl⟩ := Value.exists_of_kind?_record hrecord
    rw [convert_record_of_record, convert_record_of_record]
    exact .ok (.same _)
  by_cases hmap : v.kind? = some .map
  · obtain ⟨entries, rfl⟩ := Value.exists_of_kind?_map hmap
    rw [convert_record_of_map, convert_record_of_map]
    apply (convertEntries_agree hmember .nil field entries).map
    intro members members' hmembers
    exact .built hsame hmembers
  · rw [convert_record_of_other _ hv _ hmap hrecord, convert_record_of_other _ hv _ hmap hrecord]
    exact .error _

/-- Conversions to types that are the same agree. -/
theorem convert_agree {type other : DeclaredType} (htype : type.HasDistinctNames)
    (hother : other.HasDistinctNames) (hsame : type.same other = true) (v : Value) (field : String) :
    OutcomesAgree Realigned (convert defaults type v field) (convert defaults other v field) := by
  induction type using DeclaredType.schemaInduction generalizing other v field with
  | simple type hsimple =>
    rw [(DeclaredType.same_iff_of_isSimple hsimple other).mp hsame]
    exact .refl Realigned.same _
  | record schema ih =>
    obtain ⟨schema', rfl⟩ := DeclaredType.exists_of_same_record hsame
    have hschema : schema.HasDistinctNames := htype
    have hschema' : schema'.HasDistinctNames := hother
    by_cases hv : v = .null
    · rw [hv, convert_null, convert_null]
      exact .ok (.same .null)
    refine convert_record_agree hsame (fun name => ?_) hv field
    have hname := Schema.rel_typeOf?_of_same hschema hschema' hsame name
    generalize hfound : schema.typeOf? name = found at hname ⊢
    generalize hfound' : schema'.typeOf? name = found' at hname ⊢
    cases hname with
    | none => exact .none
    | @some type type' hmember =>
      have hmem := mem_fields_of_typeOf? hfound
      have hmem' := mem_fields_of_typeOf? hfound'
      exact .some fun w path => ih (name, type) hmem (hschema.of_field hmem)
        (hschema'.of_field hmem') hmember w path
  | choice candidates ih =>
    obtain ⟨candidates', rfl⟩ := DeclaredType.exists_of_same_choice hsame
    by_cases hv : v = .null
    · rw [hv, convert_null, convert_null]
      exact .ok (.same .null)
    have hchosen := rel_choose?_of_same defaults hsame v
    generalize hfound : choose? defaults (.choice candidates) v = found at hchosen
    generalize hfound' : choose? defaults (.choice candidates') v = found' at hchosen
    cases hchosen with
    | @some chosen chosen' hchosen =>
      rw [convert_choice_of_choose? _ hfound, convert_choice_of_choose? _ hfound']
      have hmem := (accepts_of_choose? _ hfound).1
      have hmem' := (accepts_of_choose? _ hfound').1
      exact ih chosen.2 hmem (htype.of_candidate hmem) (hother.of_candidate hmem') hchosen.2 v field
    | none =>
      have hnone := DeclaredType.map_display_eq_of_same (candidates_of_same hsame)
      have hrefused := (choose?_cases defaults candidates v).resolve_left (by simp [hfound])
      have hrefused' := (choose?_cases defaults candidates' v).resolve_left (by simp [hfound'])
      rw [convert_choice_of_forall _ hv hrefused, convert_choice_of_forall _ hv hrefused']
      simp only [DeclaredType.candidates] at hnone
      rw [hnone]
      exact .error _

end

/-- Sameness is an equivalence of the types and of the schemas in which no name comes twice, and
conversions respect it. Whatever the defaults, two types that are the same accept the same values, they
choose the candidate in the same place, and conversions to them fail with the same error or give
results that are the same but for the order of the fields in the schemas of records built from maps. -/
theorem conversions_respect_same :
    (Equivalence fun type other : {type : DeclaredType // type.HasDistinctNames} =>
      type.val.same other.val = true) ∧
    (Equivalence fun schema other : {schema : RecordSchema // schema.HasDistinctNames} =>
      schema.val.same other.val = true) ∧
    ∀ type other : DeclaredType, type.HasDistinctNames → other.HasDistinctNames →
      type.same other = true → ∀ (defaults : FormatDefaults) (v : Value),
        accepts defaults type v = accepts defaults other v ∧
        Option.Rel (fun chosen chosen' => chosen.1 = chosen'.1 ∧ chosen.2.same chosen'.2 = true)
          (choose? defaults type v) (choose? defaults other v) ∧
        ∀ field, OutcomesAgree Realigned (convert defaults type v field)
          (convert defaults other v field) := by
  refine ⟨⟨?_, ?_, ?_⟩, ⟨?_, ?_, ?_⟩, ?_⟩
  · exact fun type => DeclaredType.same_self type.property
  · exact fun {type other} => DeclaredType.same_symm type.property other.property
  · exact DeclaredType.same_trans
  · exact fun schema => Schema.same_self schema.property
  · exact fun {schema other} => Schema.same_symm schema.property other.property
  · exact Schema.same_trans
  · intro type other htype hother hsame defaults v
    refine ⟨accepts_eq_of_same defaults hsame v, rel_choose?_of_same defaults hsame v, ?_⟩
    intro field
    exact convert_agree htype hother hsame v field

/-- A schema with a record in it. -/
def pinnedSchema : RecordSchema :=
  ⟨[("pin", .record (some ⟨[("set", .boolean), ("mark", .char)]⟩)), ("label", .string none)]⟩

/-- The same schema with the fields the other way round, inside as well. -/
def pinnedReversed : RecordSchema :=
  ⟨[("label", .string none), ("pin", .record (some ⟨[("mark", .char), ("set", .boolean)]⟩))]⟩

/-- A map becomes records of both schemas, with members in the order of its entries. -/
theorem conversions_respect_reversed :
    (DeclaredType.record (some pinnedSchema)).same (.record (some pinnedReversed)) = true ∧
    OutcomesAgree Realigned
      (convert .empty (.record (some pinnedSchema))
        (.map [(.string "label", .boolean true), (.string "pin", .map [(.string "mark", .char 'm')])])
        "f")
      (convert .empty (.record (some pinnedReversed))
        (.map [(.string "label", .boolean true), (.string "pin", .map [(.string "mark", .char 'm')])])
        "f") ∧
    convert .empty (.record (some pinnedReversed))
        (.map [(.string "label", .boolean true), (.string "pin", .map [(.string "mark", .char 'm')])])
        "f" =
      .ok (.record pinnedReversed [("label", .string "true"),
        ("pin", .record ⟨[("mark", .char), ("set", .boolean)]⟩ [("mark", .char 'm')])]) := by
  have hpin : ∀ fields : List (String × DeclaredType), (fields.map (·.1)).Nodup →
      (∀ field ∈ fields, field.2.isSimple = true) →
      (DeclaredType.record (some ⟨fields⟩)).HasDistinctNames := by
    intro fields hnames hsimple
    apply DeclaredType.hasDistinctNames_record hnames
    intro field hmem
    exact DeclaredType.hasDistinctNames_of_isSimple (hsimple field hmem)
  have hlabel : (DeclaredType.string none).HasDistinctNames :=
    DeclaredType.hasDistinctNames_of_isSimple rfl
  have hpinned : (DeclaredType.record (some pinnedSchema)).HasDistinctNames := by
    apply DeclaredType.hasDistinctNames_record (by decide)
    simpa [pinnedSchema, hlabel] using hpin _ (by decide) (by decide)
  have hreversed : (DeclaredType.record (some pinnedReversed)).HasDistinctNames := by
    apply DeclaredType.hasDistinctNames_record (by decide)
    simpa [pinnedReversed, hlabel] using hpin _ (by decide) (by decide)
  have hsame : (DeclaredType.record (some pinnedSchema)).same (.record (some pinnedReversed)) = true :=
    by rfl
  exact ⟨hsame, (conversions_respect_same.2.2 _ _ hpinned hreversed hsame .empty _).2.2 "f", by rfl⟩

end RecordCoercion
