import Mathlib.Data.List.Nodup
import RecordCoercion.Proofs.Catalog.ReadTypes

/-!
# Only valid types are read

A form may hold the forms of other types: in the fields of a schema and in the candidates of a choice,
at any depth and in objects as well as in arrays. `DeclaredType.Flawed` says of a form that in one of them
a name is repeated or a pattern is not accepted. A flawed form is refused as a whole
(`DeclaredType.Flawed.not_accepted`), and what is read of a form is a type in whose schemas no name
comes twice (`DeclaredType.hasDistinctNames_of_read`).
-/

set_option autoImplicit false

namespace RecordCoercion.DeclaredType

open Json (HasPart)

variable {inner : Bool} {form part tag : Json} {type : DeclaredType} {kind : FieldKind}

/-! ## What is read -/

/-- The schema of a record type is read of some part. -/
theorem exists_readSchema_of_read {schema : RecordSchema}
    (h : read inner form = .ok (.record (some schema))) :
    ∃ part, readSchema true part = .ok schema := by
  obtain ⟨kind, format, found, candidates, hparts, htype⟩ := exists_partsOf h
  obtain rfl : FieldKind.record = kind := kind_of_ofPart htype
  obtain ⟨s, hs, heq⟩ := exists_of_map_eq_ok htype
  exact hparts.someSchema schema (by rw [hs, DeclaredType.record.inj heq])

/-- The candidates of a choice are read of some parts. -/
theorem exists_readAll_of_read {candidates : List DeclaredType}
    (h : read inner form = .ok (.choice candidates)) :
    ∃ forms, List.Forall₂ (fun form type => read true form = .ok type) forms candidates := by
  obtain ⟨kind, format, schema, found, hparts, htype⟩ := exists_partsOf h
  obtain rfl : FieldKind.choice = kind := kind_of_ofPart htype
  obtain ⟨c, hc, heq⟩ := exists_of_map_eq_ok htype
  obtain rfl := DeclaredType.choice.inj heq
  obtain ⟨part, hpart⟩ := hparts.someCandidates c hc
  obtain ⟨forms, -, hforms⟩ := exists_of_readCandidates hpart
  exact ⟨forms, hforms⟩

/-- The type of a field of a schema is read of some part. -/
theorem exists_read_of_mem_fields {schema : RecordSchema} (h : readSchema inner form = .ok schema)
    {field : String × DeclaredType} (hmem : field ∈ schema.fields) :
    ∃ part, read inner part = .ok field.2 := by
  obtain ⟨-, ⟨list, hlist⟩, -⟩ := readFieldList_of_readSchema h
  obtain ⟨forms, -, hfields⟩ := exists_of_readFieldList hlist
  obtain ⟨form, -, hfield⟩ := exists_mem_of_forall₂ hfields.flip hmem
  exact (read_of_readField hfield).1

/-- In the schemas of a type that is read no name comes twice. -/
theorem hasDistinctNames_of_read (h : read inner form = .ok type) : type.HasDistinctNames := by
  intro schema hholds
  induction hholds generalizing inner form with
  | here =>
    obtain ⟨part, hpart⟩ := exists_readSchema_of_read h
    exact (readFieldList_of_readSchema hpart).1
  | field hmem _ ih =>
    obtain ⟨part, hpart⟩ := exists_readSchema_of_read h
    obtain ⟨part', hpart'⟩ := exists_read_of_mem_fields hpart hmem
    exact ih hpart'
  | candidate hmem _ ih =>
    obtain ⟨forms, hforms⟩ := exists_readAll_of_read h
    obtain ⟨part, -, hpart⟩ := exists_mem_of_forall₂ hforms.flip hmem
    exact ih hpart

/-- A schema that is read repeats no name, nor does a schema inside it. -/
theorem hasDistinctNames_of_readSchema {schema : RecordSchema}
    (h : readSchema inner form = .ok schema) : schema.HasDistinctNames := by
  intro inside hholds
  cases hholds with
  | here => exact (readFieldList_of_readSchema h).1
  | field hmem hinside =>
    obtain ⟨part, hpart⟩ := exists_read_of_mem_fields h hmem
    exact hasDistinctNames_of_read hpart inside hinside

/-! ## What is refused -/

/-- What a form is to be read as. -/
inductive FormRole
  | type
  | schema

/-- A form is refused for what a valid catalog does not allow: a pattern with an unknown specifier where
its kind has a format, or a name that two fields of a schema share, in the form itself or in one that it
holds. -/
inductive Flawed : FormRole → Json → Prop
  | format {form tag : Json} {kind : FieldKind} {pattern : String} (htag : HasPart "type" 0 tag form)
      (hkind : kindOfForm true tag = .ok kind) (hformat : hasFormat kind = true)
      (hpart : HasPart "format" 1 (.string pattern) form)
      (hpattern : TemporalFormat.ofPattern? pattern = none) : Flawed .type form
  | schema {form tag part : Json} (htag : HasPart "type" 0 tag form)
      (hkind : kindOfForm true tag = .ok .record) (hpart : HasPart "schema" 1 part form)
      (h : Flawed .schema part) : Flawed .type form
  | candidate {form tag : Json} {forms : List Json} {candidate : Json}
      (htag : HasPart "type" 0 tag form) (hkind : kindOfForm true tag = .ok .choice)
      (hpart : HasPart "candidates" 1 (.array forms) form) (hmem : candidate ∈ forms)
      (h : Flawed .type candidate) : Flawed .type form
  | name {form : Json} {forms : List Json} {i j : Nat} {first second : Json} {name : String}
      (hpart : HasPart "fields" 0 (.array forms) form) (hlt : i < j) (hfirst : forms[i]? = some first)
      (hsecond : forms[j]? = some second) (hname : HasPart "name" 0 (.string name) first)
      (hname' : HasPart "name" 0 (.string name) second) : Flawed .schema form
  | field {form : Json} {forms : List Json} {field part : Json}
      (hpart : HasPart "fields" 0 (.array forms) form) (hmem : field ∈ forms)
      (htype : HasPart "type" 1 part field) (h : Flawed .type part) : Flawed .schema form

/-- A form is read, inside another one or not. -/
def Accepted : FormRole → Json → Prop
  | .type, form => ∃ inner type, read inner form = .ok type
  | .schema, form => ∃ inner schema, readSchema inner form = .ok schema

/-- A flawed form is refused. -/
theorem Flawed.not_accepted {role : FormRole} (h : Flawed role form) : ¬Accepted role form := by
  induction h with
  | format htag hkind hformat hpart hpattern =>
    rintro ⟨inner, type, htype⟩
    obtain ⟨kind', format, schema, candidates, hparts, htype⟩ := exists_partsOf htype
    obtain rfl := Except.ok.inj (hkind.symm.trans (hparts.kindOf _ htag))
    rw [ofPart_of_hasFormat hformat] at htype
    obtain ⟨f, hf, -⟩ := exists_of_map_eq_ok htype
    have hread := hparts.formatOf _ hpart f hf
    simp [TemporalFormat.ofForm?, hpattern] at hread
  | schema htag hkind hpart h ih =>
    rintro ⟨inner, type, htype⟩
    obtain ⟨kind', format, schema, candidates, hparts, htype⟩ := exists_partsOf htype
    obtain rfl := Except.ok.inj (hkind.symm.trans (hparts.kindOf _ htag))
    obtain ⟨s, hs, -⟩ := exists_of_map_eq_ok htype
    have hread := hparts.schemaOf _ hpart s hs
    unfold orNull at hread
    split at hread
    · -- null has no parts to be flawed
      cases h with
      | name hfields => cases hfields
      | field hfields => cases hfields
    · obtain ⟨s', hs', -⟩ := exists_of_map_eq_ok hread
      exact ih ⟨true, s', hs'⟩
  | candidate htag hkind hpart hmem h ih =>
    rintro ⟨inner, type, htype⟩
    obtain ⟨kind', format, schema, candidates, hparts, htype⟩ := exists_partsOf htype
    obtain rfl := Except.ok.inj (hkind.symm.trans (hparts.kindOf _ htag))
    obtain ⟨c, hc, -⟩ := exists_of_map_eq_ok htype
    obtain ⟨forms, heq, hforms⟩ := exists_of_readCandidates (hparts.candidatesOf _ hpart c hc)
    obtain rfl := Json.array.inj heq
    obtain ⟨type, -, htype⟩ := exists_mem_of_forall₂ hforms hmem
    exact ih ⟨true, type, htype⟩
  | name hpart hlt hfirst hsecond hname hname' =>
    rintro ⟨inner, schema, hschema⟩
    obtain ⟨hnodup, -, hlist⟩ := readFieldList_of_readSchema hschema
    obtain ⟨forms, heq, hfields⟩ := exists_of_readFieldList (hlist _ hpart)
    obtain rfl := Json.array.inj heq
    obtain ⟨field, hfield, hread⟩ := exists_getElem?_of_forall₂ hfields hfirst
    obtain ⟨field', hfield', hread'⟩ := exists_getElem?_of_forall₂ hfields hsecond
    have hsame : field.1 = field'.1 :=
      ((read_of_readField hread).2.2 _ hname).symm.trans ((read_of_readField hread').2.2 _ hname')
    obtain ⟨hlength, -⟩ := List.getElem?_eq_some_iff.mp hfield'
    refine List.nodup_iff_getElem?_ne_getElem?.mp hnodup _ _ hlt ?_ ?_
    · rwa [Schema.names, List.length_map]
    · rw [Schema.names, List.getElem?_map, List.getElem?_map, hfield, hfield', Option.map_some,
        Option.map_some, hsame]
  | field hpart hmem htype h ih =>
    rintro ⟨inner, schema, hschema⟩
    obtain ⟨-, -, hlist⟩ := readFieldList_of_readSchema hschema
    obtain ⟨forms, heq, hfields⟩ := exists_of_readFieldList (hlist _ hpart)
    obtain rfl := Json.array.inj heq
    obtain ⟨field, -, hfield⟩ := exists_mem_of_forall₂ hfields hmem
    exact ih ⟨inner, field.2, (read_of_readField hfield).2.1 _ htype⟩

end RecordCoercion.DeclaredType
