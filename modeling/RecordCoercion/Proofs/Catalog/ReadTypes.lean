import Mathlib.Data.List.Forall2
import RecordCoercion.Proofs.Catalog.SameType
import RecordCoercion.Catalog.Form

/-!
# What types and schemas are read from

A type is read of an object or of an array. `DeclaredType.exists_partsOf` says of both at once from which
parts of a form a type comes, `DeclaredType.readFieldList_of_readSchema` and
`DeclaredType.read_of_readField` say it of a schema and of a field. Lists of types and fields are read
one by one.
-/

set_option autoImplicit false

namespace RecordCoercion

/-- A reader that goes on with what another one read succeeds only if both do. -/
theorem exists_of_bind_eq_ok {ε α β : Type} {first : Except ε α} {next : α → Except ε β} {b : β}
    (h : (first >>= next) = .ok b) : ∃ a, first = .ok a ∧ next a = .ok b := by
  cases first with
  | error e => cases h
  | ok a => exact ⟨a, rfl, h⟩

/-- What a mapped reader gives comes from something that was read. -/
theorem exists_of_map_eq_ok {ε α β : Type} {first : Except ε α} {f : α → β} {b : β}
    (h : first.map f = .ok b) : ∃ a, first = .ok a ∧ f a = b := by
  cases first with
  | error e => cases h
  | ok a => exact ⟨a, rfl, Except.ok.inj h⟩

/-! ## Members -/

namespace Json

/-- A part of a form: a member of an object or an item of an array. -/
inductive HasPart (key : String) (position : Nat) (part : Json) : Json → Prop
  | member {members : List (String × Json)} (h : (key, part) ∈ members) :
      HasPart key position part (.object members)
  | item {items : List Json} (h : items[position]? = some part) :
      HasPart key position part (.array items)

/-- The parts of an object are its members under their keys. -/
theorem hasPart_object_iff {key : String} {position : Nat} {part : Json}
    {members : List (String × Json)} :
    HasPart key position part (.object members) ↔ (key, part) ∈ members := by
  refine ⟨fun hpart => ?_, .member⟩
  cases hpart with
  | member hmem => exact hmem

/-- The parts of an array are its items at their positions. -/
theorem hasPart_array_iff {key : String} {position : Nat} {part : Json} {items : List Json} :
    HasPart key position part (.array items) ↔ items[position]? = some part := by
  refine ⟨fun hpart => ?_, .item⟩
  cases hpart with
  | item hitem => exact hitem

/-- A key is missing exactly if no member has it. -/
theorem hasKey_eq_false_iff {key : String} {members : List (String × Json)} :
    hasKey key members = false ↔ ∀ member ∈ members, member.1 ≠ key := by
  simp [hasKey]

/-- A member that is found is the only one with its key. -/
theorem eq_some_of_member? {key : String} {members : List (String × Json)} {found : Option Json}
    (h : member? key members = .ok found) {part : Json} (hmem : (key, part) ∈ members) :
    found = some part := by
  induction members with
  | nil => cases hmem
  | cons member rest ih =>
    obtain ⟨name, value⟩ := member
    rw [member?] at h
    by_cases hname : name = key
    · rw [if_pos hname] at h
      split at h
      · cases h
      · next hunique =>
        obtain rfl := Except.ok.inj h
        rcases List.mem_cons.mp hmem with heq | hrest
        · exact congrArg some (Prod.mk.inj heq).2.symm
        · exact absurd rfl (hasKey_eq_false_iff.mp (Bool.eq_false_iff.mpr hunique) _ hrest)
    · rw [if_neg hname] at h
      rcases List.mem_cons.mp hmem with heq | hrest
      · exact absurd (Prod.mk.inj heq).1.symm hname
      · exact ih h hrest

/-- What is read of a member that must be there. -/
def requiredMember {α : Type} (key : String) (read : Json → Except FormError α)
    (members : List (String × Json)) : Except FormError α := do
  match ← member? key members with
  | some part => read part
  | none => .error .malformed

section

variable {α : Type} {key : String} {read : Json → Except FormError α}
  {members : List (String × Json)} {a : α}

/-- Whatever member has the key of a required one, it is the one that was read. -/
theorem read_of_requiredMember (h : requiredMember key read members = .ok a) {part : Json}
    (hmem : (key, part) ∈ members) : read part = .ok a := by
  obtain ⟨found, hfound, hread⟩ := exists_of_bind_eq_ok h
  obtain rfl := eq_some_of_member? hfound hmem
  exact hread

/-- A required member that was read is there. -/
theorem exists_of_requiredMember (h : requiredMember key read members = .ok a) :
    ∃ part, read part = .ok a := by
  obtain ⟨found, -, hread⟩ := exists_of_bind_eq_ok h
  cases found with
  | none => cases hread
  | some part => exact ⟨part, hread⟩

end

end Json

namespace DeclaredType

open Json (HasPart)

variable {inner : Bool} {form part tag : Json} {type : DeclaredType} {kind : FieldKind}

/-- The candidates are read like any member that must be there. -/
theorem candidatesMember_eq (members : List (String × Json)) :
    candidatesMember members = Json.requiredMember "candidates" readCandidates members := by
  induction members with
  | nil => rfl
  | cons member rest ih =>
    obtain ⟨name, form⟩ := member
    rw [candidatesMember, ih, Json.requiredMember, Json.requiredMember, Json.member?]
    split
    · split <;> rfl
    · rfl

/-- The fields are read like any member that must be there. -/
theorem fieldsMember_eq (members : List (String × Json)) :
    fieldsMember inner members = Json.requiredMember "fields" (readFieldList inner) members := by
  induction members with
  | nil => rfl
  | cons member rest ih =>
    obtain ⟨name, form⟩ := member
    rw [fieldsMember, ih, Json.requiredMember, Json.requiredMember, Json.member?]
    split
    · split <;> rfl
    · rfl

/-- The type of a field is read like any member that must be there. -/
theorem typeMember_eq (members : List (String × Json)) :
    typeMember inner members = Json.requiredMember "type" (read inner) members := by
  induction members with
  | nil => rfl
  | cons member rest ih =>
    obtain ⟨name, form⟩ := member
    rw [typeMember, ih, Json.requiredMember, Json.requiredMember, Json.member?]
    split
    · split <;> rfl
    · rfl

/-- What is read of the member for a schema, which may be missing. -/
theorem schemaMember_eq (members : List (String × Json)) :
    schemaMember members = (do
      match ← Json.member? "schema" members with
      | some form => orNull form (readSchema true form)
      | none => .ok none) := by
  induction members with
  | nil => rfl
  | cons member rest ih =>
    obtain ⟨name, form⟩ := member
    rw [schemaMember, ih, Json.member?]
    split
    · split <;> rfl
    · rfl

/-! ## Types -/

/-- A kind that is read on the outside is read inside another type as well. -/
theorem kindOfForm_true (h : kindOfForm inner tag = .ok kind) : kindOfForm true tag = .ok kind := by
  cases inner with
  | true => exact h
  | false =>
    cases tag with
    | string name => exact h
    | _ => cases h

/-- A type that is built for a kind and a format has this kind. -/
theorem kind_ofFormat (kind : FieldKind) (format : Option TemporalFormat) :
    (ofFormat kind format).kind = kind := by
  cases kind <;> rfl

/-- A type that is built for a kind alone has this kind. -/
theorem kind_bare (kind : FieldKind) : (bare kind).kind = kind := by
  cases kind <;> rfl

section

variable {format : Except FormError (Option TemporalFormat)}
  {schema : Except FormError (Option RecordSchema)}
  {candidates : Except FormError (List DeclaredType)}

/-- Of the parts that were read, a kind with a format takes the format only. -/
theorem ofPart_of_hasFormat (h : hasFormat kind = true) :
    ofPart kind format schema candidates = format.map (ofFormat kind) := by
  cases kind <;> first | rfl | cases h

/-- A kind without parts takes none of those that were read, not even their errors. -/
theorem ofPart_of_not_hasPart (h : hasPart kind = false) :
    ofPart kind format schema candidates = .ok (bare kind) := by
  cases kind <;> first | rfl | cases h

/-- The kind that was read is the kind of the type, whatever its parts. -/
theorem kind_of_ofPart (h : ofPart kind format schema candidates = .ok type) : type.kind = kind := by
  by_cases hpart : hasPart kind = true
  · by_cases hformat : hasFormat kind = true
    · rw [ofPart_of_hasFormat hformat] at h
      obtain ⟨f, -, rfl⟩ := exists_of_map_eq_ok h
      exact kind_ofFormat kind f
    · cases kind
      case record =>
        obtain ⟨s, -, rfl⟩ := exists_of_map_eq_ok h
        rfl
      case choice =>
        obtain ⟨c, -, rfl⟩ := exists_of_map_eq_ok h
        rfl
      all_goals exact absurd hpart hformat
  · rw [ofPart_of_not_hasPart (Bool.eq_false_iff.mpr hpart)] at h
    rw [← Except.ok.inj h, kind_bare]

/-- The kind of a type that is read of a form, and what the form gives for the parts that a type may
have. An object gives its members and an array its items. -/
structure PartsOf (form : Json) (kind : FieldKind) (format : Except FormError (Option TemporalFormat))
    (schema : Except FormError (Option RecordSchema))
    (candidates : Except FormError (List DeclaredType)) : Prop where
  kindOf : ∀ tag, HasPart "type" 0 tag form → kindOfForm true tag = .ok kind
  formatOf : ∀ part, HasPart "format" 1 part form → ∀ f, format = .ok f →
    TemporalFormat.ofForm? part = .ok f
  schemaOf : ∀ part, HasPart "schema" 1 part form → ∀ s, schema = .ok s →
    orNull part (readSchema true part) = .ok s
  candidatesOf : ∀ part, HasPart "candidates" 1 part form → ∀ c, candidates = .ok c →
    readCandidates part = .ok c
  someSchema : ∀ s, schema = .ok (some s) → ∃ part, readSchema true part = .ok s
  someCandidates : ∀ c, candidates = .ok c → ∃ part, readCandidates part = .ok c

/-- A schema that is given is read of a form that is not null. -/
theorem exists_readSchema_of_orNull {s : RecordSchema}
    (h : orNull part (readSchema true part) = .ok (some s)) : readSchema true part = .ok s := by
  unfold orNull at h
  split at h
  · cases h
  · obtain ⟨s', hs', heq⟩ := exists_of_map_eq_ok h
    rw [← Option.some.inj heq, hs']

/-- An object gives its members as the parts of a type. -/
theorem partsOf_object {members : List (String × Json)}
    (h : kindOfMembers inner members = .ok kind) :
    PartsOf (.object members) kind (TemporalFormat.ofMember? "format" members) (schemaMember members)
      (candidatesMember members) where
  kindOf tag htag := by
    have hmem := Json.hasPart_object_iff.mp htag
    unfold kindOfMembers at h
    split at h
    · next found hfound =>
      obtain rfl := Option.some.inj (Json.eq_some_of_member? hfound hmem)
      exact kindOfForm_true h
    · cases h
  formatOf part hpart f hf := by
    have hmem := Json.hasPart_object_iff.mp hpart
    unfold TemporalFormat.ofMember? at hf
    split at hf
    · cases hf
    · next hfound => cases Json.eq_some_of_member? hfound hmem
    · next found hfound =>
      obtain rfl := Option.some.inj (Json.eq_some_of_member? hfound hmem)
      exact hf
  schemaOf part hpart s hs := by
    have hmem := Json.hasPart_object_iff.mp hpart
    rw [schemaMember_eq] at hs
    obtain ⟨found, hfound, hs⟩ := exists_of_bind_eq_ok hs
    obtain rfl := Json.eq_some_of_member? hfound hmem
    exact hs
  candidatesOf part hpart c hc := by
    have hmem := Json.hasPart_object_iff.mp hpart
    rw [candidatesMember_eq] at hc
    exact Json.read_of_requiredMember hc hmem
  someSchema s hs := by
    rw [schemaMember_eq] at hs
    obtain ⟨found, -, hs⟩ := exists_of_bind_eq_ok hs
    cases found with
    | none => cases hs
    | some part => exact ⟨part, exists_readSchema_of_orNull hs⟩
  someCandidates c hc := by
    rw [candidatesMember_eq] at hc
    exact Json.exists_of_requiredMember hc

/-- An array of one item gives the kind of a type and no part. -/
theorem partsOf_single (h : kindOfForm inner tag = .ok kind) :
    PartsOf (.array [tag]) kind (.error .malformed) (.error .malformed) (.error .malformed) where
  kindOf found hfound := by
    rw [← Option.some.inj (Json.hasPart_array_iff.mp hfound)]
    exact kindOfForm_true h
  formatOf _ _ _ hf := by cases hf
  schemaOf _ _ _ hs := by cases hs
  candidatesOf _ _ _ hc := by cases hc
  someSchema _ hs := by cases hs
  someCandidates _ hc := by cases hc

/-- An array of two items gives the second one as whichever part the kind has. -/
theorem partsOf_pair (h : kindOfForm inner tag = .ok kind) :
    PartsOf (.array [tag, part]) kind (TemporalFormat.ofForm? part)
      (orNull part (readSchema true part)) (readCandidates part) where
  kindOf found hfound := by
    rw [← Option.some.inj (Json.hasPart_array_iff.mp hfound)]
    exact kindOfForm_true h
  formatOf found hfound f hf := by
    rw [← Option.some.inj (Json.hasPart_array_iff.mp hfound)]
    exact hf
  schemaOf found hfound s hs := by
    rw [← Option.some.inj (Json.hasPart_array_iff.mp hfound)]
    exact hs
  candidatesOf found hfound c hc := by
    rw [← Option.some.inj (Json.hasPart_array_iff.mp hfound)]
    exact hc
  someSchema s hs := ⟨part, exists_readSchema_of_orNull hs⟩
  someCandidates c hc := ⟨part, hc⟩

end

/-- A type that is read of a form is made of the parts that the form gives. -/
theorem exists_partsOf (h : read inner form = .ok type) : ∃ kind format schema candidates,
    PartsOf form kind format schema candidates ∧ ofPart kind format schema candidates = .ok type := by
  unfold read at h
  split at h
  · cases form with
    | object members =>
      obtain ⟨kind, hkind, hpart⟩ := exists_of_bind_eq_ok h
      exact ⟨kind, _, _, _, partsOf_object hkind, hpart⟩
    | array parts =>
      rcases parts with _ | ⟨tag, _ | ⟨part, _ | ⟨other, rest⟩⟩⟩
      · cases h
      · obtain ⟨kind, hkind, h⟩ := exists_of_bind_eq_ok h
        split at h
        · cases h
        · next hpart =>
          refine ⟨kind, _, _, _, partsOf_single hkind, ?_⟩
          rw [ofPart_of_not_hasPart (Bool.eq_false_iff.mpr hpart)]
          exact h
      · obtain ⟨kind, hkind, h⟩ := exists_of_bind_eq_ok h
        split at h
        · exact ⟨kind, _, _, _, partsOf_pair hkind, h⟩
        · cases h
      · cases h
    | _ => cases h
  · cases h

/-! ## Schemas -/

/-- A list of types is read one by one, each as a type inside another. -/
theorem readAll_eq_ok_iff {forms : List Json} {types : List DeclaredType} :
    readAll forms = .ok types ↔
      List.Forall₂ (fun form type => read true form = .ok type) forms types := by
  induction forms generalizing types with
  | nil => cases types <;> simp [readAll]
  | cons form rest ih =>
    rw [readAll]
    constructor
    · intro h
      obtain ⟨type, htype, h⟩ := exists_of_bind_eq_ok h
      obtain ⟨others, hothers, h⟩ := exists_of_bind_eq_ok h
      rw [← Except.ok.inj h]
      exact .cons htype (ih.mp hothers)
    · rintro (_ | ⟨htype, hothers⟩)
      rw [htype, ih.mpr hothers]
      rfl

/-- A list of fields is read one by one. -/
theorem readFields_eq_ok_iff {forms : List Json} {fields : List (String × DeclaredType)} :
    readFields inner forms = .ok fields ↔
      List.Forall₂ (fun form field => readField inner form = .ok field) forms fields := by
  induction forms generalizing fields with
  | nil => cases fields <;> simp [readFields]
  | cons form rest ih =>
    rw [readFields]
    constructor
    · intro h
      obtain ⟨field, hfield, h⟩ := exists_of_bind_eq_ok h
      obtain ⟨others, hothers, h⟩ := exists_of_bind_eq_ok h
      rw [← Except.ok.inj h]
      exact .cons hfield (ih.mp hothers)
    · rintro (_ | ⟨hfield, hothers⟩)
      rw [hfield, ih.mpr hothers]
      rfl

/-- Candidates are read of an array, one by one. -/
theorem exists_of_readCandidates {types : List DeclaredType} (h : readCandidates part = .ok types) :
    ∃ forms, part = .array forms ∧
      List.Forall₂ (fun form type => read true form = .ok type) forms types := by
  cases part with
  | array forms => exact ⟨forms, rfl, readAll_eq_ok_iff.mp h⟩
  | _ => cases h

/-- Fields are read of an array, one by one. -/
theorem exists_of_readFieldList {fields : List (String × DeclaredType)}
    (h : readFieldList inner part = .ok fields) :
    ∃ forms, part = .array forms ∧
      List.Forall₂ (fun form field => readField inner form = .ok field) forms fields := by
  cases part with
  | array forms => exact ⟨forms, rfl, readFields_eq_ok_iff.mp h⟩
  | _ => cases h

/-- A schema is made only of fields with distinct names. -/
theorem checkedSchema_eq_ok_iff {fields : List (String × DeclaredType)} {schema : RecordSchema} :
    checkedSchema fields = .ok schema ↔ schema = ⟨fields⟩ ∧ (fields.map (·.1)).Nodup := by
  unfold checkedSchema Schema.ofFields
  have hnone := firstRepeated?_eq_none_iff [] (fields.map (·.1))
  cases hrepeated : firstRepeated? [] (fields.map (·.1)) with
  | some name => simp_all
  | none => simp_all [eq_comm]

/-- The fields of a schema that is read of a form are those that the form gives a list of. -/
theorem readFieldList_of_readSchema {schema : RecordSchema} (h : readSchema inner form = .ok schema) :
    schema.names.Nodup ∧ (∃ part, readFieldList inner part = .ok schema.fields) ∧
      ∀ part, HasPart "fields" 0 part form → readFieldList inner part = .ok schema.fields := by
  unfold readSchema at h
  split at h
  · next members =>
    obtain ⟨fields, hfields, h⟩ := exists_of_bind_eq_ok h
    obtain ⟨rfl, hnodup⟩ := checkedSchema_eq_ok_iff.mp h
    rw [fieldsMember_eq] at hfields
    refine ⟨hnodup, Json.exists_of_requiredMember hfields, ?_⟩
    exact fun part hpart => Json.read_of_requiredMember hfields (Json.hasPart_object_iff.mp hpart)
  · next list =>
    obtain ⟨fields, hfields, h⟩ := exists_of_bind_eq_ok h
    obtain ⟨rfl, hnodup⟩ := checkedSchema_eq_ok_iff.mp h
    refine ⟨hnodup, ⟨list, hfields⟩, ?_⟩
    intro part hpart
    rw [← Option.some.inj (Json.hasPart_array_iff.mp hpart)]
    exact hfields
  · cases h

/-- The name and the type of a field that is read of a form are those that the form gives. -/
theorem read_of_readField {field : String × DeclaredType} (h : readField inner form = .ok field) :
    (∃ part, read inner part = .ok field.2) ∧
      (∀ part, HasPart "type" 1 part form → read inner part = .ok field.2) ∧
      ∀ name, HasPart "name" 0 (.string name) form → name = field.1 := by
  unfold readField at h
  split at h
  · next members =>
    obtain ⟨name, hname, h⟩ := exists_of_bind_eq_ok h
    obtain ⟨type, htype, h⟩ := exists_of_bind_eq_ok h
    obtain rfl := Except.ok.inj h
    rw [typeMember_eq] at htype
    refine ⟨Json.exists_of_requiredMember htype, ?_, ?_⟩
    · exact fun part hpart => Json.read_of_requiredMember htype (Json.hasPart_object_iff.mp hpart)
    · intro other hother
      have hmem := Json.hasPart_object_iff.mp hother
      unfold Json.stringMember at hname
      split at hname
      · next found hfound =>
        obtain rfl := Except.ok.inj hname
        exact Json.string.inj (Option.some.inj (Json.eq_some_of_member? hfound hmem)).symm
      · cases hname
  · next name part =>
    obtain ⟨type, htype, h⟩ := exists_of_bind_eq_ok h
    obtain rfl := Except.ok.inj h
    refine ⟨⟨part, htype⟩, ?_, ?_⟩
    · intro found hfound
      rw [← Option.some.inj (Json.hasPart_array_iff.mp hfound)]
      exact htype
    · intro other hother
      exact (Json.string.inj (Option.some.inj (Json.hasPart_array_iff.mp hother))).symm
  · cases h

end DeclaredType

end RecordCoercion
