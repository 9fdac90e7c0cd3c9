import RecordCoercion.Catalog.DeclaredType
import RecordCoercion.Json.Text

/-!
# The JSON form of types and schemas

A type is an object whose member `type` names its kind, with `format`, `schema` or `candidates`
where the kind has one. A schema is an object with the list `fields`, each of which has a `name` and
a `type`. Reading takes members in any order, ignores unknown ones, refuses a repeated one, and
takes a missing format or schema as none. It also takes an array with the parts in order in place of
each object. A type inside another type may give the position of its kind in place of the name. All
of the form of a type must be readable, unknown members included; unknown members of schemas and
fields outside types need not be. Only patterns and lists of fields that make a valid catalog are
accepted.
-/

set_option autoImplicit false

namespace RecordCoercion

/-- Why a document is not the form of what it is read as. -/
inductive FormError
  /-- A part is missing, repeated, out of range or of the wrong kind. -/
  | malformed
  /-- The parts are there but make no valid catalog. -/
  | invalid (error : CatalogError)
  deriving DecidableEq

namespace Json

/-- Whether a key is among the members of an object. -/
def hasKey (key : String) (members : List (String × Json)) : Bool :=
  members.any fun (name, _) => name == key

/-- The member of an object with a key, unless the key is repeated. -/
def member? (key : String) : List (String × Json) → Except FormError (Option Json)
  | [] => .ok none
  | (name, value) :: rest =>
    if name = key then if hasKey key rest then .error .malformed else .ok (some value)
    else member? key rest

/-- The string that must be the member of an object with a key. -/
def stringMember (key : String) (members : List (String × Json)) : Except FormError String :=
  match member? key members with
  | .ok (some (.string s)) => .ok s
  | _ => .error .malformed

/-- What a written form is read as. -/
def readAs {α : Type} (ofForm : Json → Except FormError α) (text : String) : Except FormError α :=
  match read? nestingLimit text.toList with
  | some form => ofForm form
  | none => .error .malformed

/-- The form of what may be missing. -/
def ofOption {α : Type} (form : α → Json) : Option α → Json
  | none => .null
  | some a => form a

end Json

namespace TemporalFormat

/-- The form of a format is its pattern. -/
def toForm (format : TemporalFormat) : Json := .string format.pattern

/-- The format with a form, or none for null. -/
def ofForm? : Json → Except FormError (Option TemporalFormat)
  | .null => .ok none
  | .string pattern =>
    match ofPattern? pattern with
    | some format => .ok (some format)
    | none => .error (.invalid (.invalidFormat pattern))
  | _ => .error .malformed

/-- The format that is the member of an object with a key. -/
def ofMember? (key : String) (members : List (String × Json)) :
    Except FormError (Option TemporalFormat) :=
  match Json.member? key members with
  | .error e => .error e
  | .ok none => .ok none
  | .ok (some form) => ofForm? form

end TemporalFormat

namespace DeclaredType

/-- The member that names the kind of a type. -/
def kindMember (kind : FieldKind) : String × Json := ("type", .string kind.name)

/-- The form of a type that may have a format. -/
def formWithFormat (kind : FieldKind) (format : Option TemporalFormat) : Json :=
  .object [kindMember kind, ("format", Json.ofOption TemporalFormat.toForm format)]

mutual

/-- The form of a type. -/
def toForm : DeclaredType → Json
  | string format => formWithFormat .string format
  | date format => formWithFormat .date format
  | time format => formWithFormat .time format
  | timestamp format => formWithFormat .timestamp format
  | record none => .object [kindMember .record, ("schema", .null)]
  | record (some ⟨fields⟩) =>
    .object [kindMember .record, ("schema", .object [("fields", .array (fieldForms fields))])]
  | choice candidates =>
    .object [kindMember .choice, ("candidates", .array (forms candidates))]
  | other => .object [kindMember other.kind]

/-- The forms of types. -/
def forms : List DeclaredType → List Json
  | [] => []
  | type :: rest => type.toForm :: forms rest

/-- The forms of the fields of a schema. -/
def fieldForms : List (String × DeclaredType) → List Json
  | [] => []
  | (name, type) :: rest =>
    .object [("name", .string name), ("type", type.toForm)] :: fieldForms rest

end

/-- The kind with a name, for reading. -/
def readKind (name : String) : Except FormError FieldKind :=
  match FieldKind.ofName? name with
  | some kind => .ok kind
  | none => .error .malformed

/-- The kind that a form names. Inside another type it may also be given by its position among all
kinds. -/
def kindOfForm (inner : Bool) : Json → Except FormError FieldKind
  | .string name => readKind name
  | .integer n =>
    match inner && 0 ≤ n, FieldKind.all[n.toNat]? with
    | true, some kind => .ok kind
    | _, _ => .error .malformed
  | _ => .error .malformed

/-- The kind that must be named by the member `type` of an object. -/
def kindOfMembers (inner : Bool) (members : List (String × Json)) : Except FormError FieldKind :=
  match Json.member? "type" members with
  | .ok (some form) => kindOfForm inner form
  | _ => .error .malformed

/-- The type of a kind without schema or candidates, with a format if the kind has one. -/
def ofFormat (kind : FieldKind) (format : Option TemporalFormat) : DeclaredType :=
  match kind with
  | .string => string format
  | .date => date format
  | .time => time format
  | .timestamp => timestamp format
  | other => bare other

/-- Whether types of a kind may have a format. -/
def hasFormat : FieldKind → Bool
  | .string | .date | .time | .timestamp => true
  | _ => false

/-- Whether types of a kind have a format, a schema or candidates. -/
def hasPart : FieldKind → Bool
  | .record | .choice => true
  | kind => hasFormat kind

/-- The type of a kind with the part that the kind has, of the three that were read. -/
def ofPart (kind : FieldKind) (format : Except FormError (Option TemporalFormat))
    (schema : Except FormError (Option (Schema DeclaredType)))
    (candidates : Except FormError (List DeclaredType)) : Except FormError DeclaredType :=
  match kind with
  | .record => schema.map record
  | .choice => candidates.map choice
  | kind => if hasFormat kind then format.map (ofFormat kind) else .ok (bare kind)

/-- The schema with a form that may be null, and what is read of it if it is not. -/
def orNull (form : Json) (schema : Except FormError (Schema DeclaredType)) :
    Except FormError (Option (Schema DeclaredType)) :=
  match form with
  | .null => .ok none
  | _ => schema.map some

/-- A schema of fields that were read, unless a name is repeated. -/
def checkedSchema (fields : List (String × DeclaredType)) : Except FormError RecordSchema :=
  match Schema.ofFields fields with
  | .ok schema => .ok schema
  | .error e => .error (.invalid e)

mutual

/-- The type with a form, which may be inside another one. All of the outermost form must be
readable. -/
def read (inner : Bool) (form : Json) : Except FormError DeclaredType :=
  if inner || form.isReadable then
    match form with
    | .object members => do
      let kind ← kindOfMembers inner members
      ofPart kind (TemporalFormat.ofMember? "format" members) (schemaMember members)
        (candidatesMember members)
    | .array parts => readParts inner parts
    | _ => .error .malformed
  else .error .malformed

/-- The type with the forms of its kind and of the part that the kind has. -/
def readParts (inner : Bool) : List Json → Except FormError DeclaredType
  | [tag] => do
    let kind ← kindOfForm inner tag
    if hasPart kind then .error .malformed else return bare kind
  | [tag, part] => do
    let kind ← kindOfForm inner tag
    if hasPart kind then
      ofPart kind (TemporalFormat.ofForm? part) (orNull part (readSchema true part))
        (readCandidates part)
    else .error .malformed
  | _ => .error .malformed

/-- The types that an array holds the forms of. -/
def readCandidates : Json → Except FormError (List DeclaredType)
  | .array forms => readAll forms
  | _ => .error .malformed

/-- The types with a list of forms inside another one. -/
def readAll : List Json → Except FormError (List DeclaredType)
  | [] => .ok []
  | form :: rest => do
    let type ← read true form
    return type :: (← readAll rest)

/-- The types that must be the member `candidates` of an object. -/
def candidatesMember : List (String × Json) → Except FormError (List DeclaredType)
  | [] => .error .malformed
  | (name, form) :: rest =>
    if name = "candidates" then
      if Json.hasKey "candidates" rest then .error .malformed else readCandidates form
    else candidatesMember rest

/-- The schema that is the member `schema` of an object, if there is one. -/
def schemaMember : List (String × Json) → Except FormError (Option RecordSchema)
  | [] => .ok none
  | (name, form) :: rest =>
    if name = "schema" then
      if Json.hasKey "schema" rest then .error .malformed
      else orNull form (readSchema true form)
    else schemaMember rest

/-- The schema with a form, which may be inside another one. -/
def readSchema (inner : Bool) : Json → Except FormError RecordSchema
  | .object members => do checkedSchema (← fieldsMember inner members)
  | .array [fields] => do checkedSchema (← readFieldList inner fields)
  | _ => .error .malformed

/-- The fields that an array holds the forms of. -/
def readFieldList (inner : Bool) : Json → Except FormError (List (String × DeclaredType))
  | .array forms => readFields inner forms
  | _ => .error .malformed

/-- The fields that must be the member `fields` of an object. -/
def fieldsMember (inner : Bool) :
    List (String × Json) → Except FormError (List (String × DeclaredType))
  | [] => .error .malformed
  | (name, form) :: rest =>
    if name = "fields" then
      if Json.hasKey "fields" rest then .error .malformed else readFieldList inner form
    else fieldsMember inner rest

/-- The fields with a list of forms. -/
def readFields (inner : Bool) : List Json → Except FormError (List (String × DeclaredType))
  | [] => .ok []
  | form :: rest => do
    let field ← readField inner form
    return field :: (← readFields inner rest)

/-- The field with a form. -/
def readField (inner : Bool) : Json → Except FormError (String × DeclaredType)
  | .object members => do
    let name ← Json.stringMember "name" members
    return (name, ← typeMember inner members)
  | .array [.string name, form] => do return (name, ← read inner form)
  | _ => .error .malformed

/-- The type that must be the member `type` of an object. -/
def typeMember (inner : Bool) : List (String × Json) → Except FormError DeclaredType
  | [] => .error .malformed
  | (name, form) :: rest =>
    if name = "type" then
      if Json.hasKey "type" rest then .error .malformed else read inner form
    else typeMember inner rest

end

/-- The type with a form. -/
def ofForm (form : Json) : Except FormError DeclaredType := read false form

/-- The type with a written form. -/
def ofText (text : String) : Except FormError DeclaredType := Json.readAs ofForm text

end DeclaredType

namespace Schema

/-- The form of a schema. -/
def toForm (schema : RecordSchema) : Json :=
  .object [("fields", .array (DeclaredType.fieldForms schema.fields))]

/-- The schema with a form. -/
def ofForm (form : Json) : Except FormError RecordSchema := DeclaredType.readSchema false form

/-- The schema with a written form. -/
def ofText (text : String) : Except FormError RecordSchema := Json.readAs ofForm text

end Schema

end RecordCoercion
