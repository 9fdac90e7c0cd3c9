import RecordCoercion.Value.Ordered

/-!
# Schemas

A schema is a list of named fields in the order of their declaration. The type of a field is a
parameter here, because declared types contain schemas in turn. `Schema.ofFields` is the way to
build a schema: it refuses a list in which a name is repeated. `Schema.add` is the step by which a
schema grows field by field, and a `SchemaBuilder` gathers the fields first.
-/

set_option autoImplicit false

namespace RecordCoercion

/-- Named fields in the order of their declaration. -/
structure Schema (α : Type) where
  fields : List (String × α)

/-- Why a schema or a type cannot be built. -/
inductive CatalogError
  /-- A field repeats the name of an earlier one. -/
  | duplicateField (name : String)
  /-- A pattern has an unknown specifier. -/
  | invalidFormat (pattern : String)
  deriving DecidableEq

namespace CatalogError

/-- The message of an error. -/
def message : CatalogError → String
  | duplicateField name => "Duplicate field '" ++ name ++ "' in record schema"
  | invalidFormat pattern => "Invalid temporal format '" ++ pattern ++ "'"

end CatalogError

/-- The first name of a list that is among the names before it or in `seen`. -/
def firstRepeated? (seen : List String) : List String → Option String
  | [] => none
  | name :: rest => if name ∈ seen then some name else firstRepeated? (name :: seen) rest

/-- No name is repeated exactly if the names are distinct and new. -/
theorem firstRepeated?_eq_none_iff (seen names : List String) :
    firstRepeated? seen names = none ↔ names.Nodup ∧ ∀ name ∈ names, name ∉ seen := by
  induction names generalizing seen with
  | nil => simp [firstRepeated?]
  | cons name rest ih =>
    by_cases h : name ∈ seen
    · simp [firstRepeated?, h]
    · simp only [firstRepeated?, h, if_false, ih, List.nodup_cons, List.mem_cons]
      grind

namespace Schema

variable {α : Type}

/-- The names of the fields in order. -/
def names (schema : Schema α) : List String := schema.fields.map (·.1)

/-- The number of fields. -/
def size (schema : Schema α) : Nat := schema.fields.length

/-- The type of the field with a name. -/
def typeOf? (schema : Schema α) (name : String) : Option α := schema.fields.lookup name

/-- Whether there is a field with a name. -/
def contains (schema : Schema α) (name : String) : Bool := (schema.typeOf? name).isSome

/-- The schema with the given fields, unless a name is repeated. -/
def ofFields (fields : List (String × α)) : Except CatalogError (Schema α) :=
  match firstRepeated? [] (fields.map (·.1)) with
  | some name => .error (.duplicateField name)
  | none => .ok ⟨fields⟩

/-- The schema without fields. -/
def empty : Schema α := ⟨[]⟩

/-- The schema with one more field, unless there is one of that name. -/
def add (schema : Schema α) (field : String × α) : Except CatalogError (Schema α) :=
  if schema.contains field.1 then .error (.duplicateField field.1)
  else .ok ⟨Ordered.insert (· == ·) field.1 field.2 schema.fields⟩

end Schema

/-- The fields of a schema that is still to be built. -/
structure SchemaBuilder (α : Type) where
  fields : List (String × α)

namespace SchemaBuilder

variable {α : Type}

/-- The builder without fields. -/
def empty : SchemaBuilder α := ⟨[]⟩

/-- The builder with one more field at the end. -/
def field (builder : SchemaBuilder α) (name : String) (type : α) : SchemaBuilder α :=
  ⟨builder.fields ++ [(name, type)]⟩

/-- The schema of the fields, unless a name is repeated. -/
def build (builder : SchemaBuilder α) : Except CatalogError (Schema α) :=
  Schema.ofFields builder.fields

end SchemaBuilder

end RecordCoercion
