import RecordCoercion.Value.Key

/-!
# Equality of values

`Value.equal` compares values as data: floating-point numbers by their numeric value, so that "not a
number" equals nothing and the zeros are equal, arrays item by item, and maps and records without
regard to the order of their entries. Records must also be bound to the same schema, and values of
different kinds are never equal.
-/

set_option autoImplicit false

namespace RecordCoercion.Value

mutual

/-- Whether two values are equal as data. -/
def equal : Value → Value → Bool
  | null, null => true
  | boolean a, boolean b => a == b
  | byte a, byte b => a == b
  | short a, short b => a == b
  | int a, int b => a == b
  | long a, long b => a == b
  | bigInt a, bigInt b => a == b
  | float a, float b => a.numericEq b
  | double a, double b => a.numericEq b
  | char a, char b => a == b
  | string a, string b => a == b
  | date a, date b => a == b
  | time a, time b => a == b
  | timestamp a, timestamp b => a == b
  | array a, array b => equalItems a b
  | map a, map b => a.length == b.length && entriesAmong a b
  | record schema a, record schema' b =>
    schema.same schema' && (a.length == b.length && membersAmong a b)
  | _, _ => false

/-- Whether two lists hold equal items in the same order. -/
def equalItems : List Value → List Value → Bool
  | [], [] => true
  | a :: restA, b :: restB => a.equal b && equalItems restA restB
  | _, _ => false

/-- Whether each entry of a list has an equal value under the same key in another list. -/
def entriesAmong : List (Value × Value) → Entries → Bool
  | [], _ => true
  | (key, value) :: rest, entries =>
    (match Entries.get? entries key with
      | some other => value.equal other
      | none => false) && entriesAmong rest entries

/-- Whether each member of a list has an equal value under the same name in another list. -/
def membersAmong : List (String × Value) → Members → Bool
  | [], _ => true
  | (name, value) :: rest, members =>
    (match Members.find? members name with
      | some other => value.equal other
      | none => false) && membersAmong rest members

end

end RecordCoercion.Value
