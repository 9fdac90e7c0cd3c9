import RecordCoercion.Catalog.Form
import RecordCoercion.Numeric.IntRange
import RecordCoercion.Value.Key

/-!
# The JSON form of values

A value is an object whose member `type` names its kind and whose member `value` is its content,
which null does not have. Bounded integers and instants are integers; an unbounded integer is its
sign with its digits to the base `UInt32.size`, least significant first; a map is a list of pairs
and a record an object with its `schema` and its `values`. What is not finite is written as null and
cannot be read back.

Reading also takes an array with the kind and the content. In an object the content may stand before
the kind; everything in such an *early* content must be readable, and there the kinds of values and
types may be given in more ways. Unknown members outside early contents need not be readable.
-/

set_option autoImplicit false

namespace RecordCoercion.Value

/-- The digits of a natural number to the base `UInt32.size`, least significant first. -/
def limbs (n : Nat) : List Nat :=
  if n = 0 then [] else n % UInt32.size :: limbs (n / UInt32.size)
termination_by n
decreasing_by exact Nat.div_lt_self (Nat.pos_of_ne_zero (by assumption)) (by decide)

/-- The natural number with digits to the base `UInt32.size`, least significant first. -/
def ofLimbs : List Nat → Nat
  | [] => 0
  | limb :: rest => limb + UInt32.size * ofLimbs rest

/-- A number is put together again from its digits. -/
theorem ofLimbs_limbs (n : Nat) : ofLimbs (limbs n) = n := by
  rw [limbs]
  split
  · next h => rw [h, ofLimbs]
  · rw [ofLimbs, ofLimbs_limbs (n / UInt32.size), Nat.mod_add_div]
termination_by n
decreasing_by exact Nat.div_lt_self (Nat.pos_of_ne_zero (by assumption)) (by decide)

/-- The form of an unbounded integer. -/
def bigIntForm (n : Int) : Json :=
  .array [.integer n.sign, .array ((limbs n.natAbs).map fun (limb : Nat) => .integer limb)]

/-- The form of a double; the document writes what is not finite as null. -/
def doubleForm (x : Binary binary64) : Json := if x.isFinite then .float x else .null

/-- The form of a single-precision number. -/
def floatForm (x : Binary binary32) : Json := if x.isFinite then .single x else .null

/-- A form with the name of a kind and a content. -/
def tagged (kind : FieldKind) (content : Json) : Json :=
  .object [DeclaredType.kindMember kind, ("value", content)]

mutual

/-- The form of a value. -/
def toForm : Value → Json
  | null => .object [("type", .string "Null")]
  | boolean b => tagged .boolean (.bool b)
  | byte n => tagged .byte (.integer n.toInt)
  | short n => tagged .short (.integer n.toInt)
  | int n => tagged .int (.integer n.toInt)
  | long n => tagged .long (.integer n.toInt)
  | bigInt n => tagged .bigInt (bigIntForm n)
  | float x => tagged .float (floatForm x)
  | double x => tagged .double (doubleForm x)
  | char c => tagged .char (.string (String.ofList [c]))
  | string s => tagged .string (.string s)
  | date i => tagged .date (.integer i.epochMillis.toInt)
  | time i => tagged .time (.integer i.epochMillis.toInt)
  | timestamp i => tagged .timestamp (.integer i.epochMillis.toInt)
  | array items => tagged .array (.array (itemForms items))
  | map entries => tagged .map (.array (entryForms entries))
  | record schema members =>
    tagged .record
      (.object [("schema", schema.toForm), ("values", .object (memberForms members))])

/-- The forms of the items of an array. -/
def itemForms : List Value → List Json
  | [] => []
  | item :: rest => item.toForm :: itemForms rest

/-- The forms of the entries of a map. -/
def entryForms : List (Value × Value) → List Json
  | [] => []
  | (key, value) :: rest => .array [key.toForm, value.toForm] :: entryForms rest

/-- The forms of the members of a record. -/
def memberForms : List (String × Value) → List (String × Json)
  | [] => []
  | (name, value) :: rest => (name, value.toForm) :: memberForms rest

end

/-- An integer of a range, for reading. -/
def boundedForm (range : IntRange) (make : Int → Value) : Json → Except FormError Value
  | .integer n => if range.contains n then .ok (make n) else .error .malformed
  | _ => .error .malformed

/-- An instant, for reading. -/
def instantForm (make : Instant → Value) : Json → Except FormError Value :=
  boundedForm .bits64 fun n => make ⟨.ofInt n⟩

/-- The digits with a list of forms. -/
def readLimbs : List Json → Except FormError (List Nat)
  | [] => .ok []
  | .integer n :: rest =>
    if 0 ≤ n && n < UInt32.size then (readLimbs rest).map (n.toNat :: ·) else .error .malformed
  | _ :: _ => .error .malformed

/-- An unbounded integer, for reading. -/
def readBigInt : Json → Except FormError Value
  | .array [.integer sign, .array digits] =>
    if -1 ≤ sign && sign ≤ 1 then
      (readLimbs digits).map fun digits => bigInt (sign * ofLimbs digits)
    else .error .malformed
  | _ => .error .malformed

/-- The content of a kind whose values hold no other values, for reading. -/
def readScalar (kind : FieldKind) (content : Json) : Except FormError Value :=
  match kind, content with
  | .boolean, .bool b => .ok (boolean b)
  | .byte, content => boundedForm .bits8 (fun n => byte (.ofInt n)) content
  | .short, content => boundedForm .bits16 (fun n => short (.ofInt n)) content
  | .int, content => boundedForm .bits32 (fun n => int (.ofInt n)) content
  | .long, content => boundedForm .bits64 (fun n => long (.ofInt n)) content
  | .bigInt, content => readBigInt content
  | .float, .float x => .ok (float (x.convert binary32))
  | .float, .integer n => .ok (float (.ofInt binary32 n))
  | .double, .float x => .ok (double x)
  | .double, .integer n => .ok (double (.ofInt binary64 n))
  | .char, .string s =>
    match s.toList with
    | [c] => .ok (char c)
    | _ => .error .malformed
  | .string, .string s => .ok (string s)
  | .date, content => instantForm date content
  | .time, content => instantForm time content
  | .timestamp, content => instantForm timestamp content
  | _, _ => .error .malformed

/-- The kind that a name stands for, `none` for null. -/
def kindOfName (name : String) : Except FormError (Option FieldKind) :=
  if name = "Null" then .ok none else (DeclaredType.readKind name).map some

/-- The kind that the member `type` of an object stands for. The name may also be the only key of an
object, with null under it or, in early content, an empty object. -/
def kindOfTag (early : Bool) : Json → Except FormError (Option FieldKind)
  | .string name => kindOfName name
  | .object [(name, .null)] => kindOfName name
  | .object [(name, .object [])] => if early then kindOfName name else .error .malformed
  | _ => .error .malformed

/-- The kind that the first item of an array stands for. In early content it may also be given by
its position among null and all kinds. -/
def kindOfFirst (early : Bool) : Json → Except FormError (Option FieldKind)
  | .string name => kindOfName name
  | .integer n =>
    match early && 0 ≤ n, (none :: FieldKind.all.map some)[n.toNat]? with
    | true, some kind => .ok kind
    | _, _ => .error .malformed
  | _ => .error .malformed

/-- The kind that the member `type` of an object must stand for. -/
def kindMember (early : Bool) (members : List (String × Json)) :
    Except FormError (Option FieldKind) :=
  match Json.member? "type" members with
  | .ok (some tag) => kindOfTag early tag
  | _ => .error .malformed

/-- Whether the content of an object stands before its kind. -/
def contentFirst (members : List (String × Json)) : Bool :=
  (members.map (·.1)).find? (fun name => name == "type" || name == "value") == some "value"

/-- The schema that must be the member `schema` of an object, which may be in early content. -/
def schemaMember (early : Bool) (members : List (String × Json)) : Except FormError RecordSchema :=
  match Json.member? "schema" members with
  | .ok (some form) => DeclaredType.readSchema early form
  | _ => .error .malformed

mutual

/-- The value with a form, which may be in early content. -/
def read (early : Bool) : Json → Except FormError Value
  | .object members => do
    let kind ← kindMember early members
    contentMember (early || contentFirst members) kind members
  | .array [first, content] => do
    let kind ← kindOfFirst early first
    readContent early kind content
  | _ => .error .malformed

/-- The value of a kind whose content is the member `value` of an object; only null may lack it. All
of an early content must be readable. -/
def contentMember (early : Bool) (kind : Option FieldKind) :
    List (String × Json) → Except FormError Value
  | [] => if kind.isNone then .ok null else .error .malformed
  | (name, content) :: rest =>
    if name = "value" then
      if Json.hasKey "value" rest || early && !content.isReadable then .error .malformed
      else readContent early kind content
    else contentMember early kind rest

/-- The value of a kind with a content. -/
def readContent (early : Bool) (kind : Option FieldKind) : Json → Except FormError Value
  | .null => if kind.isNone then .ok null else .error .malformed
  | .array items =>
    match kind with
    | some .array => do return array (← readItems early items)
    | some .map => do return map (Entries.ofList (← readPairs early items))
    | some .bigInt => readBigInt (.array items)
    | some .record =>
      match items with
      | [schema, .object members] => do
        let schema ← DeclaredType.readSchema early schema
        return record schema (Members.ofList (← readMembers early members))
      | _ => .error .malformed
    | _ => .error .malformed
  | .object members =>
    match kind with
    | some .record => do
      let schema ← schemaMember early members
      return record schema (Members.ofList (← valuesMember early members))
    | _ => .error .malformed
  | content =>
    match kind with
    | some kind => readScalar kind content
    | none => .error .malformed

/-- The values with a list of forms. -/
def readItems (early : Bool) : List Json → Except FormError (List Value)
  | [] => .ok []
  | form :: rest => do
    let item ← read early form
    return item :: (← readItems early rest)

/-- The entries with a list of forms. -/
def readPairs (early : Bool) : List Json → Except FormError (List (Value × Value))
  | [] => .ok []
  | .array [key, value] :: rest => do
    let key ← read early key
    let value ← read early value
    return (key, value) :: (← readPairs early rest)
  | _ :: _ => .error .malformed

/-- The members that must be the member `values` of an object. -/
def valuesMember (early : Bool) :
    List (String × Json) → Except FormError (List (String × Value))
  | [] => .error .malformed
  | (name, form) :: rest =>
    if name = "values" then
      match form, Json.hasKey "values" rest with
      | .object members, false => readMembers early members
      | _, _ => .error .malformed
    else valuesMember early rest

/-- The members with a list of forms. -/
def readMembers (early : Bool) : List (String × Json) → Except FormError (List (String × Value))
  | [] => .ok []
  | (name, form) :: rest => do
    let value ← read early form
    return (name, value) :: (← readMembers early rest)

end

/-- The value with a form. -/
def ofForm (form : Json) : Except FormError Value := read false form

/-- The value with a written form. -/
def ofText (text : String) : Except FormError Value := Json.readAs ofForm text

end RecordCoercion.Value
