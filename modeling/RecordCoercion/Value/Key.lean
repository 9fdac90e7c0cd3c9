import RecordCoercion.Value.Basic
import RecordCoercion.Value.Ordered

/-!
# Values as keys of maps

Keys are compared by their whole structure (`Value.keyEq`): floating-point numbers by their bits, so
that "not a number" is a key like any other, and arrays, maps and records entry by entry in order.
The schema of a record does not count. `Value.keyAtoms` lists what identifies a key, and is what a
hash of the key is computed from.
-/

set_option autoImplicit false

namespace RecordCoercion

namespace Value

mutual

/-- Whether two values are the same key. -/
def keyEq : Value → Value → Bool
  | null, null => true
  | boolean a, boolean b => a == b
  | byte a, byte b => a == b
  | short a, short b => a == b
  | int a, int b => a == b
  | long a, long b => a == b
  | bigInt a, bigInt b => a == b
  | float a, float b => a == b
  | double a, double b => a == b
  | char a, char b => a == b
  | string a, string b => a == b
  | date a, date b => a == b
  | time a, time b => a == b
  | timestamp a, timestamp b => a == b
  | array a, array b => keyEqItems a b
  | map a, map b => keyEqEntries a b
  | record _ a, record _ b => keyEqMembers a b
  | _, _ => false

/-- Whether two lists of items are the same key, item by item. -/
def keyEqItems : List Value → List Value → Bool
  | [], [] => true
  | a :: restA, b :: restB => a.keyEq b && keyEqItems restA restB
  | _, _ => false

/-- Whether two lists of entries are the same key, entry by entry. -/
def keyEqEntries : List (Value × Value) → List (Value × Value) → Bool
  | [], [] => true
  | (k, a) :: restA, (l, b) :: restB => k.keyEq l && a.keyEq b && keyEqEntries restA restB
  | _, _ => false

/-- Whether two lists of members are the same key, member by member. -/
def keyEqMembers : List (String × Value) → List (String × Value) → Bool
  | [], [] => true
  | (m, a) :: restA, (n, b) :: restB => m == n && a.keyEq b && keyEqMembers restA restB
  | _, _ => false

end

/-- A piece of what identifies a key. -/
inductive KeyAtom
  | kind (kind : Option FieldKind)
  | truth (b : Bool)
  | integer (n : Int)
  | bits (n : Nat)
  | char (c : Char)
  | text (s : String)
  | size (n : Nat)
  deriving DecidableEq

mutual

/-- What identifies a key, in order. -/
def keyAtoms : Value → List KeyAtom
  | null => [.kind none]
  | boolean b => [.kind (some .boolean), .truth b]
  | byte n => [.kind (some .byte), .integer n.toInt]
  | short n => [.kind (some .short), .integer n.toInt]
  | int n => [.kind (some .int), .integer n.toInt]
  | long n => [.kind (some .long), .integer n.toInt]
  | bigInt n => [.kind (some .bigInt), .integer n]
  | float x => [.kind (some .float), .bits x.toBits]
  | double x => [.kind (some .double), .bits x.toBits]
  | char c => [.kind (some .char), .char c]
  | string s => [.kind (some .string), .text s]
  | date i => [.kind (some .date), .integer i.epochMillis.toInt]
  | time i => [.kind (some .time), .integer i.epochMillis.toInt]
  | timestamp i => [.kind (some .timestamp), .integer i.epochMillis.toInt]
  | array items => .kind (some .array) :: .size items.length :: itemAtoms items
  | map entries => .kind (some .map) :: .size entries.length :: entryAtoms entries
  | record _ members => .kind (some .record) :: .size members.length :: memberAtoms members

/-- What identifies the items of an array. -/
def itemAtoms : List Value → List KeyAtom
  | [] => []
  | item :: rest => item.keyAtoms ++ itemAtoms rest

/-- What identifies the entries of a map. -/
def entryAtoms : List (Value × Value) → List KeyAtom
  | [] => []
  | (key, value) :: rest => key.keyAtoms ++ value.keyAtoms ++ entryAtoms rest

/-- What identifies the members of a record. -/
def memberAtoms : List (String × Value) → List KeyAtom
  | [] => []
  | (name, value) :: rest => .text name :: value.keyAtoms ++ memberAtoms rest

end

/-- What identifies a text as a key, without a value being made of it. -/
def textAtoms (text : String) : List KeyAtom := [.kind (some .string), .text text]

/-- Whether a key is a text. -/
def isText (text : String) (key : Value) : Bool := key.string? == some text

end Value

/-- The entries of a map, in the order of insertion. -/
abbrev Entries := List (Value × Value)

namespace Entries

/-- The value under a key. -/
def get? (entries : Entries) (key : Value) : Option Value := Ordered.get? Value.keyEq key entries

/-- The value under a text key, which is looked for as text. -/
def getText? (entries : Entries) (text : String) : Option Value :=
  (entries.find? fun (key, _) => key.isText text).map (·.2)

/-- The entries after an insertion. -/
def insert (entries : Entries) (key value : Value) : Entries :=
  Ordered.insert Value.keyEq key value entries

/-- The value that an insertion replaces, if any, and the entries after it. -/
def getThenInsert (entries : Entries) (key value : Value) : Option Value × Entries :=
  (entries.get? key, entries.insert key value)

/-- The entries of a list of insertions. -/
def ofList (insertions : List (Value × Value)) : Entries := Ordered.ofList Value.keyEq insertions

/-- Whether all keys are text. -/
def hasTextKeys (entries : Entries) : Bool :=
  entries.all fun (key, _) => key.kind? == some .string

end Entries

/-- The members of a record, in the order of insertion. -/
abbrev Members := List (String × Value)

namespace Members

/-- The value of a member. -/
def find? (members : Members) (name : String) : Option Value :=
  Ordered.get? (· == ·) name members

/-- The value of a field, null if the record does not hold it. -/
def get (members : Members) (name : String) : Value := (members.find? name).getD .null

/-- Whether the record holds a field. -/
def contains (members : Members) (name : String) : Bool := (members.find? name).isSome

/-- The members after an insertion. -/
def insert (members : Members) (name : String) (value : Value) : Members :=
  Ordered.insert (· == ·) name value members

/-- The members of a list of insertions. -/
def ofList (insertions : List (String × Value)) : Members := Ordered.ofList (· == ·) insertions

end Members

end RecordCoercion
