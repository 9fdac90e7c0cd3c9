import RecordCoercion.Json.Basic
import RecordCoercion.Value.Key

/-!
# Values of JSON documents

Any document is taken in as a value: its integers become 64-bit integers if they fit and unbounded
ones if not, its other numbers doubles, its arrays arrays and its objects maps. The keys of an
object come out sorted by character, and a repeated key has its last value. An unreadable part would
be taken as null.
-/

set_option autoImplicit false

namespace RecordCoercion.Value

/-- A sorted list of entries after the entry of a key was put in or replaced. -/
def insertSorted {α : Type} (key : String) (value : α) : List (String × α) → List (String × α)
  | [] => [(key, value)]
  | (k, old) :: rest =>
    if key < k then (key, value) :: (k, old) :: rest
    else if k = key then (key, value) :: rest
    else (k, old) :: insertSorted key value rest

/-- The entries of a list sorted by key, the last entry of each key being kept. -/
def sortedByKey {α : Type} (entries : List (String × α)) : List (String × α) :=
  entries.foldl (fun sorted (key, value) => insertSorted key value sorted) []

mutual

/-- The value of a document. -/
def ofDocument : Json → Value
  | .null => null
  | .bool b => boolean b
  | .integer n => if IntRange.bits64.contains n then long (.ofInt n) else bigInt n
  | .float x => double x
  | .single x => double (x.convert binary64)
  | .string s => string s
  | .unreadable => null
  | .array items => array (ofDocuments items)
  | .object members =>
    map ((sortedByKey (ofDocumentMembers members)).map fun (key, value) => (string key, value))

/-- The values of the items of an array. -/
def ofDocuments : List Json → List Value
  | [] => []
  | item :: rest => ofDocument item :: ofDocuments rest

/-- The values of the members of an object. -/
def ofDocumentMembers : List (String × Json) → List (String × Value)
  | [] => []
  | (key, value) :: rest => (key, ofDocument value) :: ofDocumentMembers rest

end

end RecordCoercion.Value
