import RecordCoercion.Numeric.FloatText
import RecordCoercion.Temporal.Render
import RecordCoercion.Value.Basic

/-!
# The displayed text of values

`Value.text` is the natural text of a value: strings and characters as they are, numbers in decimal,
instants as date-times, arrays in brackets and maps and records in braces. `Value.rendered` is the
text a value is turned into where text is asked for: it differs on null, which has none, and on
instants, which use a format if there is one and their count of milliseconds otherwise.
-/

set_option autoImplicit false

namespace RecordCoercion

/-- Floating-point values are written plainly from one thousandth to below ten million, and
otherwise with `E`; both ways show a fraction. -/
def Value.floatLayout : FloatLayout where
  lowestPoint := -2
  highestPoint := 7
  exponentMark := 'E'
  wholeMantissa := true
  tie := .up

/-- The text of a floating-point value. -/
def Binary.valueText {f : BinaryFormat} (x : Binary f) : List Char :=
  if x.isNaN then "NaN".toList
  else if x.isInfinite then (if x.negative then "-Infinity" else "Infinity").toList
  else Value.floatLayout.text x

namespace Value

open DeclaredType (separated)

mutual

/-- The displayed text of a value. -/
def text : Value → List Char
  | null => "null".toList
  | boolean b => (if b then "true" else "false").toList
  | byte n => signedNumeral n.toInt
  | short n => signedNumeral n.toInt
  | int n => signedNumeral n.toInt
  | long n => signedNumeral n.toInt
  | bigInt n => signedNumeral n
  | float x => x.valueText
  | double x => x.valueText
  | char c => [c]
  | string s => s.toList
  | date i => i.display
  | time i => i.display
  | timestamp i => i.display
  | array items => '[' :: separated ", ".toList (itemTexts items) ++ [']']
  | map entries => '\x7b' :: separated ", ".toList (entryTexts entries) ++ ['\x7d']
  | record _ members =>
    "Record\x7b".toList ++ separated ", ".toList (memberTexts members) ++ ['\x7d']

/-- The displayed texts of the items of an array. -/
def itemTexts : List Value → List (List Char)
  | [] => []
  | item :: rest => item.text :: itemTexts rest

/-- The displayed texts of the entries of a map. -/
def entryTexts : List (Value × Value) → List (List Char)
  | [] => []
  | (key, value) :: rest => (key.text ++ '=' :: value.text) :: entryTexts rest

/-- The displayed texts of the members of a record. -/
def memberTexts : List (String × Value) → List (List Char)
  | [] => []
  | (name, value) :: rest => (name.toList ++ '=' :: value.text) :: memberTexts rest

end

/-- The texts of items, one by one. -/
theorem itemTexts_eq (items : List Value) : itemTexts items = items.map text := by
  induction items with
  | nil => rfl
  | cons item rest ih => rw [itemTexts, ih, List.map_cons]

/-- The texts of entries, each key with its value. -/
theorem entryTexts_eq (entries : List (Value × Value)) :
    entryTexts entries = entries.map fun entry => entry.1.text ++ '=' :: entry.2.text := by
  induction entries with
  | nil => rfl
  | cons entry rest ih => rw [entryTexts, ih, List.map_cons]

/-- The texts of members, each name with its value. -/
theorem memberTexts_eq (members : List (String × Value)) :
    memberTexts members = members.map fun member => member.1.toList ++ '=' :: member.2.text := by
  induction members with
  | nil => rfl
  | cons member rest ih => rw [memberTexts, ih, List.map_cons]

/-- An array is written in brackets. -/
theorem text_array (items : List Value) :
    (array items).text = '[' :: separated ", ".toList (items.map text) ++ [']'] := by
  rw [← itemTexts_eq]
  rfl

/-- A map is written in braces, each key with its value. -/
theorem text_map (entries : List (Value × Value)) :
    (map entries).text = '\x7b' :: separated ", ".toList
      (entries.map fun entry => entry.1.text ++ '=' :: entry.2.text) ++ ['\x7d'] := by
  rw [← entryTexts_eq]
  rfl

/-- A record is written in braces, each name with its value. -/
theorem text_record (schema : RecordSchema) (members : List (String × Value)) :
    (record schema members).text = "Record\x7b".toList ++ separated ", ".toList
      (members.map fun member => member.1.toList ++ '=' :: member.2.text) ++ ['\x7d'] := by
  rw [← memberTexts_eq]
  rfl

/-- The displayed text of a value, as a string. -/
def display (v : Value) : String := String.ofList v.text

/-- A value cannot be written because its format holds an item that can only be read. -/
structure Unrenderable where
  format : TemporalFormat
  deriving DecidableEq

/-- The text of an instant in a format, and its count of milliseconds without a format or where the
calendar ends. -/
def instantText (format : Option TemporalFormat) (i : Instant) : Except Unrenderable (List Char) :=
  match format with
  | none => .ok (signedNumeral i.epochMillis.toInt)
  | some format =>
    match format.render i with
    | .ok text => .ok text
    | .error .outOfRange => .ok (signedNumeral i.epochMillis.toInt)
    | .error .unrenderable => .error ⟨format⟩

/-- The text that a value is turned into, in a format if it is a point in time; null has none. -/
def render (format : Option TemporalFormat) (v : Value) : Except Unrenderable (Option String) :=
  match v with
  | null => .ok none
  | string s => .ok (some s)
  | date i | time i | timestamp i =>
    (instantText format i).map fun text => some (String.ofList text)
  | other => .ok (some other.display)

/-- The text that a value is turned into without a format; null has none. -/
def rendered? (v : Value) : Option String :=
  match v with
  | null => none
  | string s => some s
  | date i | time i | timestamp i => some (String.ofList (signedNumeral i.epochMillis.toInt))
  | other => some other.display

/-- Without a format every value can be written. -/
theorem render_none (v : Value) : v.render none = .ok v.rendered? := by
  cases v <;> rfl

end Value

end RecordCoercion
