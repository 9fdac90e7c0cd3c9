import RecordCoercion.Conversion.Scalar

/-!
# Conversion to declared types

`accepts` tells whether a value can be converted to a type and `convert` converts it. A choice
stands for the first of its candidates that accepts the value. A map becomes a record by converting,
entry by entry, those whose key as text is the name of a field; the first failure ends the
conversion. A record stays as it is, whatever the schema of the type.
-/

set_option autoImplicit false

namespace RecordCoercion

mutual

/-- Whether a value can be converted to a type; null never can. -/
def accepts (defaults : FormatDefaults) : DeclaredType → Value → Bool
  | type, v =>
    !v.isNull && match type with
      | .boolean => acceptsBoolean v
      | .byte => NumericKind.byte.accepts v
      | .short => NumericKind.short.accepts v
      | .int => NumericKind.int.accepts v
      | .long => NumericKind.long.accepts v
      | .bigInt => NumericKind.bigInt.accepts v
      | .float => NumericKind.float.accepts v
      | .double => NumericKind.double.accepts v
      | .char => acceptsChar v
      | .string _ => true
      | .date format => TemporalKind.accepts (format.or defaults.date) v
      | .time format => TemporalKind.accepts (format.or defaults.time) v
      | .timestamp format => TemporalKind.accepts (format.or defaults.timestamp) v
      | .array => v.kind? == some .array
      | .map => v.kind? == some .map
      | .record _ => v.kind? == some .record
      | .choice candidates => someAccepts defaults candidates v

/-- Whether a value can be converted to one of several types. -/
def someAccepts (defaults : FormatDefaults) : List DeclaredType → Value → Bool
  | [], _ => false
  | type :: rest, v => accepts defaults type v || someAccepts defaults rest v

end

/-- The candidate of a choice type that a value is converted to, with its position. -/
def choose? (defaults : FormatDefaults) (type : DeclaredType) (v : Value) :
    Option (Nat × DeclaredType) :=
  (type.candidates.zipIdx.find? fun (candidate, _) => accepts defaults candidate v).map
    fun (candidate, index) => (index, candidate)

/-- The result of a conversion. -/
abbrev Conversion := Except ConversionError Value

/-- A conversion of a value in a field that gave a value or a reason. -/
def settled (v : Value) (target : FieldKind) (field : String) : Except Reason Value → Conversion
  | .ok w => .ok w
  | .error reason => .error (.failed ⟨v, target, field, reason⟩)

/-- Converts to text, in a format if the value is a point in time. -/
def toText (format : Option TemporalFormat) (v : Value) : Conversion :=
  match v.render format with
  | .ok (some text) => .ok (.string text)
  | .ok none => .ok .null
  | .error e => .error (.unrenderable e.format)

/-- The members that entries become, added to those before. The function gives the conversion of the
member with a name, if there is such a member. -/
def convertEntries (conversion? : String → Option (Value → String → Conversion)) (field : String) :
    Members → Entries → Except ConversionError Members
  | members, [] => .ok members
  | members, (key, v) :: rest =>
    match key.rendered? with
    | none => convertEntries conversion? field members rest
    | some name =>
      match conversion? name with
      | none => convertEntries conversion? field members rest
      | some conversion =>
        match conversion v (memberPath field name) with
        | .error e => .error e
        | .ok w => convertEntries conversion? field (members.insert name w) rest

mutual

/-- Converts a value in a field to a type; null stays null. -/
def convert (defaults : FormatDefaults) : DeclaredType → Value → String → Conversion
  | type, v, field =>
    if v.isNull then .ok .null
    else match type with
      | .boolean => settled v .boolean field (toBoolean v)
      | .byte => settled v .byte field (NumericKind.byte.convert v)
      | .short => settled v .short field (NumericKind.short.convert v)
      | .int => settled v .int field (NumericKind.int.convert v)
      | .long => settled v .long field (NumericKind.long.convert v)
      | .bigInt => settled v .bigInt field (NumericKind.bigInt.convert v)
      | .float => settled v .float field (NumericKind.float.convert v)
      | .double => settled v .double field (NumericKind.double.convert v)
      | .char => settled v .char field (toChar v)
      | .string format => toText format v
      | .date format =>
        settled v .date field (TemporalKind.date.convert (format.or defaults.date) v)
      | .time format =>
        settled v .time field (TemporalKind.time.convert (format.or defaults.time) v)
      | .timestamp format =>
        settled v .timestamp field
          (TemporalKind.timestamp.convert (format.or defaults.timestamp) v)
      | .array => settled v .array field (toArray v)
      | .map => settled v .map field (toMap v)
      | .record none =>
        match v with
        | .record _ _ => .ok v
        | .map _ => settled v .record field (.error .missingSchema)
        | _ => settled v .record field (.error .incompatible)
      | .record (some ⟨fields⟩) =>
        match v with
        | .record _ _ => .ok v
        | .map entries =>
          (convertEntries (memberConversion? defaults fields) field [] entries).map
            (.record ⟨fields⟩)
        | _ => settled v .record field (.error .incompatible)
      | .choice candidates =>
        match candidateConversion? defaults candidates v with
        | some conversion => conversion field
        | none =>
          settled v .choice field
            (.error (.noMatchingCandidate (candidates.map DeclaredType.display)))

/-- The conversion to the type of the field with a name, if there is such a field. -/
def memberConversion? (defaults : FormatDefaults) :
    List (String × DeclaredType) → String → Option (Value → String → Conversion)
  | [], _ => none
  | (name, type) :: rest, key =>
    if name = key then some (convert defaults type) else memberConversion? defaults rest key

/-- The conversion of a value to the first type that accepts it, if one does. -/
def candidateConversion? (defaults : FormatDefaults) :
    List DeclaredType → Value → Option (String → Conversion)
  | [], _ => none
  | type :: rest, v =>
    if accepts defaults type v then some (convert defaults type v)
    else candidateConversion? defaults rest v

end

end RecordCoercion
