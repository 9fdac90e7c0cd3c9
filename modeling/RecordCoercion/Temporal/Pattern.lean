import RecordCoercion.Temporal.Item
import RecordCoercion.Text.Characters

/-!
# Temporal formats

`TemporalFormat` is a pattern that is known to split into items, so whoever holds a format can read
and write with it. `TemporalFormat.ofPattern?` is the check.
-/

set_option autoImplicit false

namespace RecordCoercion

/-- The items of a pattern of which the first `skip` characters belong to an earlier specifier. -/
def patternItemsAfter? : Nat → List Char → Option (List Item)
  | _, [] => some []
  | skip + 1, _ :: rest => patternItemsAfter? skip rest
  | 0, c :: rest =>
    if c = '%' then
      match Item.specifier? rest with
      | some (items, length) => (patternItemsAfter? length rest).map (items ++ ·)
      | none => none
    else (patternItemsAfter? 0 rest).map (Item.ofChar isBlank c :: ·)

/-- The items of a pattern, if all its specifiers are known. -/
def patternItems? (pattern : List Char) : Option (List Item) := patternItemsAfter? 0 pattern

/-- A pattern whose specifiers are all known. -/
structure TemporalFormat where
  pattern : String
  isSome_patternItems : (patternItems? pattern.toList).isSome = true
  deriving DecidableEq

namespace TemporalFormat

/-- The format with a pattern, if its specifiers are all known. -/
def ofPattern? (pattern : String) : Option TemporalFormat :=
  if h : (patternItems? pattern.toList).isSome = true then some ⟨pattern, h⟩ else none

/-- The items of the pattern. -/
def items (format : TemporalFormat) : List Item :=
  (patternItems? format.pattern.toList).get format.isSome_patternItems

/-- The format of dates by default. -/
def isoDate : TemporalFormat := ⟨"%Y-%m-%d", by decide⟩

/-- The format of times of day by default. -/
def isoTime : TemporalFormat := ⟨"%H:%M:%S", by decide⟩

/-- The format of timestamps by default. -/
def isoDateTime : TemporalFormat := ⟨"%Y-%m-%d %H:%M:%S", by decide⟩

/-- A format is built from its own pattern. -/
theorem ofPattern?_pattern (format : TemporalFormat) :
    ofPattern? format.pattern = some format := by
  simp [ofPattern?, format.isSome_patternItems]

end TemporalFormat

end RecordCoercion
