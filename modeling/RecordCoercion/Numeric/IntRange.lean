/-!
# Ranges of integers

An `IntRange` is given by its two ends, which belong to it. The ranges of the signed integers of 8,
16, 32 and 64 bits are named by their widths. A number outside a range is either refused
(`contains_iff`) or moved to the nearer end (`clamp`).
-/

set_option autoImplicit false

namespace RecordCoercion

/-- The integers from `lo` to `hi`. -/
structure IntRange where
  lo : Int
  hi : Int
  deriving DecidableEq

namespace IntRange

/-- The signed integers of 8 bits. -/
def bits8 : IntRange := ⟨-128, 127⟩

/-- The signed integers of 16 bits. -/
def bits16 : IntRange := ⟨-32768, 32767⟩

/-- The signed integers of 32 bits. -/
def bits32 : IntRange := ⟨-2147483648, 2147483647⟩

/-- The signed integers of 64 bits. -/
def bits64 : IntRange := ⟨-9223372036854775808, 9223372036854775807⟩

/-- Whether an integer lies in a range. -/
def contains (range : IntRange) (n : Int) : Bool := range.lo ≤ n && n ≤ range.hi

/-- A range contains what lies between its ends. -/
theorem contains_iff (range : IntRange) (n : Int) :
    range.contains n = true ↔ range.lo ≤ n ∧ n ≤ range.hi := by
  simp only [contains, Bool.and_eq_true, decide_eq_true_eq]

/-- The integer of a range that is nearest to an integer. -/
def clamp (range : IntRange) (n : Int) : Int := max range.lo (min range.hi n)

/-- An integer of a range stays where it is. -/
theorem clamp_of_contains {range : IntRange} {n : Int} (h : range.contains n = true) :
    range.clamp n = n := by
  rw [contains_iff] at h
  unfold clamp
  omega

end IntRange

end RecordCoercion
