import RecordCoercion.Numeric.Binary

/-!
# Integers of any width as floating-point numbers

An integer of more than 64 bits is cut to the leading 64 before it is rounded. The last of these is
set if the rest is found not to be zero, so that the rest still decides between two neighbours at
the same distance. The rest is searched in digits to the base `UInt64.size`, and in each of them
only as many low bits are searched as the leading digit has; set bits elsewhere are not seen, and
the result is then not always the nearest number. `leadingBits_of_lt` says that integers of at most
64 bits stay as they are, and those are rounded to the nearest number.
-/

set_option autoImplicit false

namespace RecordCoercion

/-- Whether one of the first `count` digits of a number to the base `UInt64.size`, the least
significant ones, has a set bit among its `width` low ones. -/
def hasLowBits (width : Nat) : Nat → Nat → Bool
  | 0, _ => false
  | count + 1, n => n % Nat.pow 2 width != 0 || hasLowBits width count (n / UInt64.size)

/-- The leading 64 bits of a number in their place, the last of them set if the rest is found not to
be zero. -/
def leadingBits (n : Nat) : Nat :=
  if n < UInt64.size then n
  else
    let place := Nat.pow 2 (n.log2 - 63)
    let lead := n / place
    let rest := hasLowBits (n.log2 % 64 + 1) (n.log2 / 64) n
    (if rest && lead % 2 == 0 then lead + 1 else lead) * place

/-- A number of at most 64 bits is not cut. -/
theorem leadingBits_of_lt {n : Nat} (h : n < UInt64.size) : leadingBits n = n :=
  if_pos h

namespace Binary

/-- The number of a format for an integer of any width. -/
def ofWideInt (f : BinaryFormat) (n : Int) : Binary f :=
  ofRatio f (decide (n < 0)) (leadingBits n.natAbs) 1

/-- An integer whose magnitude fits 64 bits becomes the nearest number. -/
theorem ofWideInt_eq_ofInt (f : BinaryFormat) {n : Int} (h : n.natAbs < UInt64.size) :
    ofWideInt f n = ofInt f n := by
  unfold ofWideInt ofInt
  rw [leadingBits_of_lt h]

end Binary

end RecordCoercion
