/-!
# Digits, blanks and letters

The classes of characters that texts are read by. A numeral is a non-empty run of ASCII digits; a
signed numeral may start with one `+` or `-`, and `readSigned?_signedNumeral` says that every integer
is read back from its own numeral. `isBlank` is the Unicode property `White_Space`, as a table of its
25 characters: it contains the blanks of ASCII and excludes the zero-width space, the byte order mark
and the four information separators. Only the letters of ASCII have a case.
-/

set_option autoImplicit false

namespace RecordCoercion

/-! ## Numerals -/

/-- The decimal digits of a natural number, without leading zeros. -/
def numeral (n : Nat) : List Char := Nat.toDigits 10 n

/-- The decimal digits of an integer after a minus sign if it is negative. -/
def signedNumeral (n : Int) : List Char :=
  if n < 0 then '-' :: numeral n.natAbs else numeral n.natAbs

/-- The natural number that a run of digits denotes. -/
def numeralValue (digits : List Char) : Nat := Nat.ofDigitChars 10 digits 0

/-- A sign in front of a text, if any: whether it is a minus, and the rest. -/
def splitSign : List Char → Bool × List Char
  | '+' :: rest => (false, rest)
  | '-' :: rest => (true, rest)
  | text => (false, text)

/-- The value of a text that is a numeral. -/
def readNumeral? (text : List Char) : Option Nat :=
  if text.isEmpty || !text.all Char.isDigit then none else some (numeralValue text)

/-- The value of a text that is a signed numeral. -/
def readSigned? (text : List Char) : Option Int :=
  let (negative, digits) := splitSign text
  (readNumeral? digits).map fun n => if negative then -(n : Int) else n

/-- The digits at the front of a text, and the rest. -/
def splitDigits (text : List Char) : List Char × List Char :=
  (text.takeWhile Char.isDigit, text.dropWhile Char.isDigit)

/-- A text filled up on the left to a width. -/
def padLeft (fill : Char) (width : Nat) (text : List Char) : List Char :=
  List.replicate (width - text.length) fill ++ text

/-- A numeral has digits only. -/
theorem isDigit_of_mem_numeral {n : Nat} {c : Char} (h : c ∈ numeral n) : c.isDigit = true :=
  Nat.isDigit_of_mem_toDigits (by decide) (by decide) h

/-- A numeral denotes its number. -/
theorem numeralValue_numeral (n : Nat) : numeralValue (numeral n) = n :=
  Nat.ofDigitChars_toDigits (by decide) (by decide)

/-- A numeral has at least one digit. -/
theorem numeral_ne_nil (n : Nat) : numeral n ≠ [] := by
  intro h
  have hlen : 0 < (Nat.toDigits 10 n).length := Nat.length_toDigits_pos
  rw [show Nat.toDigits 10 n = [] from h] at hlen
  exact Nat.lt_irrefl 0 hlen

/-- A number is read back from its numeral. -/
theorem readNumeral?_numeral (n : Nat) : readNumeral? (numeral n) = some n := by
  have hall : (numeral n).all Char.isDigit = true := by
    rw [List.all_eq_true]
    intro c hc
    exact isDigit_of_mem_numeral hc
  simp [readNumeral?, hall, numeral_ne_nil, numeralValue_numeral]

/-- A numeral carries no sign. -/
theorem splitSign_numeral (n : Nat) : splitSign (numeral n) = (false, numeral n) := by
  unfold splitSign
  split
  · next rest h =>
    have := isDigit_of_mem_numeral (n := n) (c := '+') (by simp [h])
    exact absurd this (by decide)
  · next rest h =>
    have := isDigit_of_mem_numeral (n := n) (c := '-') (by simp [h])
    exact absurd this (by decide)
  · rfl

/-- An integer is read back from its signed numeral. -/
theorem readSigned?_signedNumeral (n : Int) : readSigned? (signedNumeral n) = some n := by
  unfold signedNumeral
  split
  · next h =>
    have read : readSigned? ('-' :: numeral n.natAbs) =
        (readNumeral? (numeral n.natAbs)).map fun k => -(k : Int) := rfl
    rw [read, readNumeral?_numeral]
    exact congrArg some (by dsimp only; omega)
  · next h =>
    have read : readSigned? (numeral n.natAbs) =
        (readNumeral? (numeral n.natAbs)).map fun k => (k : Int) := by
      unfold readSigned?
      rw [splitSign_numeral]
      rfl
    rw [read, readNumeral?_numeral]
    exact congrArg some (by dsimp only; omega)

/-! ## Blanks -/

/-- The characters with the Unicode property `White_Space`. -/
def isBlank (c : Char) : Bool :=
  let n := c.toNat
  (0x9 ≤ n && n ≤ 0xD) || n == 0x20 || n == 0x85 || n == 0xA0 || n == 0x1680 ||
    (0x2000 ≤ n && n ≤ 0x200A) || n == 0x2028 || n == 0x2029 || n == 0x202F || n == 0x205F ||
    n == 0x3000

/-- The text without its leading blanks. -/
def trimStart (text : List Char) : List Char := text.dropWhile isBlank

/-- The text without its trailing blanks. -/
def trimEnd (text : List Char) : List Char := (text.reverse.dropWhile isBlank).reverse

/-- The text without the blanks at its ends. -/
def trim (text : List Char) : List Char := trimEnd (trimStart text)

/-! ## Letters -/

/-- Whether two texts are equal but for the case of ASCII letters. -/
def sameLetters (a b : List Char) : Bool :=
  a.map Char.toLower == b.map Char.toLower

/-- The rest of a text that starts with `word` in any case. -/
def dropLetters? : List Char → List Char → Option (List Char)
  | [], text => some text
  | _ :: _, [] => none
  | w :: word, c :: text => if w.toLower = c.toLower then dropLetters? word text else none

end RecordCoercion
