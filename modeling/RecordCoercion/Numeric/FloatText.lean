import RecordCoercion.Numeric.Shortest

/-!
# Written forms of binary numbers

A `FloatLayout` holds the decisions of one written form: which magnitudes are written with a plain
decimal point, how the exponent of the others is marked, and whether a mantissa of one digit gets a
fraction. `FloatLayout.text` writes the shortest digits of a finite number in that form; zero keeps
its sign and every plain number shows a fraction.
-/

set_option autoImplicit false

namespace RecordCoercion

/-- The decisions of a written form. The *point position* of a number is the number of digits before
its decimal point, which is zero or less for a number below one tenth of one. -/
structure FloatLayout where
  /-- The least point position that is written plainly. -/
  lowestPoint : Int
  /-- The greatest point position that is written plainly. -/
  highestPoint : Int
  /-- The mark before the exponent of the other numbers. -/
  exponentMark : Char
  /-- Whether a mantissa of one digit is written with the fraction `.0`. -/
  wholeMantissa : Bool
  /-- Which of two equally near decimals is written. -/
  tie : TieRule

namespace FloatLayout

/-- Digits with a plain decimal point at a position. -/
def plain (digits : List Char) (point : Int) : List Char :=
  if point ≤ 0 then '0' :: '.' :: List.replicate (-point).toNat '0' ++ digits
  else if digits.length ≤ point.toNat then
    digits ++ List.replicate (point.toNat - digits.length) '0' ++ ['.', '0']
  else digits.take point.toNat ++ '.' :: digits.drop point.toNat

/-- Digits as a mantissa with one digit before its point, and an exponent. -/
def scientific (layout : FloatLayout) (digits : List Char) (point : Int) : List Char :=
  let fraction := match digits.drop 1 with
    | [] => if layout.wholeMantissa then ['.', '0'] else []
    | rest => '.' :: rest
  digits.take 1 ++ fraction ++ layout.exponentMark :: signedNumeral (point - 1)

/-- The written form of a decimal. -/
def decimal (layout : FloatLayout) (d : Decimal) : List Char :=
  let digits := numeral d.coefficient
  let point := digits.length + d.exponent
  if layout.lowestPoint ≤ point && point ≤ layout.highestPoint then plain digits point
  else layout.scientific digits point

/-- The decimal whose digits are written: a coefficient of ten, which arises only where a single
digit rounds up, is one with the next exponent. -/
def normalize (d : Decimal) : Decimal :=
  if d.coefficient = 10 then ⟨1, d.exponent + 1⟩ else d

/-- The written form of a finite number. -/
def text {f : BinaryFormat} (layout : FloatLayout) (x : Binary f) : List Char :=
  let magnitude :=
    if x.isZero then ['0', '.', '0'] else layout.decimal (normalize (x.shortest layout.tie))
  if x.negative then '-' :: magnitude else magnitude

end FloatLayout

end RecordCoercion
