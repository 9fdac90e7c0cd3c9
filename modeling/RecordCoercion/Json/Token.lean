import RecordCoercion.Json.Number
import RecordCoercion.Numeric.FloatText

/-!
# Tokens of JSON text

A JSON text is a sequence of tokens with blanks between them. `Token.text` writes a token and
`tokens?` splits a text. Control characters of strings must be escaped. Escapes may write the two
halves of a surrogate pair; a string in which one half stands alone is a token without content.
-/

set_option autoImplicit false

namespace RecordCoercion.Json

/-- A token of JSON text; the values of scalars are documents already. -/
inductive Token
  | beginArray
  | endArray
  | beginObject
  | endObject
  | comma
  | colon
  | scalar (value : Json)
  | string (content : Option String)

/-- The blanks between tokens. -/
def isSeparator (c : Char) : Bool := c == ' ' || c == '\n' || c == '\t' || c == '\r'

/-- The value of a hexadecimal digit. -/
def hexValue? (c : Char) : Option Nat :=
  if '0' ≤ c && c ≤ '9' then some (c.toNat - '0'.toNat)
  else if 'a' ≤ c && c ≤ 'f' then some (c.toNat - 'a'.toNat + 10)
  else if 'A' ≤ c && c ≤ 'F' then some (c.toNat - 'A'.toNat + 10)
  else none

/-- The value of four hexadecimal digits. -/
def hexUnit? (a b c d : Char) : Option Nat := do
  let a ← hexValue? a
  let b ← hexValue? b
  let c ← hexValue? c
  let d ← hexValue? d
  return ((a * 16 + b) * 16 + c) * 16 + d

/-- The first half of a surrogate pair. -/
def isHighSurrogate (unit : Nat) : Bool := 0xD800 ≤ unit && unit ≤ 0xDBFF

/-- The second half of a surrogate pair. -/
def isLowSurrogate (unit : Nat) : Bool := 0xDC00 ≤ unit && unit ≤ 0xDFFF

/-- The character of a surrogate pair. -/
def pairedChar (high low : Nat) : Char :=
  Char.ofNat (0x10000 + (high - 0xD800) * 0x400 + (low - 0xDC00))

/-- The character of a short escape. -/
def escaped? : Char → Option Char
  | '"' => some '"'
  | '\\' => some '\\'
  | '/' => some '/'
  | 'b' => some '\x08'
  | 'f' => some '\x0c'
  | 'n' => some '\n'
  | 'r' => some '\r'
  | 't' => some '\t'
  | _ => none

/-- The units of a string up to its closing quote, and the number of characters up to there. A unit
is the code of a character or half a surrogate pair. -/
def scanUnits? : List Char → Option (List Nat × Nat)
  | [] => none
  | '"' :: _ => some ([], 1)
  | '\\' :: 'u' :: a :: b :: c :: d :: rest =>
    match hexUnit? a b c d with
    | none => none
    | some unit => (scanUnits? rest).map fun (units, length) => (unit :: units, length + 6)
  | '\\' :: c :: rest =>
    match escaped? c with
    | none => none
    | some e => (scanUnits? rest).map fun (units, length) => (e.toNat :: units, length + 2)
  | c :: rest =>
    if c.toNat < 0x20 then none
    else (scanUnits? rest).map fun (units, length) => (c.toNat :: units, length + 1)

/-- The characters of units, unless half a surrogate pair stands alone. -/
def joinPairs? : List Nat → Option (List Char)
  | [] => some []
  | [unit] =>
    if isHighSurrogate unit || isLowSurrogate unit then none else some [Char.ofNat unit]
  | unit :: next :: rest =>
    if isHighSurrogate unit && isLowSurrogate next then
      (joinPairs? rest).map (pairedChar unit next :: ·)
    else if isHighSurrogate unit || isLowSurrogate unit then none
    else (joinPairs? (next :: rest)).map (Char.ofNat unit :: ·)

/-- The words of JSON. -/
def words : List (List Char × Json) :=
  [("null".toList, .null), ("true".toList, .bool true), ("false".toList, .bool false)]

/-- The token at the front of a text, and its length. -/
def scanToken? : List Char → Option (Token × Nat)
  | [] => none
  | '[' :: _ => some (.beginArray, 1)
  | ']' :: _ => some (.endArray, 1)
  | '\x7b' :: _ => some (.beginObject, 1)
  | '\x7d' :: _ => some (.endObject, 1)
  | ',' :: _ => some (.comma, 1)
  | ':' :: _ => some (.colon, 1)
  | '"' :: rest =>
    (scanUnits? rest).map fun (units, length) =>
      (.string ((joinPairs? units).map String.ofList), length + 1)
  | text =>
    match words.find? fun (word, _) => word.isPrefixOf text with
    | some (word, value) => some (.scalar value, word.length)
    | none =>
      match scanNumber? text with
      | none => none
      | some (parts, rest) =>
        some (.scalar (parts.value?.getD .unreadable), text.length - rest.length)

/-- The tokens of a text of which the first `skip` characters belong to an earlier token. -/
def tokensAfter? : Nat → List Char → Option (List Token)
  | _, [] => some []
  | skip + 1, _ :: rest => tokensAfter? skip rest
  | 0, c :: rest =>
    if isSeparator c then tokensAfter? 0 rest
    else match scanToken? (c :: rest) with
      | some (token, length) => (tokensAfter? (length - 1) rest).map (token :: ·)
      | none => none

/-- The tokens of a text. -/
def tokens? (text : List Char) : Option (List Token) := tokensAfter? 0 text

/-- Doubles are written plainly down to four zeros after the point and up to sixteen digits before
it, and otherwise with `e`. -/
def floatLayout : FloatLayout where
  lowestPoint := -4
  highestPoint := 16
  exponentMark := 'e'
  wholeMantissa := false
  tie := .even

/-- Single-precision numbers are written plainly down to five zeros after the point and up to thirteen
digits before it. -/
def singleLayout : FloatLayout where
  lowestPoint := -5
  highestPoint := 13
  exponentMark := 'e'
  wholeMantissa := false
  tie := .even

/-- A hexadecimal digit. -/
def hexDigit (n : Nat) : Char := Nat.digitChar (n % 16)

/-- The written form of a character of a string: quotes, backslashes and control characters are
escaped. -/
def escapeChar (c : Char) : List Char :=
  match c with
  | '"' => ['\\', '"']
  | '\\' => ['\\', '\\']
  | '\x08' => ['\\', 'b']
  | '\x0c' => ['\\', 'f']
  | '\n' => ['\\', 'n']
  | '\r' => ['\\', 'r']
  | '\t' => ['\\', 't']
  | c =>
    if c.toNat < 0x20 then ['\\', 'u', '0', '0', hexDigit (c.toNat / 16), hexDigit c.toNat]
    else [c]

/-- A string between quotes. -/
def quoted (s : String) : List Char := '"' :: s.toList.flatMap escapeChar ++ ['"']

/-- The written form of a scalar. What is not finite is written as null, and what has no value as a
number beyond all doubles. -/
def scalarText : Json → List Char
  | .bool b => (if b then "true" else "false").toList
  | .integer n => signedNumeral n
  | .float x => if x.isFinite then floatLayout.text x else "null".toList
  | .single x => if x.isFinite then singleLayout.text x else "null".toList
  | .unreadable => "1e999".toList
  | _ => "null".toList

namespace Token

/-- The written form of a token; a string without content is half a surrogate pair. -/
def text : Token → List Char
  | beginArray => ['[']
  | endArray => [']']
  | beginObject => ['\x7b']
  | endObject => ['\x7d']
  | comma => [',']
  | colon => [':']
  | scalar value => scalarText value
  | string (some s) => quoted s
  | string none => "\"\\ud800\"".toList

end Token

end RecordCoercion.Json
