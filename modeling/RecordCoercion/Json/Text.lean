import RecordCoercion.Json.Token

/-!
# Reading and writing JSON text

A document is written as its tokens. Reading goes through the tokens once with a stack of the arrays
and objects that are still open: a `Reading` is that stack with what may come next, and
`Reading.step` takes one token. Containers that are nested beyond a limit and objects with an
unreadable key are unreadable.
-/

set_option autoImplicit false

namespace RecordCoercion.Json

mutual

/-- The tokens of a document. -/
def tokens : Json → List Token
  | .array items => .beginArray :: itemTokens items
  | .object members => .beginObject :: memberTokens members
  | .string s => [.string (some s)]
  | value => [.scalar value]

/-- The tokens of the items of an array, its end included. -/
def itemTokens : List Json → List Token
  | [] => [.endArray]
  | [item] => item.tokens ++ [.endArray]
  | item :: rest => item.tokens ++ .comma :: itemTokens rest

/-- The tokens of the members of an object, its end included. -/
def memberTokens : List (String × Json) → List Token
  | [] => [.endObject]
  | [(key, value)] => .string (some key) :: .colon :: value.tokens ++ [.endObject]
  | (key, value) :: rest =>
    .string (some key) :: .colon :: value.tokens ++ .comma :: memberTokens rest

end

/-- The written form of a document. -/
def text (document : Json) : List Char := document.tokens.flatMap Token.text

/-- A container that is open around the place of reading, with what it holds before that place, last
first. -/
inductive Frame
  | array (before : List Json)
  | object (before : List (Option String × Json)) (name : Option String)

/-- What may come next, inside the containers that are open, innermost first. -/
inductive Reading
  | value (stack : List Frame)
  /-- The first item of an array, or its end. -/
  | firstItem (stack : List Frame)
  /-- A comma after an item, or the end of the array. -/
  | afterItem (before : List Json) (stack : List Frame)
  /-- The first key of an object, or its end. -/
  | firstKey (stack : List Frame)
  | key (before : List (Option String × Json)) (stack : List Frame)
  | colon (before : List (Option String × Json)) (name : Option String) (stack : List Frame)
  /-- A comma after a member, or the end of the object. -/
  | afterMember (before : List (Option String × Json)) (stack : List Frame)
  | done (document : Json)

namespace Reading

/-- The state after a value has been read. -/
def finish (document : Json) : List Frame → Reading
  | [] => done document
  | .array before :: stack => afterItem (document :: before) stack
  | .object before name :: stack => afterMember ((name, document) :: before) stack

/-- The object with members, last first, if all their keys can be read. -/
def objectOf (before : List (Option String × Json)) : Json :=
  match before.reverse.mapM fun (name, document) => name.map (·, document) with
  | some members => .object members
  | none => .unreadable

/-- The state after the end of an array or object, which is unreadable inside `limit` or more
others. -/
def close (limit : Nat) (document : Json) (stack : List Frame) : Reading :=
  finish (if (stack.take limit).length < limit then document else .unreadable) stack

/-- The state after the first token of a value. -/
def start (stack : List Frame) : Token → Option Reading
  | .scalar document => some (finish document stack)
  | .string content => some (finish ((content.map Json.string).getD .unreadable) stack)
  | .beginArray => some (firstItem stack)
  | .beginObject => some (firstKey stack)
  | _ => none

/-- The state after a token, with at most `limit` containers around any readable place. -/
def step (limit : Nat) : Reading → Token → Option Reading
  | value stack, token => start stack token
  | firstItem stack, .endArray => some (close limit (.array []) stack)
  | firstItem stack, token => start (.array [] :: stack) token
  | afterItem before stack, .comma => some (value (.array before :: stack))
  | afterItem before stack, .endArray => some (close limit (.array before.reverse) stack)
  | firstKey stack, .endObject => some (close limit (.object []) stack)
  | firstKey stack, .string name => some (colon [] name stack)
  | key before stack, .string name => some (colon before name stack)
  | colon before name stack, .colon => some (value (.object before name :: stack))
  | afterMember before stack, .comma => some (key before stack)
  | afterMember before stack, .endObject => some (close limit (objectOf before) stack)
  | _, _ => none

end Reading

/-- The document that tokens make up. -/
def ofTokens? (limit : Nat) (tokens : List Token) : Option Json :=
  match tokens.foldlM (Reading.step limit) (.value []) with
  | some (.done document) => some document
  | _ => none

/-- The nesting that documents may have. -/
def nestingLimit : Nat := 127

/-- The document that a text is the written form of, with arrays and objects nested up to `limit`.
Its parts may be unreadable. -/
def read? (limit : Nat) (text : List Char) : Option Json := (tokens? text).bind (ofTokens? limit)

/-- The document that a string is the written form of, all of which must be readable. -/
def ofText? (text : String) : Option Json := (read? nestingLimit text.toList).filter isReadable

end RecordCoercion.Json
