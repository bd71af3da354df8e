import Ripple.Json.Token

/-!
# Reading JSON

The tokens of a text are taken one after the other. What is open at each point is kept on a
stack, so that values can be nested to any depth.
-/

namespace Ripple.Json

/-- The fields of an object, the latest first. -/
abbrev Fields := List (JsonString × Json)

/-- A value that is not closed yet; its parts are kept latest first. -/
inductive Open where
  | array (items : List Json)
  /-- An object of which the field with a key is being read. -/
  | object (fields : Fields) (key : JsonString)
  deriving Repr

/-- What may come next. -/
inductive State where
  /-- A value. -/
  | expectValue (stack : List Open)
  /-- The first item of an array, or its end. -/
  | expectItem (stack : List Open)
  /-- A comma or the end of an array. -/
  | afterItem (stack : List Open) (items : List Json)
  /-- The first key of an object, or its end. -/
  | expectField (stack : List Open)
  /-- A key. -/
  | expectKey (stack : List Open) (fields : Fields)
  /-- The colon after a key. -/
  | afterKey (stack : List Open) (fields : Fields) (key : JsonString)
  /-- A comma or the end of an object. -/
  | afterField (stack : List Open) (fields : Fields)
  /-- Nothing: the value is complete. -/
  | complete (value : Json)
  deriving Repr

/-- Puts a complete value into what is open around it. -/
def State.deliver (value : Json) : List Open → State
  | [] => .complete value
  | .array items :: stack => .afterItem stack (value :: items)
  | .object fields key :: stack => .afterField stack ((key, value) :: fields)

/-- Begins or completes a value. -/
def State.begin (stack : List Open) : Token → Option State
  | .scalar value => some (.deliver value stack)
  | .string s => some (.deliver (.string s) stack)
  | .openArray => some (.expectItem stack)
  | .openObject => some (.expectField stack)
  | _ => none

/-- Takes a token. -/
def State.step : State → Token → Option State
  | expectValue stack, token => begin stack token
  | expectItem stack, .closeArray => some (deliver (.array []) stack)
  | expectItem stack, token => begin (.array [] :: stack) token
  | afterItem stack items, .comma => some (expectValue (.array items :: stack))
  | afterItem stack items, .closeArray => some (deliver (.array items.reverse) stack)
  | expectField stack, .closeObject => some (deliver (.object []) stack)
  | expectField stack, .string s => some (afterKey stack [] s)
  | expectKey stack fields, .string s => some (afterKey stack fields s)
  | afterKey stack fields s, .colon => some (expectValue (.object fields s :: stack))
  | afterField stack fields, .comma => some (expectKey stack fields)
  | afterField stack fields, .closeObject => some (deliver (.object fields.reverse) stack)
  | _, _ => none

/-- The value of a text, if the text is JSON. -/
def read? (text : String) : Option Json := do
  let tokens ← tokens? text.toList
  match ← tokens.foldlM State.step (.expectValue []) with
  | .complete v => some v
  | _ => none

end Ripple.Json
