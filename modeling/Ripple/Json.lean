import Ripple.Number.Layout
import Ripple.Text.Hex

/-!
# JSON values

Values of the data format and how they are written, on one line or indented. Numbers keep the
literal they were written with, so that no reader has to settle how exact they are, and objects
keep their fields in order, repeated ones too.
-/

namespace Ripple

/-- The content of a JSON string. Escapes can write halves of surrogate pairs; a string with a
half on its own stands for no text. -/
inductive JsonString where
  | text (s : String)
  /-- The source between the quotes. -/
  | unpaired (source : String)
  deriving DecidableEq, Repr

/-- A JSON value. -/
inductive Json where
  | null
  | bool (b : Bool)
  | number (literal : String)
  | string (s : JsonString)
  | array (items : List Json)
  | object (fields : List (JsonString × Json))
  deriving Repr

namespace Json

/-! ## Making values -/

def text (s : String) : Json := string (.text s)

def nat (n : Nat) : Json := number (toString n)

/-- A number as a literal; what is infinite or not a number is written as null. -/
def float (n : Number) : Json :=
  if n.isFinite then number (Number.Layout.json.render n) else null

/-- An object with the given fields in order. -/
def record (fields : List (String × Json)) : Json :=
  object (fields.map fun (key, value) => (.text key, value))

/-- A value or null. -/
def optional {α : Type} (encode : α → Json) : Option α → Json
  | some x => encode x
  | none => null

/-- An array of encoded values. -/
def list {α : Type} (encode : α → Json) (items : List α) : Json := array (items.map encode)

/-! ## Strings -/

/-- How one character is written in a string. -/
def escapeChar (c : Char) : List Char :=
  if c = '"' then ['\\', '"']
  else if c = '\\' then ['\\', '\\']
  else if c = '\n' then ['\\', 'n']
  else if c = '\r' then ['\\', 'r']
  else if c = '\t' then ['\\', 't']
  else if c = '\x08' then ['\\', 'b']
  else if c = '\x0c' then ['\\', 'f']
  else if c.toNat < 32 then '\\' :: 'u' :: (Text.Hex.padded 4 c.toNat).toList
  else [c]

/-- A string with its quotes. -/
def renderString : JsonString → String
  | .text s => String.ofList ('"' :: s.toList.flatMap escapeChar ++ ['"'])
  | .unpaired source => "\"" ++ source ++ "\""

/-! ## Writing -/

/-- The parts of a list with a text between two of them. -/
def separated (between : String) (parts : List String) : String := between.intercalate parts

mutual

/-- A value on one line, without blanks. -/
def compact : Json → String
  | null => "null"
  | bool b => if b then "true" else "false"
  | number literal => literal
  | string s => renderString s
  | array items => "[" ++ separated "," (compactItems items) ++ "]"
  | object fields => "\x7b" ++ separated "," (compactFields fields) ++ "\x7d"

/-- Each item of an array on one line. -/
def compactItems : List Json → List String
  | [] => []
  | item :: rest => item.compact :: compactItems rest

/-- Each field of an object on one line. -/
def compactFields : List (JsonString × Json) → List String
  | [] => []
  | (key, value) :: rest => (renderString key ++ ":" ++ value.compact) :: compactFields rest

end

/-- A line feed and two blanks for each level. -/
def indentation (level : Nat) : String :=
  String.ofList ('\n' :: List.replicate (2 * level) ' ')

/-- Parts on lines of their own inside brackets; without parts the brackets stand together. -/
def block (level : Nat) (opening closing : String) (parts : List String) : String :=
  if parts.isEmpty then opening ++ closing
  else
    let inner := indentation (level + 1)
    opening ++ inner ++ separated ("," ++ inner) parts ++ indentation level ++ closing

mutual

/-- A value over several lines, inside so many levels of brackets. -/
def pretty (level : Nat) : Json → String
  | array items => block level "[" "]" (prettyItems (level + 1) items)
  | object fields => block level "\x7b" "\x7d" (prettyFields (level + 1) fields)
  | null => "null"
  | bool b => if b then "true" else "false"
  | number literal => literal
  | string s => renderString s

/-- Each item of an array over several lines. -/
def prettyItems (level : Nat) : List Json → List String
  | [] => []
  | item :: rest => item.pretty level :: prettyItems level rest

/-- Each field of an object over several lines. -/
def prettyFields (level : Nat) : List (JsonString × Json) → List String
  | [] => []
  | (key, value) :: rest =>
    (renderString key ++ ": " ++ value.pretty level) :: prettyFields level rest

end

end Json

end Ripple
