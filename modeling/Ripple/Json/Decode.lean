import Ripple.Json.Numeral
import Ripple.Json.Reader

/-!
# Taking JSON values apart

Records are read from objects, whose fields may stand in any order, or from arrays, whose items
are the fields in a fixed order. Alternatives are read from the name of one, or from an object
whose only field has that name.
-/

namespace Ripple.Json

/-- The text of a string. -/
def text? : Json → Option String
  | string (.text s) => some s
  | _ => none

def bool? : Json → Option Bool
  | bool b => some b
  | _ => none

/-- A whole number below `2 ^ 64`. -/
def nat? : Json → Option Nat
  | number literal => literalNat? literal
  | _ => none

/-- A double. -/
def number? : Json → Option Number
  | number literal => literalNumber? literal
  | _ => none

/-- A value that may be null. -/
def nullable? {α : Type} (decode : Json → Option α) : Json → Option (Option α)
  | null => some none
  | value => (decode value).map some

/-- An array of values. -/
def list? {α : Type} (decode : Json → Option α) : Json → Option (List α)
  | array items => items.mapM decode
  | _ => none

/-! ## Records -/

/-- The value of the only field with a name; `none` if there are several. -/
def onlyField? (name : String) (fields : Fields) : Option (Option Json) :=
  match fields.filter fun (key, _) => key = .text name with
  | [] => some none
  | [(_, value)] => some (some value)
  | _ => none

/-- Whether a key stands for a text. -/
def isTextKey : JsonString → Bool
  | .text _ => true
  | .unpaired _ => false

/-- The values of the fields of a record, by the order of their names. Fields with other names
are left out. No field may be there twice, and an array may not have more items than names. -/
def record? (names : List String) : Json → Option (List (Option Json))
  | object fields =>
    if fields.all fun (key, _) => isTextKey key then
      names.mapM fun name => onlyField? name fields
    else none
  | array items =>
    if items.length ≤ names.length then
      some (items.map some ++ List.replicate (names.length - items.length) none)
    else none
  | _ => none

/-- A field that has to be there. -/
def required? {α : Type} (decode : Json → Option α) (field : Option Json) : Option α :=
  field.bind decode

/-- A field that stands for nothing when it is not there. -/
def nullableField? {α : Type} (decode : Json → Option α) : Option Json → Option (Option α)
  | none => some none
  | some value => nullable? decode value

/-- A field with a value for when it is not there. -/
def withDefault? {α : Type} (default : α) (decode : Json → Option α) : Option Json → Option α
  | none => some default
  | some value => decode value

/-! ## Alternatives -/

/-- The name of an alternative with what belongs to it, if it is more than a name. -/
def variant? : Json → Option (String × Option Json)
  | string (.text name) => some (name, none)
  | object [(.text name, content)] => some (name, some content)
  | _ => none

/-- The name of an alternative to which nothing belongs. -/
def plainVariant? (j : Json) : Option String := do
  match ← variant? j with
  | (name, none) => some name
  | (name, some null) => some name
  | _ => none

/-! ## Values that are set aside -/

mutual

/-- Whether a value can be set aside to be taken apart later: all strings are texts, no number
is too large, and brackets are nested at most so deep. -/
def canSetAside (depth : Nat) : Json → Bool
  | string s => isTextKey s
  | number literal => (literalNumber? literal).isSome
  | array items => match depth with
    | 0 => false
    | depth + 1 => canSetAsideAll depth items
  | object fields => match depth with
    | 0 => false
    | depth + 1 => canSetAsideFields depth fields
  | null => true
  | bool _ => true

def canSetAsideAll (depth : Nat) : List Json → Bool
  | [] => true
  | item :: rest => canSetAside depth item && canSetAsideAll depth rest

def canSetAsideFields (depth : Nat) : List (JsonString × Json) → Bool
  | [] => true
  | (key, value) :: rest =>
    isTextKey key && canSetAside depth value && canSetAsideFields depth rest

end

end Ripple.Json
