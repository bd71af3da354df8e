import Ripple.Ident
import Ripple.Number.Layout
import Ripple.Text.Quoted

/-!
# Values

What a cell can hold, the kinds of columns, and the ways to name a column.
-/

namespace Ripple

/-- `ValueKind`, the kind of a column: every cell of the column holds a value of this kind. -/
inductive Kind where
  | number
  | bool
  | text
  | ref
  deriving DecidableEq, Inhabited, Repr

/-- The kind as it is named in messages. -/
def Kind.name : Kind → String
  | .number => "number"
  | .bool => "boolean"
  | .text => "string"
  | .ref => "reference"

/-- The kind as it is named in data. -/
def Kind.tag : Kind → String
  | .number => "number"
  | .bool => "bool"
  | .text => "text"
  | .ref => "ref"

/-- The number that people know a row or column by: counted from one, in 64 bits. -/
def ordinal (index : Nat) : Nat := (index + 1) % UInt64.size

/-- A reference to a row of a table. -/
structure RowRef where
  table : Ident
  /-- The row, counted from zero. -/
  row : Nat
  deriving DecidableEq, Repr

/-- The content of a cell. `Value::same_as` is equality of the data, so that for numbers the bits
decide. -/
inductive Value where
  | number (n : Number)
  | bool (b : Bool)
  | text (s : String)
  | ref (r : RowRef)
  deriving DecidableEq, Repr

/-- The values of one row of a table, in column order. -/
abbrev Row := List Value

/-- `ValueKind::default_value`: what a cell of the kind holds before anything was written to it. -/
def Kind.default : Kind → Value
  | .number => .number .zero
  | .bool => .bool false
  | .text => .text ""
  | .ref => .ref ⟨.null, 0⟩

namespace Value

def kind : Value → Kind
  | .number _ => .number
  | .bool _ => .bool
  | .text _ => .text
  | .ref _ => .ref

def number? : Value → Option Number
  | .number n => some n
  | _ => none

def bool? : Value → Option Bool
  | .bool b => some b
  | _ => none

def text? : Value → Option String
  | .text s => some s
  | _ => none

def ref? : Value → Option RowRef
  | .ref r => some r
  | _ => none

/-- Equality as formulas see it: numbers are compared as doubles, the rest as data. -/
def equals : Value → Value → Bool
  | .number x, .number y => x.equals y
  | a, b => a = b

/-- The nearest integer in the range of 64-bit integers. -/
def clampInt64 (n : Int) : Int := max Int64.minValue.toInt (min n Int64.maxValue.toInt)

/-- A value as it is shown to people: whole numbers without a point, text in quotes, rows
counted from one. -/
def render : Value → String
  | .number n =>
    match n.toInt? with
    | some k => toString (clampInt64 k)
    | none => Number.Layout.plain.render n
  | .bool b => if b then "true" else "false"
  | .text s => Text.quoted s
  | .ref r => s!"@{r.table.render}[{ordinal r.row}]"

end Value

/-- How a caller names a column. -/
inductive ColumnRef where
  /-- By its identifier. -/
  | id (key : Ident)
  /-- By its position, counted from one. -/
  | position (position : Nat)
  /-- By a number that is an identifier or, if no column has that one, a position. -/
  | raw (number : UInt64)
  deriving DecidableEq, Repr

namespace ColumnRef

/-- The column with a name. -/
def named (name : String) : ColumnRef := .id (.of name)

/-- The reference as it is shown in messages. -/
def render : ColumnRef → String
  | .id key => key.render
  | .position p => s!"column {p}"
  | .raw n => s!"column 0x{Text.Hex.short n.toNat}"

end ColumnRef

end Ripple
