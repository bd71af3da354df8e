import Ripple.Program.Syntax

/-!
# Evaluation faults

Why a statement cannot be carried out.
-/

namespace Ripple.Program

/-- Why a statement cannot be carried out. Tables and columns are named as in the program. -/
inductive EvalFault where
  | unknownTable (table : String)
  /-- The first column of a table without columns was read. -/
  | noColumns (table : String)
  | unknownColumn (table column : String)
  | unknownName (name : String)
  | maskLength (found rowCount : Nat)
  | noSuchRow (row : Number) (rowCount : Nat)
  | indexKind (found : Kind)
  | lengths (left right : Nat)
  | operands (op : BinaryOp) (left right : Kind)
  | divisionByZero
  | operand (op : UnaryOp) (found : Kind)
  /-- A cell of a literal has some other number of values than one. -/
  | cellCount (found : Nat)
  | rowWidth (table : String) (columns found : Nat)
  | cellKind (table column : String) (expected found : Kind)
  | nameCount (table : String) (columns found : Nat)
  | missingColumn (table column : String)
  | assignedCount (values rows : Nat)
  | shrinks (table : String) (before after : Nat)
  deriving DecidableEq, Repr

/-- The fault as it is shown to people. -/
def EvalFault.message : EvalFault → String
  | .unknownTable table => s!"unknown table #{table}"
  | .noColumns table => s!"#{table} has no columns"
  | .unknownColumn table column => s!"unknown column #{table}.{column}"
  | .unknownName name => s!"unknown local '{name}'"
  | .maskLength found rowCount => s!"mask has {found} value(s) for {rowCount} row(s)"
  | .noSuchRow row rowCount =>
    s!"row {Number.Layout.plain.render row} out of range ({rowCount} rows)"
  | .indexKind found => s!"index must be booleans or row numbers, got {found.name}"
  | .lengths left right => s!"length mismatch: {left} vs {right}"
  | .operands op left right => s!"cannot apply {op.symbol} to {left.name} and {right.name}"
  | .divisionByZero => "division by zero"
  | .operand .neg found => s!"cannot negate {found.name}"
  | .operand .not found => s!"cannot apply ! to {found.name}"
  | .cellCount found => s!"table cell must be a single value, got {found}"
  | .rowWidth table columns found => s!"#{table} has {columns} column(s), got a row of {found}"
  | .cellKind table column expected found =>
    s!"#{table}.{column} holds {expected.name} values, got {found.name}"
  | .nameCount table columns found => s!"#{table} has {columns} column(s), got {found}"
  | .missingColumn table column => s!"missing column '{column}' for #{table}"
  | .assignedCount values rows => s!"cannot assign {values} value(s) to {rows} row(s)"
  | .shrinks table before after => s!"cannot shrink #{table} from {before} to {after} row(s)"

end Ripple.Program
