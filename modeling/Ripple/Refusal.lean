import Ripple.Value

/-!
# Refusals

Why a table or a store does not carry out an operation. A refused operation leaves everything
as it was.
-/

namespace Ripple

/-- `StoreError`: the reason an operation on a table is not carried out. -/
inductive Refusal where
  /-- A table with the identifier is there already. -/
  | tableExists (table : Ident)
  | noSuchTable (table : Ident)
  | noSuchColumn (table : Ident) (column : ColumnRef)
  /-- The row, counted from zero, is not below the row count. -/
  | noSuchRow (table : Ident) (row rowCount : Nat)
  /-- The column, counted from zero, holds values of another kind. -/
  | kindMismatch (table : Ident) (column : Nat) (expected found : Kind)
  /-- A row does not have one value per column. -/
  | widthMismatch (table : Ident) (expected found : Nat)
  /-- Row zero was named where rows are counted from one. -/
  | rowZero (table : Ident)
  /-- Rows were given to a table without columns. -/
  | noColumns (table : Ident)
  deriving DecidableEq, Repr

/-- The refusal as it is shown to people. -/
def Refusal.message : Refusal → String
  | .tableExists t => s!"table {t.render} already exists"
  | .noSuchTable t => s!"unknown table {t.render}"
  | .noSuchColumn t column => s!"table {t.render}: unknown {column.render}"
  | .noSuchRow t row count => s!"table {t.render}: row {ordinal row} out of range ({count} rows)"
  | .kindMismatch t column expected found =>
    s!"table {t.render}, column {ordinal column}: expected {expected.name}, found {found.name}"
  | .widthMismatch t expected found =>
    s!"table {t.render}: expected {expected} column(s), found {found}"
  | .rowZero t => s!"table {t.render}: rows are 1-based, row 0 does not exist"
  | .noColumns t => s!"table {t.render} has no columns; rows cannot be appended"

end Ripple
