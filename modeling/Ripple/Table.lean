import Ripple.Refusal

/-!
# Tables

A table keeps its cells by columns. All columns are as long as the row count and hold values of
one kind each: every operation checks its whole input before it changes a cell.
-/

namespace Ripple

/-- The declaration of a column. -/
structure ColumnSpec where
  name : String
  id : Ident
  kind : Kind
  deriving DecidableEq, Repr

namespace ColumnSpec

/-- A column whose identifier is that of its name. -/
def named (name : String) (kind : Kind) : ColumnSpec := ⟨name, .of name, kind⟩

/-- A column that is named by its position, counted from one. -/
def positional (position : Nat) (kind : Kind) : ColumnSpec := named (toString position) kind

end ColumnSpec

/-- A column with its cells, top row first. -/
structure Column where
  spec : ColumnSpec
  cells : List Value
  deriving DecidableEq, Repr

/-- `ColumnData::grow`: makes a column as long as `count`, filling up with the default of its
kind. -/
def Column.growTo (count : Nat) (c : Column) : Column :=
  { c with cells := c.cells ++ List.replicate (count - c.cells.length) c.spec.kind.default }

/-- A named relation. -/
structure Table where
  id : Ident
  name : String
  columns : List Column
  rowCount : Nat
  deriving DecidableEq, Repr

namespace Table

/-- `Table::new`: a table without rows. -/
def empty (id : Ident) (name : String) (specs : List ColumnSpec) : Table where
  id := id
  name := name
  columns := specs.map fun spec => ⟨spec, []⟩
  rowCount := 0

/-- The declarations of the columns. -/
def specs (t : Table) : List ColumnSpec := t.columns.map Column.spec

/-! ## Reading -/

/-- `Table::column_index`: the first column with an identifier, counted from zero. -/
def columnIndex? (t : Table) (id : Ident) : Option Nat :=
  t.columns.findIdx? fun c => c.spec.id = id

/-- The column at a position counted from one. -/
def positionIndex? (t : Table) (position : Nat) : Option Nat :=
  if 1 ≤ position ∧ position ≤ t.columns.length then some (position - 1) else none

/-- `Table::resolve_column`: the column a caller names, counted from zero. -/
def resolve? (t : Table) : ColumnRef → Option Nat
  | .id key => t.columnIndex? key
  | .position p => t.positionIndex? p
  | .raw n => (t.columnIndex? ⟨n⟩).or (t.positionIndex? n.toNat)

/-- `Table::get`: the cell in a row and column, counted from zero. -/
def cell? (t : Table) (row column : Nat) : Option Value := do
  let c ← t.columns[column]?
  c.cells[row]?

/-- All cells of a column; none if there is no such column. -/
def columnValues (t : Table) (column : Nat) : List Value :=
  match t.columns[column]? with
  | some c => c.cells
  | none => []

/-- All cells of a row; none if there is no such row. -/
def rowValues (t : Table) (row : Nat) : Row := t.columns.filterMap (·.cells[row]?)

/-- All rows, top first. -/
def rows (t : Table) : List Row := (List.range t.rowCount).map t.rowValues

/-! ## Checks -/

/-- Whether the column exists and holds values of the kind of `value`. -/
def checkKind (t : Table) (column : Nat) (value : Value) : Except Refusal Unit :=
  match t.columns[column]? with
  | none => .error (.noSuchColumn t.id (.position (ordinal column)))
  | some c =>
    if c.spec.kind = value.kind then .ok ()
    else .error (.kindMismatch t.id column c.spec.kind value.kind)

/-- `Table::check_write`: whether a value can be written to an existing cell. The column and the
kind are checked first (`Table::check_kind`). -/
def checkWrite (t : Table) (row column : Nat) (value : Value) : Except Refusal Unit := do
  t.checkKind column value
  if t.rowCount ≤ row then .error (.noSuchRow t.id row t.rowCount)

/-- Checks the values of a row from a column on. -/
def checkKinds (t : Table) (column : Nat) : Row → Except Refusal Unit
  | [] => .ok ()
  | value :: values => do
    t.checkKind column value
    t.checkKinds (column + 1) values

/-- Whether a row has one value of the right kind for each column. -/
def checkRow (t : Table) (row : Row) : Except Refusal Unit :=
  if row.length = t.columns.length then t.checkKinds 0 row
  else .error (.widthMismatch t.id t.columns.length row.length)

/-- `Table::check_rows`: whether rows can be appended. -/
def checkRows (t : Table) (rows : List Row) : Except Refusal Unit :=
  if t.columns.isEmpty ∧ ¬ rows.isEmpty then .error (.noColumns t.id)
  else rows.forM t.checkRow

/-! ## Changes -/

/-- Puts a value into a cell; nothing happens if there is no such cell. -/
def put (t : Table) (row column : Nat) (value : Value) : Table :=
  { t with columns := t.columns.modify column fun c => { c with cells := c.cells.set row value } }

/-- `Table::set` writes an existing cell. Gives the new table and the value that was replaced, which
is `none` if the cell held the same value before. -/
def write (t : Table) (row column : Nat) (value : Value) : Except Refusal (Table × Option Value) := do
  t.checkWrite row column value
  match t.cell? row column with
  | some old => if old = value then .ok (t, none) else .ok (t.put row column value, some old)
  | none => .ok (t, none)

/-- Adds rows at the bottom without a check. -/
def extend (t : Table) (rows : List Row) : Table where
  id := t.id
  name := t.name
  columns := t.columns.mapIdx fun i c => { c with cells := c.cells ++ rows.filterMap (·[i]?) }
  rowCount := t.rowCount + rows.length

/-- `Table::append` adds rows at the bottom: all of them or, if one of them does not fit, none. -/
def append (t : Table) (rows : List Row) : Except Refusal Table := do
  t.checkRows rows
  return t.extend rows

/-- `Table::grow_to` makes a table at least `count` rows long. New cells hold the default of their
kind. -/
def growTo (t : Table) (count : Nat) : Table :=
  if count ≤ t.rowCount then t
  else { t with columns := t.columns.map (Column.growTo count), rowCount := count }

/-- `Table::truncate` makes a table at most `count` rows long. -/
def truncate (t : Table) (count : Nat) : Table :=
  if t.rowCount ≤ count then t
  else
    { t with
      columns := t.columns.map fun c => { c with cells := c.cells.take count }
      rowCount := count }

/-- Writes a cell, growing the table to cover its row first. The value is checked before the
table grows. Rows are counted without a bound. `TableStore::write_cell_extending` counts them in a
machine word: behind the greatest row the count is zero, so that nothing grows, and the row is
refused as out of range. -/
def writeExtending (t : Table) (row column : Nat) (value : Value) :
    Except Refusal (Table × Option Value) := do
  t.checkKind column value
  (t.growTo (row + 1)).write row column value

end Table

end Ripple
