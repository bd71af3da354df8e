import Ripple.Change

/-!
# Storage

How tables are kept and changed in place. The operations of `Ripple.Store` give a new store or
refuse; here the same operations are carried out step by step on what is stored: every column of
a table is a list of cells of one type, rows are pushed cell by cell, and what a step has changed
stays changed when a later one is refused. A step that addresses a cell that is not there, or
brings a value to a column of another kind, has no result.
-/

namespace Ripple

/-! ## Steps in place -/

/-- A step on something that is changed in place. It gives an answer or is refused, and in both
cases leaves what is then in place; it gives nothing where the program could not go on. -/
abbrev InPlace (σ α : Type) := ExceptT Refusal (StateT σ Option) α

namespace InPlace

variable {σ α : Type}

/-- Goes on unless a check refuses. -/
def check (result : Except Refusal α) : InPlace σ α := ExceptT.mk (pure result)

/-- Goes on with something that is there, without a provision for its absence. -/
def reach (found : Option α) : InPlace σ α := ExceptT.lift (StateT.lift found)

end InPlace

/-! ## Columns -/

/-- `ColumnData`: the cells of a column, all of one type. -/
inductive Cells where
  | numbers (cells : List Number)
  | bools (cells : List Bool)
  | texts (cells : List String)
  | refs (cells : List RowRef)
  deriving DecidableEq, Repr

namespace Cells

/-- A column without cells. -/
def ofKind : Kind → Cells
  | .number => .numbers []
  | .bool => .bools []
  | .text => .texts []
  | .ref => .refs []

/-- The kind of the values that the column can hold. -/
def kind : Cells → Kind
  | .numbers _ => .number
  | .bools _ => .bool
  | .texts _ => .text
  | .refs _ => .ref

def length : Cells → Nat
  | .numbers cells => cells.length
  | .bools cells => cells.length
  | .texts cells => cells.length
  | .refs cells => cells.length

/-- The cells as values. -/
def values : Cells → List Value
  | .numbers cells => cells.map .number
  | .bools cells => cells.map .bool
  | .texts cells => cells.map .text
  | .refs cells => cells.map .ref

def get? (cells : Cells) (row : Nat) : Option Value :=
  match cells with
  | .numbers cells => cells[row]?.map .number
  | .bools cells => cells[row]?.map .bool
  | .texts cells => cells[row]?.map .text
  | .refs cells => cells[row]?.map .ref

/-- Replaces a cell that is there. -/
def replace? {α : Type} (cells : List α) (row : Nat) (x : α) : Option (List α) :=
  if row < cells.length then some (cells.set row x) else none

/-- Stores a value of the right kind in a cell that is there. -/
def set? (cells : Cells) (row : Nat) (value : Value) : Option Cells :=
  match cells, value with
  | .numbers cells, .number n => (replace? cells row n).map .numbers
  | .bools cells, .bool b => (replace? cells row b).map .bools
  | .texts cells, .text s => (replace? cells row s).map .texts
  | .refs cells, .ref r => (replace? cells row r).map .refs
  | _, _ => none

/-- Adds a cell for a value of the right kind. -/
def push? (cells : Cells) (value : Value) : Option Cells :=
  match cells, value with
  | .numbers cells, .number n => some (.numbers (cells ++ [n]))
  | .bools cells, .bool b => some (.bools (cells ++ [b]))
  | .texts cells, .text s => some (.texts (cells ++ [s]))
  | .refs cells, .ref r => some (.refs (cells ++ [r]))
  | _, _ => none

/-- Removes the cells from a row on. -/
def truncate (count : Nat) : Cells → Cells
  | .numbers cells => .numbers (cells.take count)
  | .bools cells => .bools (cells.take count)
  | .texts cells => .texts (cells.take count)
  | .refs cells => .refs (cells.take count)

/-- Makes a list exactly so long. -/
def resize {α : Type} (cells : List α) (count : Nat) (x : α) : List α :=
  cells.take count ++ List.replicate (count - cells.length) x

/-- Makes a column exactly so long, with the default of its kind in new cells. -/
def grow (count : Nat) : Cells → Cells
  | .numbers cells => .numbers (resize cells count .zero)
  | .bools cells => .bools (resize cells count false)
  | .texts cells => .texts (resize cells count "")
  | .refs cells => .refs (resize cells count ⟨.null, 0⟩)

end Cells

/-! ## Tables -/

/-- A table as it is stored. -/
structure Sheet where
  id : Ident
  name : String
  /-- The declarations of the columns. -/
  specs : List ColumnSpec
  /-- The columns, in the order of their declarations. -/
  data : List Cells
  rows : Nat
  deriving DecidableEq, Repr

namespace Sheet

/-- A table without rows. -/
def blank (id : Ident) (name : String) (specs : List ColumnSpec) : Sheet :=
  ⟨id, name, specs, specs.map fun spec => .ofKind spec.kind, 0⟩

/-- The table that is stored. -/
def table (sheet : Sheet) : Table where
  id := sheet.id
  name := sheet.name
  columns := sheet.specs.zipWith (fun spec cells => ⟨spec, cells.values⟩) sheet.data
  rowCount := sheet.rows

/-! ### Checks -/

def checkKind (sheet : Sheet) (column : Nat) (value : Value) : Except Refusal Unit :=
  match sheet.specs[column]? with
  | none => .error (.noSuchColumn sheet.id (.position (ordinal column)))
  | some spec =>
    if spec.kind = value.kind then .ok ()
    else .error (.kindMismatch sheet.id column spec.kind value.kind)

def checkWrite (sheet : Sheet) (row column : Nat) (value : Value) : Except Refusal Unit := do
  sheet.checkKind column value
  if sheet.rows ≤ row then .error (.noSuchRow sheet.id row sheet.rows)

def checkKinds (sheet : Sheet) (column : Nat) : Row → Except Refusal Unit
  | [] => .ok ()
  | value :: values => do
    sheet.checkKind column value
    sheet.checkKinds (column + 1) values

def checkRow (sheet : Sheet) (row : Row) : Except Refusal Unit :=
  if row.length = sheet.specs.length then sheet.checkKinds 0 row
  else .error (.widthMismatch sheet.id sheet.specs.length row.length)

def checkRows (sheet : Sheet) (rows : List Row) : Except Refusal Unit :=
  if sheet.specs.isEmpty ∧ ¬ rows.isEmpty then .error (.noColumns sheet.id)
  else rows.forM sheet.checkRow

/-! ### Changes -/

/-- `Table::set`: the checks, then the cell in place. Gives the value that was replaced, `none` if it
was the same. -/
def write (row column : Nat) (value : Value) : InPlace Sheet (Option Value) := do
  InPlace.check ((← get).checkWrite row column value)
  let cells ← InPlace.reach (← get).data[column]?
  let old := cells.get? row
  if old = some value then return none
  let cells ← InPlace.reach (cells.set? row value)
  modify fun sheet => { sheet with data := sheet.data.set column cells }
  return old

/-- Pushes the values of a row, each to its column, from a column on. -/
def pushRow (column : Nat) : Row → InPlace Sheet Unit
  | [] => return
  | value :: values => do
    let cells ← InPlace.reach (← get).data[column]?
    let cells ← InPlace.reach (cells.push? value)
    modify fun sheet => { sheet with data := sheet.data.set column cells }
    pushRow (column + 1) values

/-- Pushes rows one after the other. -/
def pushRows : List Row → InPlace Sheet Unit
  | [] => return
  | row :: rows => do
    pushRow 0 row
    modify fun sheet => { sheet with rows := sheet.rows + 1 }
    pushRows rows

/-- `Table::append`: the checks, then row by row and cell by cell. Gives the indices of the first new
row and of the row after the last. -/
def append (rows : List Row) : InPlace Sheet (Nat × Nat) := do
  InPlace.check ((← get).checkRows rows)
  let first := (← get).rows
  pushRows rows
  return (first, (← get).rows)

/-- `Table::grow_to` makes every column at least `count` rows long. -/
def growTo (count : Nat) : InPlace Sheet Unit :=
  modify fun sheet =>
    if count ≤ sheet.rows then sheet
    else { sheet with data := sheet.data.map (Cells.grow count), rows := count }

/-- `Table::truncate` makes every column at most `count` rows long. -/
def truncate (count : Nat) : InPlace Sheet Unit :=
  modify fun sheet =>
    if sheet.rows ≤ count then sheet
    else { sheet with data := sheet.data.map (Cells.truncate count), rows := count }

/-- `TableStore::write_cell_extending`: writes a cell, growing the table to cover its row first, with
rows counted without a bound as in `Table.writeExtending`. -/
def writeExtending (row column : Nat) (value : Value) : InPlace Sheet (Option Value) := do
  InPlace.check ((← get).checkKind column value)
  growTo (row + 1)
  write row column value

end Sheet

/-! ## Stores -/

/-- The stored tables by identifier. -/
abbrev Shelf := Ident → Option Sheet

namespace Shelf

variable {α : Type}

def empty : Shelf := fun _ => none

/-- The shelf with something else, or nothing, at an identifier. -/
def place (shelf : Shelf) (id : Ident) (sheet : Option Sheet) : Shelf :=
  fun key => if key = id then sheet else shelf key

/-- Works in place on the table with an identifier, which must be there. -/
def within (id : Ident) (step : InPlace Sheet α) : InPlace Shelf α := do
  match (← get) id with
  | none => throw (.noSuchTable id)
  | some sheet =>
    let (answer, sheet) ← InPlace.reach (step.run sheet)
    modify (place · id (some sheet))
    InPlace.check answer

/-- Adds a table with its first rows. -/
def create (id : Ident) (name : String) (specs : List ColumnSpec) (rows : List Row) :
    InPlace Shelf Unit := do
  if ((← get) id).isSome then throw (.tableExists id)
  let (answer, sheet) ← InPlace.reach ((Sheet.append rows).run (.blank id name specs))
  let _ ← InPlace.check answer
  modify (place · id (some sheet))

/-- Removes a table. Gives it if it was there. -/
def drop (id : Ident) : InPlace Shelf (Option Sheet) := do
  let sheet := (← get) id
  modify (place · id none)
  return sheet

def clear : InPlace Shelf Unit := set empty

/-- `AppliedChange::revert` in place. -/
def revert : Effect → InPlace Shelf Unit
  | .cell id row column (some old) _ => do
    let _ ← within id (Sheet.write row column old)
  | .cell id row _ none _ => within id (Sheet.truncate row)
  | .created id _ _ => do
    if (← drop id).isNone then throw (.noSuchTable id)

/-- `AppliedChange::replay` in place. -/
def replay : Effect → InPlace Shelf Unit
  | .cell id row column _ new => do
    let _ ← within id (Sheet.writeExtending row column new)
  | .created id name specs => create id name specs []

/-! ## Operations -/

/-- An operation on the whole store. -/
inductive Operation where
  | create (id : Ident) (name : String) (specs : List ColumnSpec) (rows : List Row)
  | drop (id : Ident)
  | writeCell (id : Ident) (row column : Nat) (value : Value)
  | writeCellExtending (id : Ident) (row column : Nat) (value : Value)
  | appendRows (id : Ident) (rows : List Row)
  | truncateRows (id : Ident) (count : Nat)
  | clear
  | revert (effect : Effect)
  | replay (effect : Effect)

/-- What an operation that is not refused gives back. -/
inductive Answer where
  | done
  | removed (table : Option Table)
  | replaced (old : Option Value)
  | added (first last : Nat)
  deriving DecidableEq, Repr

/-- Carries out an operation in place. -/
def Operation.run : Operation → InPlace Shelf Answer
  | .create id name specs rows => do
    Shelf.create id name specs rows
    return .done
  | .drop id => return .removed ((← Shelf.drop id).map Sheet.table)
  | .writeCell id row column value => return .replaced (← within id (Sheet.write row column value))
  | .writeCellExtending id row column value =>
    return .replaced (← within id (Sheet.writeExtending row column value))
  | .appendRows id rows => do
    let (first, last) ← within id (Sheet.append rows)
    return .added first last
  | .truncateRows id count => do
    within id (Sheet.truncate count)
    return .done
  | .clear => do
    Shelf.clear
    return .done
  | .revert effect => do
    Shelf.revert effect
    return .done
  | .replay effect => do
    Shelf.replay effect
    return .done

/-- What the operation makes of a store. -/
def Operation.perform (s : Store) : Operation → Except Refusal (Store × Answer)
  | .create id name specs rows => return (← s.create id name specs rows, .done)
  | .drop id => return (s.erase id, .removed (s.find? id))
  | .writeCell id row column value => do
    let (s, old) ← s.writeCell id row column value
    return (s, .replaced old)
  | .writeCellExtending id row column value => do
    let (s, old) ← s.writeCellExtending id row column value
    return (s, .replaced old)
  | .appendRows id rows => do
    let (s, first, last) ← s.appendRows id rows
    return (s, .added first last)
  | .truncateRows id count => return (← s.truncateRows id count, .done)
  | .clear => return (.empty, .done)
  | .revert effect => return (← effect.revert s, .done)
  | .replay effect => return (← effect.replay s, .done)

/-- Carries out operations in place, one after the other, whether or not some are refused. -/
def runAll : List Operation → Shelf → Option (List (Except Refusal Answer) × Shelf)
  | [], shelf => some ([], shelf)
  | operation :: operations, shelf => do
    let (answer, shelf) ← operation.run.run shelf
    let (answers, shelf) ← runAll operations shelf
    return (answer :: answers, shelf)

/-- The answer to an operation and the store after it, the same as before if it was refused. -/
def Operation.serve (s : Store) (operation : Operation) : Except Refusal Answer × Store :=
  match operation.perform s with
  | .ok (after, answer) => (.ok answer, after)
  | .error reason => (.error reason, s)

/-- Performs operations one after the other, whether or not some are refused. -/
def performAll : List Operation → Store → List (Except Refusal Answer) × Store
  | [], s => ([], s)
  | operation :: operations, s =>
    let (answer, s) := operation.serve s
    let (answers, s) := performAll operations s
    (answer :: answers, s)

end Shelf

end Ripple
