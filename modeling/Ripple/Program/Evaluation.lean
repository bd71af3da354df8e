import Ripple.Change
import Ripple.Number.Decimal
import Ripple.Program.Operator

/-!
# Evaluation of statements

The statements of a block run one after the other. They do not write to the store: a table that
a statement writes is copied first, and from then on the block reads and writes its copy. Beside
the copies the changes are listed that lead to them from the store.
-/

namespace Ripple.Program

/-- `Env`: the state between two statements of a block. -/
structure Workspace where
  /-- The store as the block found it. -/
  base : Store
  /-- The working copies of the tables that were written or created. -/
  frames : Store
  /-- The named values, the latest first. -/
  names : List (String × List Value)
  /-- The changes made so far, in order. -/
  changes : List Change
  deriving DecidableEq, Repr

namespace Workspace

/-- The state before the first statement. -/
def start (s : Store) : Workspace := ⟨s, .empty, [], []⟩

/-- The working copy of a table or, if there is none, the table of the store. -/
def find? (w : Workspace) (id : Ident) : Option Table := (w.frames.find? id).or (w.base.find? id)

/-- The table that a statement means by a name. -/
def table (w : Workspace) (name : String) : Except EvalFault Table :=
  match w.find? (.of name) with
  | some t => .ok t
  | none => .error (.unknownTable name)

end Workspace

/-! ## Columns by name -/

/-- The position that a column name writes, with or without a plus sign. -/
def position? (name : String) : Option Nat :=
  let digits := match name.toList with
    | '+' :: digits => digits
    | digits => digits
  if digits.isEmpty ∨ ¬ digits.all Number.isDigit then none
  else some (Number.digitsValue digits)

/-- `resolve`: the column of a table with a name, counted from zero; without a name the first one. A
name that no column has can be a position, counted from one. -/
def findColumn (t : Table) (table : String) : Option String → Except EvalFault Nat
  | none => if t.columns.isEmpty then .error (.noColumns table) else .ok 0
  | some name =>
    match t.columnIndex? (.of name) with
    | some index => .ok index
    | none =>
      match (position? name).bind t.positionIndex? with
      | some index => .ok index
      | none => .error (.unknownColumn table name)

/-! ## Expressions -/

/-- `Env::read`: the cells of a column. -/
def Workspace.read (w : Workspace) (table : String) (column : Option String) :
    Except EvalFault (List Value) := do
  let t ← w.table table
  let index ← findColumn t table column
  return t.columnValues index

/-- `Env::eval`: the value of an expression. -/
def Expr.eval (w : Workspace) : Expr → Except EvalFault (List Value)
  | number n => .ok [.number n]
  | text s => .ok [.text s]
  | bool b => .ok [.bool b]
  | name n =>
    match w.names.lookup n with
    | some values => .ok values
    | none => .error (.unknownName n)
  | column t c => w.read t c
  | pick t c index => do
    let values ← w.read t c
    let selector ← index.eval w
    let rows ← pickRows selector values.length
    return rows.filterMap (values[·]?)
  | unary op operand => do
    let values ← operand.eval w
    values.mapM op.apply
  | binary op left right => do
    let left ← left.eval w
    let right ← right.eval w
    broadcast op.apply left right

/-- The value of a cell of a literal, which has to be a single one. -/
def Expr.evalCell (w : Workspace) (e : Expr) : Except EvalFault Value := do
  match ← e.eval w with
  | [value] => return value
  | values => .error (.cellCount values.length)

/-- `Env::eval_rows`: the rows of a literal. -/
def Literal.eval (w : Workspace) (l : Literal) : Except EvalFault (List Row) :=
  l.rows.mapM fun row => row.mapM (Expr.evalCell w)

/-! ## Drafts -/

/-- A working copy that a statement writes, with the changes so far. -/
structure Draft where
  table : Table
  changes : List Change
  deriving DecidableEq, Repr

namespace Draft

/-- The table before any change. -/
def ofTable (t : Table) : Draft := ⟨t, []⟩

/-- `Frame::set_cell` writes a cell; writing what is there already is no change. -/
def setCell (d : Draft) (row column : Nat) (value : Value) : Draft :=
  match d.table.columns[column]? with
  | none => d
  | some c =>
    if c.cells[row]? = some value then d
    else
      ⟨d.table.put row column value, d.changes ++ [.set d.table.id row (.id c.spec.id) value]⟩

/-- Writes the cells of a row from a column on. -/
def setRow (d : Draft) (row column : Nat) : Row → Draft
  | [] => d
  | value :: values => (d.setCell row column value).setRow row (column + 1) values

/-- Writes rows from one row on. -/
def setRows (d : Draft) (first : Nat) : List Row → Draft
  | [] => d
  | row :: rows => (d.setRow first 0 row).setRows (first + 1) rows

/-- `Frame::append` adds rows at the bottom; no rows are no change. -/
def append (d : Draft) (rows : List Row) : Draft :=
  if rows.isEmpty then d else ⟨d.table.extend rows, d.changes ++ [.append d.table.id rows]⟩

end Draft

/-- The state with a draft as the working copy of its table. -/
def Workspace.adopt (w : Workspace) (d : Draft) : Workspace :=
  { w with frames := w.frames.put d.table, changes := w.changes ++ d.changes }

/-! ## Rows -/

/-- Whether a row has a value of the right kind for each of some columns. -/
def checkKinds (table : String) : List ColumnSpec → Row → Except EvalFault Unit
  | spec :: specs, value :: values =>
    if spec.kind = value.kind then checkKinds table specs values
    else .error (.cellKind table spec.name spec.kind value.kind)
  | _, _ => .ok ()

/-- `Frame::check_row`: whether a row fits the columns of a table. -/
def checkRow (table : String) (specs : List ColumnSpec) (row : Row) : Except EvalFault Unit :=
  if row.length = specs.length then checkKinds table specs row
  else .error (.rowWidth table specs.length row.length)

/-- Where each column of a table is in a list of names. -/
def columnPlaces (table : String) (names : List String) :
    List ColumnSpec → Except EvalFault (List Nat)
  | [] => .ok []
  | spec :: specs =>
    match names.findIdx? fun name => Ident.of name = spec.id with
    | none => .error (.missingColumn table spec.name)
    | some place => do
      let places ← columnPlaces table names specs
      return place :: places

/-- `Frame::reorder` brings rows of named cells into the order of the columns. Rows without names are
in that order already. -/
def arrange (table : String) (specs : List ColumnSpec) (names : List String) (rows : List Row) :
    Except EvalFault (List Row) :=
  if names.isEmpty then .ok rows
  else if names.length ≠ specs.length then
    .error (.nameCount table specs.length names.length)
  else do
    let places ← columnPlaces table names specs
    return rows.map fun row => places.filterMap (row[·]?)

/-- The columns of a new table: of the kinds of the first row, or of numbers if there is none,
with the given names or named by position. -/
def newSpecs (names : List String) (rows : List Row) : List ColumnSpec :=
  let kinds := match rows with
    | row :: _ => row.map Value.kind
    | [] => names.map fun _ => Kind.number
  if names.isEmpty then kinds.zipIdx.map fun (kind, i) => .positional (i + 1) kind
  else (names.zip kinds).map fun (name, kind) => .named name kind

/-! ## Statements -/

/-- The value that a cell is set to, from the one it holds and the one that is given. -/
def SetOp.result (op : SetOp) (old given : Value) : Except EvalFault Value :=
  match op.operation? with
  | none => .ok given
  | some op => op.apply old given

/-- Sets cells of a column, each to the value given with its row. -/
def setCells (op : SetOp) (table name : String) (column : Nat) (kind : Kind) (d : Draft) :
    List (Nat × Value) → Except EvalFault Draft
  | [] => .ok d
  | (row, given) :: rest => do
    let value ← op.result ((d.table.cell? row column).getD kind.default) given
    if value.kind = kind then
      setCells op table name column kind (d.setCell row column value) rest
    else .error (.cellKind table name kind value.kind)

/-- The rows that a selector picks; without one, all of them. -/
def selectRows (selector : Option (List Value)) (rowCount : Nat) : Except EvalFault (List Nat) :=
  match selector with
  | some selector => pickRows selector rowCount
  | none => .ok (List.range rowCount)

/-- Rows with the values they are given. One value goes to all the rows, and otherwise there is
one for each. -/
def assignRows (values : List Value) (rows : List Nat) : Except EvalFault (List (Nat × Value)) :=
  match values with
  | [value] => .ok (rows.map (·, value))
  | values =>
    if values.length = rows.length then .ok (rows.zip values)
    else .error (.assignedCount values.length rows.length)

/-- `Env::set_column` sets the cells of a column, or those that an index picks. -/
def Workspace.setColumn (w : Workspace) (table name : String) (index : Option Expr) (op : SetOp)
    (value : Expr) : Except EvalFault Draft := do
  let values ← value.eval w
  let selector ← index.mapM (Expr.eval w)
  let t ← w.table table
  let column ← findColumn t table (some name)
  let rows ← selectRows selector t.rowCount
  let given ← assignRows values rows
  let kind := ((t.specs[column]?).map ColumnSpec.kind).getD .number
  setCells op table name column kind (.ofTable t) given

/-- Adds rows to a table. -/
def Workspace.appendRows (w : Workspace) (table : String) (literal : Literal) :
    Except EvalFault Draft := do
  let rows ← literal.eval w
  let t ← w.table table
  let rows ← arrange table t.specs literal.columns rows
  rows.forM (checkRow table t.specs)
  return (Draft.ofTable t).append rows

/-- Makes a table that is not there yet. -/
def createTable (table : String) (names : List String) (rows : List Row) :
    Except EvalFault Draft := do
  let specs := newSpecs names rows
  rows.forM (checkRow table specs)
  let id := Ident.of table
  let d : Draft := ⟨.empty id table specs, [.define id table specs]⟩
  return d.append rows

/-- Gives a table new contents. Its rows are overwritten one by one and further rows are added;
it cannot become shorter. -/
def overwriteTable (t : Table) (table : String) (names : List String) (rows : List Row) :
    Except EvalFault Draft := do
  let rows ← arrange table t.specs names rows
  rows.forM (checkRow table t.specs)
  if rows.length < t.rowCount then .error (.shrinks table t.rowCount rows.length)
  else
    let d := (Draft.ofTable t).setRows 0 (rows.take t.rowCount)
    return d.append (rows.drop t.rowCount)

/-- `Env::define` defines a table by rows, whether it is there or not. -/
def Workspace.defineTable (w : Workspace) (table : String) (names : List String)
    (rows : List Row) : Except EvalFault Draft :=
  match w.find? (.of table) with
  | none => createTable table names rows
  | some t => overwriteTable t table names rows

/-- The column names and rows that a table is defined by. A formula gives one column. -/
def Source.eval (w : Workspace) : Source → Except EvalFault (List String × List Row)
  | .literal l => do
    let rows ← l.eval w
    return (l.columns, rows)
  | .formula e => do
    let values ← e.eval w
    return ([], values.map ([·]))

/-- What a statement does. -/
inductive Action where
  | nothing
  /-- A table is written. -/
  | write (draft : Draft)
  /-- Values get a name. -/
  | name (name : String) (values : List Value)
  deriving DecidableEq, Repr

/-- What a statement does in a state. -/
def Statement.action (w : Workspace) : Statement → Except EvalFault Action
  | watch _ _ => .ok .nothing
  | define table source => do
    let (names, rows) ← source.eval w
    return .write (← w.defineTable table names rows)
  | set table column index op value => do
    return .write (← w.setColumn table column index op value)
  | append table rows => do
    return .write (← w.appendRows table rows)
  | assign name value => do
    return .name name (← value.eval w)

/-- The state after an action. -/
def Workspace.perform (w : Workspace) : Action → Workspace
  | .nothing => w
  | .write d => w.adopt d
  | .name name values => { w with names := (name, values) :: w.names }

/-- `Env::run` carries out a statement. -/
def Statement.run (w : Workspace) (s : Statement) : Except EvalFault Workspace := do
  return w.perform (← s.action w)

/-- A fault with the line of the statement it stopped. -/
structure LineFault where
  line : Nat
  fault : EvalFault
  deriving DecidableEq, Repr

/-- The fault as it is shown to people. -/
def LineFault.message (f : LineFault) : String := s!"line {f.line}: {f.fault.message}"

/-- Carries out statements one after the other. -/
def runLines (w : Workspace) : List Line → Except LineFault Workspace
  | [] => .ok w
  | line :: rest =>
    match line.statement.run w with
    | .error fault => .error ⟨line.number, fault⟩
    | .ok w => runLines w rest

/-- `ProgramBlock::evaluate`: the changes that the statements of a block make to a store. -/
def evaluate (lines : List Line) (s : Store) : Except LineFault (List Change) := do
  let w ← runLines (.start s) lines
  return w.changes

end Ripple.Program
