import Ripple.Program.Compilation

/-!
# Frames

Blocks by position. `Ripple.Program.Evaluation` says what statements do to tables, and there a cell that is
not in a table makes no difference. Here the same statements are carried out on frames: every column is a
list of cells of its own, and columns, rows and single values are reached by their positions, without
provision for one that is not there. A block that reaches for such a position neither succeeds nor fails
with a fault; it halts.
-/

namespace Ripple.Program

/-! ## Positions -/

/-- Why a step does not go on. -/
inductive Halt (ε : Type) where
  /-- It fails with a fault. -/
  | fault (fault : ε)
  /-- It reaches for a position that is not there. -/
  | outOfRange
  deriving DecidableEq, Repr

section

variable {ε α : Type}

/-- A result that takes no positions. -/
def inRange (result : Except ε α) : Except (Halt ε) α := result.mapError .fault

/-- The item at a position. -/
def reach (items : List α) (position : Nat) : Except (Halt ε) α :=
  match items[position]? with
  | some item => .ok item
  | none => .error .outOfRange

/-- The items with another one at a position. -/
def exchange (items : List α) (position : Nat) (item : α) : Except (Halt ε) (List α) :=
  if position < items.length then .ok (items.set position item) else .error .outOfRange

end

/-! ## Frames -/

/-- `Frame`, a working copy of a table. -/
structure Frame where
  columns : List ColumnSpec
  /-- The cells of each column. -/
  data : List (List Value)
  rows : Nat
  deriving DecidableEq, Repr

namespace Frame

/-- `Frame::load`: the working copy of a table of the store. -/
def load (t : Table) : Frame where
  columns := t.specs
  data := (List.range t.columns.length).map t.columnValues
  rows := t.rowCount

/-- The working copy of a new table. -/
def empty (columns : List ColumnSpec) : Frame where
  columns := columns
  data := columns.map fun _ => []
  rows := 0

/-- `Frame::reorder` brings rows of named cells into the order of the columns. -/
def reorder (f : Frame) (table : String) (names : List String) (rows : List Row) :
    Except (Halt EvalFault) (List Row) :=
  if names.isEmpty then .ok rows
  else if names.length ≠ f.columns.length then
    .error (.fault (.nameCount table f.columns.length names.length))
  else do
    let order ← inRange (columnPlaces table names f.columns)
    rows.mapM fun row => order.mapM (reach row)

end Frame

/-- A frame that a statement writes, with the changes so far. -/
structure FrameDraft where
  frame : Frame
  changes : List Change
  deriving DecidableEq, Repr

namespace FrameDraft

/-- `Frame::set_cell` writes a cell; writing what is there already is no change. -/
def setCell (d : FrameDraft) (id : Ident) (row column : Nat) (value : Value) :
    Except (Halt EvalFault) FrameDraft := do
  let cells ← reach d.frame.data column
  let old ← reach cells row
  if old = value then return d
  else
    let cells ← exchange cells row value
    let data ← exchange d.frame.data column cells
    let spec ← reach d.frame.columns column
    return ⟨{ d.frame with data }, d.changes ++ [.set id row (.id spec.id) value]⟩

/-- Writes the cells of a row from a column on. -/
def setRow (d : FrameDraft) (id : Ident) (row column : Nat) : Row → Except (Halt EvalFault) FrameDraft
  | [] => .ok d
  | value :: values => do
    let d ← d.setCell id row column value
    d.setRow id row (column + 1) values

/-- Writes rows from one row on. -/
def setRows (d : FrameDraft) (id : Ident) (first : Nat) : List Row → Except (Halt EvalFault) FrameDraft
  | [] => .ok d
  | row :: rows => do
    let d ← d.setRow id first 0 row
    d.setRows id (first + 1) rows

/-- Adds the cells of a row to the columns from one on. -/
def pushRow (data : List (List Value)) (column : Nat) : Row → Except (Halt EvalFault) (List (List Value))
  | [] => .ok data
  | value :: values => do
    let cells ← reach data column
    let data ← exchange data column (cells ++ [value])
    pushRow data (column + 1) values

/-- `Frame::append` adds rows at the bottom; no rows are no change. -/
def append (d : FrameDraft) (id : Ident) (rows : List Row) : Except (Halt EvalFault) FrameDraft :=
  if rows.isEmpty then .ok d
  else do
    let data ← rows.foldlM (pushRow · 0) d.frame.data
    return ⟨{ d.frame with data, rows := d.frame.rows + rows.length }, d.changes ++ [.append id rows]⟩

/-- The value that a cell is set to, from the one it holds and the one that is given. -/
def result (d : FrameDraft) (op : SetOp) (row column : Nat) (given : Value) :
    Except (Halt EvalFault) Value :=
  match op.operation? with
  | none => .ok given
  | some op => do
    let cells ← reach d.frame.data column
    let old ← reach cells row
    inRange (op.apply old given)

/-- Makes a table that is not there yet. -/
def create (table : String) (names : List String) (rows : List Row) :
    Except (Halt EvalFault) FrameDraft := do
  let columns := newSpecs names rows
  rows.forM fun row => inRange (checkRow table columns row)
  append ⟨.empty columns, [.define (.of table) table columns]⟩ (.of table) rows

/-- Gives a table new contents. -/
def overwrite (f : Frame) (table : String) (names : List String) (rows : List Row) :
    Except (Halt EvalFault) FrameDraft := do
  let rows ← f.reorder table names rows
  rows.forM fun row => inRange (checkRow table f.columns row)
  if rows.length < f.rows then .error (.fault (.shrinks table f.rows rows.length))
  else
    let d ← setRows ⟨f, []⟩ (.of table) 0 (rows.take f.rows)
    d.append (.of table) (rows.drop f.rows)

/-- Sets cells of a column, each of the rows with the position of its value. One value goes to all the
rows. -/
def setCells (op : SetOp) (table name : String) (column : Nat) (kind : Kind) (values : List Value)
    (d : FrameDraft) : List (Nat × Nat) → Except (Halt EvalFault) FrameDraft
  | [] => .ok d
  | (row, position) :: rest => do
    let given ← reach values (if values.length = 1 then 0 else position)
    let value ← d.result op row column given
    if value.kind = kind then
      let d ← d.setCell (.of table) row column value
      setCells op table name column kind values d rest
    else .error (.fault (.cellKind table name kind value.kind))

/-- Sets the cells of a column in some rows. -/
def assign (f : Frame) (op : SetOp) (table name : String) (column : Nat) (values : List Value)
    (rows : List Nat) : Except (Halt EvalFault) FrameDraft :=
  if values.length ≠ 1 ∧ values.length ≠ rows.length then
    .error (.fault (.assignedCount values.length rows.length))
  else do
    let spec ← reach f.columns column
    setCells op table name column spec.kind values ⟨f, []⟩ rows.zipIdx

end FrameDraft

/-! ## Columns, rows and values -/

/-- `resolve`: the position of a column with a name, or of the first column. -/
def resolveColumn (columns : List ColumnSpec) (table : String) : Option String → Except EvalFault Nat
  | none => if columns.isEmpty then .error (.noColumns table) else .ok 0
  | some name =>
    match columns.findIdx? fun spec => spec.id = .of name with
    | some index => .ok index
    | none =>
      match position? name with
      | some n =>
        if 1 ≤ n ∧ n ≤ columns.length then .ok (n - 1) else .error (.unknownColumn table name)
      | none => .error (.unknownColumn table name)

/-- The row that a number counts from one. The number is compared with the double nearest to the row
count, and at most the greatest machine word becomes of it. -/
def selectRow (rowCount : Nat) : Value → Except (Halt EvalFault) Nat
  | .number n =>
    match n.toInt?, (Number.ofInt rowCount).toInt? with
    | some k, some last =>
      if 1 ≤ k ∧ k ≤ last then .ok (min k.toNat (UInt64.size - 1) - 1)
      else .error (.fault (.noSuchRow n rowCount))
    | _, _ => .error (.fault (.noSuchRow n rowCount))
  | v => .error (.fault (.indexKind v.kind))

/-- `select`: the rows that an index picks. -/
def select (index : List Value) (rowCount : Nat) : Except (Halt EvalFault) (List Nat) :=
  if index.all (·.bool?.isSome) then
    if index.length = 1 then do
      let all ← reach index 0
      return if all = .bool true then List.range rowCount else []
    else if index.length ≠ rowCount then .error (.fault (.maskLength index.length rowCount))
    else .ok (index.zipIdx.filterMap fun (v, row) => if v = .bool true then some row else none)
  else index.mapM (selectRow rowCount)

/-- The rows that an index picks; without one, all of them. -/
def chooseRows (index : Option (List Value)) (rowCount : Nat) : Except (Halt EvalFault) (List Nat) :=
  match index with
  | some index => select index rowCount
  | none => .ok (List.range rowCount)

/-- `broadcast` applies an operation along two columns, one of which may stand for as many values as
the other has. -/
def spread (f : Value → Value → Except EvalFault Value) (left right : List Value) :
    Except (Halt EvalFault) (List Value) :=
  if left.length = 1 then
    right.mapM fun b => do
      let a ← reach left 0
      inRange (f a b)
  else if right.length = 1 then
    left.mapM fun a => do
      let b ← reach right 0
      inRange (f a b)
  else if left.length = right.length then (left.zip right).mapM fun (a, b) => inRange (f a b)
  else .error (.fault (.lengths left.length right.length))

/-! ## Statements -/

/-- The state between two statements. -/
structure Env where
  /-- The store as the block found it. -/
  store : Store
  /-- The working copies. -/
  frames : Ident → Option Frame
  /-- The named values, the latest first. -/
  names : List (String × List Value)
  changes : List Change

namespace Env

/-- The state before the first statement. -/
def start (s : Store) : Env := ⟨s, fun _ => none, [], []⟩

/-- `Env::frame_mut`: the working copy of a table, which may have to be made. -/
def frame (env : Env) (table : String) : Except EvalFault Frame :=
  match env.frames (.of table) with
  | some f => .ok f
  | none =>
    match env.store.find? (.of table) with
    | some t => .ok (.load t)
    | none => .error (.unknownTable table)

/-- `Env::read`: the cells of a column, from the working copy if there is one. -/
def read (env : Env) (table : String) (column : Option String) :
    Except (Halt EvalFault) (List Value) :=
  match env.frames (.of table) with
  | some f => do
    let index ← inRange (resolveColumn f.columns table column)
    reach f.data index
  | none =>
    match env.store.find? (.of table) with
    | some t => do
      let index ← inRange (resolveColumn t.specs table column)
      return t.columnValues index
    | none => .error (.fault (.unknownTable table))

/-- `Env::eval`: the value of an expression. -/
def eval (env : Env) : Expr → Except (Halt EvalFault) (List Value)
  | .number n => .ok [.number n]
  | .text s => .ok [.text s]
  | .bool b => .ok [.bool b]
  | .name n =>
    match env.names.lookup n with
    | some values => .ok values
    | none => .error (.fault (.unknownName n))
  | .column t c => env.read t c
  | .pick t c index => do
    let values ← env.read t c
    let index ← env.eval index
    let rows ← select index values.length
    rows.mapM (reach values)
  | .unary op operand => do
    let values ← env.eval operand
    values.mapM fun v => inRange (op.apply v)
  | .binary op left right => do
    let left ← env.eval left
    let right ← env.eval right
    spread op.apply left right

/-- The value of a cell of a literal. -/
def evalCell (env : Env) (e : Expr) : Except (Halt EvalFault) Value := do
  let values ← env.eval e
  if values.length ≠ 1 then .error (.fault (.cellCount values.length))
  else reach values 0

/-- `Env::eval_rows`: the rows of a literal. -/
def evalRows (env : Env) (l : Literal) : Except (Halt EvalFault) (List Row) :=
  l.rows.mapM fun row => row.mapM env.evalCell

/-- The column names and rows that a table is defined by. -/
def evalSource (env : Env) : Source → Except (Halt EvalFault) (List String × List Row)
  | .literal l => do
    let rows ← env.evalRows l
    return (l.columns, rows)
  | .formula e => do
    let values ← env.eval e
    return ([], values.map ([·]))

/-- `Env::set_column` sets the cells of a column, or those that an index picks. -/
def setColumn (env : Env) (table name : String) (index : Option Expr) (op : SetOp) (value : Expr) :
    Except (Halt EvalFault) FrameDraft := do
  let values ← env.eval value
  let index ← index.mapM env.eval
  let f ← inRange (env.frame table)
  let column ← inRange (resolveColumn f.columns table (some name))
  let rows ← chooseRows index f.rows
  FrameDraft.assign f op table name column values rows

/-- Adds rows to a table. -/
def appendRows (env : Env) (table : String) (l : Literal) : Except (Halt EvalFault) FrameDraft := do
  let rows ← env.evalRows l
  let f ← inRange (env.frame table)
  let rows ← f.reorder table l.columns rows
  rows.forM fun row => inRange (checkRow table f.columns row)
  FrameDraft.append ⟨f, []⟩ (.of table) rows

/-- `Env::define` makes a table, or gives one that is there new contents. -/
def define (env : Env) (table : String) (names : List String) (rows : List Row) :
    Except (Halt EvalFault) FrameDraft :=
  if (env.frames (.of table)).isNone ∧ ¬ env.store.contains (.of table) then
    FrameDraft.create table names rows
  else do
    let f ← inRange (env.frame table)
    FrameDraft.overwrite f table names rows

/-- The state with a frame as the working copy of a table. -/
def adopt (env : Env) (id : Ident) (d : FrameDraft) : Env :=
  { env with
    frames := fun other => if other = id then some d.frame else env.frames other
    changes := env.changes ++ d.changes }

/-- `Env::run` carries out a statement. -/
def run (env : Env) : Statement → Except (Halt EvalFault) Env
  | .watch _ _ => .ok env
  | .define table source => do
    let (names, rows) ← env.evalSource source
    return env.adopt (.of table) (← env.define table names rows)
  | .set table column index op value => do
    return env.adopt (.of table) (← env.setColumn table column index op value)
  | .append table l => do
    return env.adopt (.of table) (← env.appendRows table l)
  | .assign name value => do
    let values ← env.eval value
    return { env with names := (name, values) :: env.names }

/-- Carries out statements one after the other. -/
def runLines (env : Env) : List Line → Except (Halt LineFault) Env
  | [] => .ok env
  | line :: rest =>
    match env.run line.statement with
    | .error (.fault fault) => .error (.fault ⟨line.number, fault⟩)
    | .error .outOfRange => .error .outOfRange
    | .ok env => env.runLines rest

/-- `ProgramBlock::evaluate`: the changes that the statements of a block make to a store. -/
def evaluate (lines : List Line) (s : Store) : Except (Halt LineFault) (List Change) := do
  let env ← (start s).runLines lines
  return env.changes

end Env

/-! ## Declarations -/

/-- Whether the values of a row are of the kinds of their columns. -/
def compareKinds (table : String) (kinds : List Kind) (row : Row) (r : Nat) :
    Except (Halt CompileFault) Unit :=
  row.zipIdx.forM fun (value, c) => do
    let kind ← reach kinds c
    if value.kind = kind then .ok ()
    else .error (.fault (.mixedKinds table (c + 1) kind value.kind r))

/-- `declare`: the declaration of a table by constant rows. The kind of each column is that of the
first row. -/
def declareByPosition (table : String) (names : List String) (rows : List Row) :
    Except (Halt CompileFault) Declaration := do
  let kinds := match rows with
    | row :: _ => row.map Value.kind
    | [] => names.map fun _ => Kind.number
  (rows.zipIdx 1).forM fun (row, r) => compareKinds table kinds row r
  return ⟨.of table, table, newSpecs names rows, rows⟩

end Ripple.Program
