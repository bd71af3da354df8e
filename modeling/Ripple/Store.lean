import Ripple.Table

/-!
# The store

All tables, each under its own identifier. The tables are kept in ascending order of their
identifiers, so that two stores with the same tables are equal, whatever the order in which the
tables were created.
-/

namespace Ripple

/-- The tables, by ascending identifier. -/
structure Store where
  tables : List Table
  deriving DecidableEq, Repr

namespace Store

def empty : Store := ⟨[]⟩

instance : Inhabited Store := ⟨empty⟩

/-! ## Looking up -/

def find? (s : Store) (id : Ident) : Option Table := s.tables.find? (·.id = id)

def contains (s : Store) (id : Ident) : Bool := s.tables.any (·.id = id)

def size (s : Store) : Nat := s.tables.length

/-- `TableStore::table_or_err`: the table with an identifier, or a refusal. -/
def get (s : Store) (id : Ident) : Except Refusal Table :=
  match s.find? id with
  | some t => .ok t
  | none => .error (.noSuchTable id)

/-- `TableStore::resolve_column`: the column a caller names, counted from zero, or a refusal. -/
def resolve (s : Store) (id : Ident) (column : ColumnRef) : Except Refusal Nat := do
  let t ← s.get id
  match t.resolve? column with
  | some index => .ok index
  | none => .error (.noSuchColumn id column)

/-- `TableStore::read_cell`. The table and the column are looked up before the row. -/
def readCell (s : Store) (id : Ident) (row : Nat) (column : ColumnRef) : Except Refusal Value := do
  let t ← s.get id
  let index ← s.resolve id column
  match t.cell? row index with
  | some value => .ok value
  | none => .error (.noSuchRow id row t.rowCount)

/-- `TableStore::read_column`. -/
def readColumn (s : Store) (id : Ident) (column : ColumnRef) : Except Refusal (List Value) := do
  let t ← s.get id
  let index ← s.resolve id column
  return t.columnValues index

/-- Whether a table comes before another in a listing: by name, then by identifier. -/
def listedBefore (a b : Table) : Bool :=
  if a.name = b.name then a.id.raw ≤ b.id.raw else a.name < b.name

/-- `TableStore::list_tables`: the tables in the order of a listing. -/
def listing (s : Store) : List Table := s.tables.mergeSort listedBefore

/-! ## Changing -/

/-- Puts a table at its place, instead of one with the same identifier. -/
def place (t : Table) : List Table → List Table
  | [] => [t]
  | u :: us =>
    if t.id = u.id then t :: us
    else if t.id < u.id then t :: u :: us
    else u :: place t us

/-- The store with a table added or replaced. -/
def put (s : Store) (t : Table) : Store := ⟨place t s.tables⟩

/-- The store without a table. -/
def erase (s : Store) (id : Ident) : Store := ⟨s.tables.filter (·.id ≠ id)⟩

/-- `TableStore::create_table` adds a table with its first rows. -/
def create (s : Store) (id : Ident) (name : String) (specs : List ColumnSpec) (rows : List Row) :
    Except Refusal Store := do
  if s.contains id then .error (.tableExists id)
  let t ← (Table.empty id name specs).append rows
  return s.put t

/-- `TableStore::write_cell` writes an existing cell. Gives the value that was replaced, `none` if it
was the same. -/
def writeCell (s : Store) (id : Ident) (row column : Nat) (value : Value) :
    Except Refusal (Store × Option Value) := do
  let t ← s.get id
  let (t, old) ← t.write row column value
  return (s.put t, old)

/-- `TableStore::write_cell_extending` writes a cell of a table that is made long enough first. -/
def writeCellExtending (s : Store) (id : Ident) (row column : Nat) (value : Value) :
    Except Refusal (Store × Option Value) := do
  let t ← s.get id
  let (t, old) ← t.writeExtending row column value
  return (s.put t, old)

/-- `TableStore::append_rows` adds rows at the bottom of a table. Gives the indices of the first new
row and of the row after the last. -/
def appendRows (s : Store) (id : Ident) (rows : List Row) :
    Except Refusal (Store × Nat × Nat) := do
  let t ← s.get id
  let longer ← t.append rows
  return (s.put longer, t.rowCount, longer.rowCount)

/-- `TableStore::truncate_rows` makes a table at most `count` rows long. -/
def truncateRows (s : Store) (id : Ident) (count : Nat) : Except Refusal Store := do
  let t ← s.get id
  return s.put (t.truncate count)

/-- `TableStore::drop_table`, with a refusal where there is no such table. -/
def drop (s : Store) (id : Ident) : Except Refusal Store :=
  if s.contains id then .ok (s.erase id) else .error (.noSuchTable id)

end Store

end Ripple
