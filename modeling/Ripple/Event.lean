import Ripple.Change

/-!
# Events

What a listener of a session is told.
-/

namespace Ripple

/-- A cell by its place; row and column are counted from zero. -/
structure CellAddress where
  table : Ident
  row : Nat
  column : Nat
  deriving DecidableEq, Repr

/-- `CoreEvent`: something a listener is told. -/
inductive Event where
  /-- A program was loaded with so many tables and blocks. -/
  | programLoaded (tables blocks : Nat)
  /-- A transaction was recorded. -/
  | committed (seq submitted rounds changes : Nat)
  /-- Cells changed by a transaction, or by undoing or redoing it. Lists each cell once, where
  it was first written, and the tables that came or went. -/
  | cellsChanged (seq : Nat) (cells : List CellAddress) (tables : List Ident)
  /-- The cursor of the history moved; `size` is the number of entries. -/
  | cursorMoved (cursor previous size : Nat)
  deriving DecidableEq, Repr

/-- The cell an effect is on. -/
def Effect.address? : Effect → Option CellAddress
  | .cell table row column _ _ => some ⟨table, row, column⟩
  | .created .. => none

/-- The table an effect creates. -/
def Effect.createdTable? : Effect → Option Ident
  | .cell .. => none
  | .created table _ _ => some table

namespace Event

/-- That a transaction was recorded. -/
def ofCommit (entry : Entry) : Event :=
  .committed entry.seq entry.submitted entry.rounds entry.effects.length

/-- `CellsChangedEvent::from_changes`: that the cells of an entry changed. -/
def ofCells (entry : Entry) : Event :=
  .cellsChanged entry.seq (keepFirst (entry.effects.filterMap Effect.address?))
    (entry.effects.filterMap Effect.createdTable?)

def isCommitted : Event → Bool
  | committed .. => true
  | _ => false

def isCellsChanged : Event → Bool
  | cellsChanged .. => true
  | _ => false

def isCursorMoved : Event → Bool
  | cursorMoved .. => true
  | _ => false

end Event

end Ripple
