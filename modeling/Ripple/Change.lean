import Ripple.Store
import Ripple.Register

/-!
# Changes and their effects

A change is a request; an effect is what was actually done, with what it replaced. Effects can
be undone and redone. Carrying out a change that leaves everything as it was has no effect.
-/

namespace Ripple

/-- A requested change. -/
inductive Change where
  /-- Write an existing cell; the row is counted from zero. -/
  | set (table : Ident) (row : Nat) (column : ColumnRef) (value : Value)
  /-- Add rows at the bottom. -/
  | append (table : Ident) (rows : List Row)
  /-- Create a table unless there is one with the identifier. -/
  | define (table : Ident) (name : String) (specs : List ColumnSpec)
  deriving DecidableEq, Repr

/-- `AppliedChange`: something that was done to the store. -/
inductive Effect where
  /-- A cell got a new value. There is no old one if the cell is part of an appended row. -/
  | cell (table : Ident) (row column : Nat) (old : Option Value) (new : Value)
  /-- A table was created. -/
  | created (table : Ident) (name : String) (specs : List ColumnSpec)
  deriving DecidableEq, Repr

namespace Effect

/-- The table an effect is about. -/
def table : Effect → Ident
  | .cell table .. => table
  | .created table .. => table

/-- `AppliedChange::revert` undoes an effect. A cell of an appended row is undone by cutting the table
off above the row, so that undoing the last effect first removes appended rows entirely. -/
def revert (effect : Effect) (s : Store) : Except Refusal Store :=
  match effect with
  | .cell table row column (some old) _ => do
    let (s, _) ← s.writeCell table row column old
    return s
  | .cell table row _ none _ => s.truncateRows table row
  | .created table _ _ => s.drop table

/-- `AppliedChange::replay` does an effect again, adding rows and tables where it needs them. -/
def replay (effect : Effect) (s : Store) : Except Refusal Store :=
  match effect with
  | .cell table row column _ new => do
    let (s, _) ← s.writeCellExtending table row column new
    return s
  | .created table name specs => s.create table name specs []

end Effect

/-- The effects of cells that appended rows consist of, from a first row on. -/
def appendEffects (table : Ident) (first : Nat) (rows : List Row) : List Effect :=
  (rows.zipIdx first).flatMap fun (row, r) =>
    row.zipIdx.map fun (value, c) => .cell table r c none value

/-- What carrying out a change leads to. -/
structure Outcome where
  store : Store
  /-- What was done, in order. -/
  effects : List Effect
  /-- The registers that were written. -/
  touched : List Register
  deriving DecidableEq, Repr

/-- `apply_change`: carries out a change on a store. A write of what is there already is not listed. -/
def Change.apply (change : Change) (s : Store) : Except Refusal Outcome :=
  match change with
  | .set table row column value => do
    let index ← s.resolve table column
    let t ← s.get table
    let (s, old) ← s.writeCell table row index value
    match old with
    | none => return ⟨s, [], []⟩
    | some old =>
      let key := t.specs[index]?.map ColumnSpec.id
      return ⟨s, [.cell table row index (some old) value], [⟨table, key⟩]⟩
  | .append table rows => do
    if rows.isEmpty then
      let _ ← s.get table
      return ⟨s, [], []⟩
    let (s, first, _) ← s.appendRows table rows
    return ⟨s, appendEffects table first rows, [.any table]⟩
  | .define table name specs => do
    if s.contains table then return ⟨s, [], []⟩
    let s ← s.create table name specs []
    return ⟨s, [.created table name specs], [.any table]⟩

/-- `HistoryEntry`: a committed transaction with everything it caused. -/
structure Entry where
  /-- The number of the transaction among those of its universe, counted from one. -/
  seq : Nat
  /-- How many changes were submitted. -/
  submitted : Nat
  /-- What was done, in order, whether submitted or caused by a block. -/
  effects : List Effect
  /-- How many rounds of blocks ran. -/
  rounds : Nat
  /-- The names of the blocks that ran, in order. -/
  fired : List String
  deriving DecidableEq, Repr

/-- Removes repeated elements, keeping the first of each. -/
def keepFirst {α : Type} [DecidableEq α] (items : List α) : List α :=
  (items.foldl (fun seen x => if x ∈ seen then seen else x :: seen) []).reverse

/-- `HistoryEntry::tables`: the tables an entry is about, in the order of their first effects. -/
def Entry.tables (entry : Entry) : List Ident := keepFirst (entry.effects.map Effect.table)

end Ripple
