import Ripple.Ident

/-!
# Registers

A register is what a block watches or produces: one column of a table, or any of its columns.
-/

namespace Ripple

/-- A column of a table, or all of them. -/
structure Register where
  table : Ident
  /-- The column; `none` for any column. -/
  column : Option Ident
  deriving DecidableEq, Repr

namespace Register

/-- The register of any column of a table. -/
def any (table : Ident) : Register := ⟨table, none⟩

/-- The register of a column given by names. -/
def named (table column : String) : Register := ⟨.of table, some (.of column)⟩

/-- `Register::overlaps`: whether a write to one register can be seen by a watcher of the other. -/
def overlaps (a b : Register) : Bool :=
  a.table = b.table && (a.column = none || b.column = none || a.column = b.column)

/-- The order of registers: by table, then by column, with any column last. -/
def compare (a b : Register) : Ordering :=
  let columns := match a.column, b.column with
    | some x, some y => Ord.compare x.raw y.raw
    | some _, none => .lt
    | none, some _ => .gt
    | none, none => .eq
  (Ord.compare a.table.raw b.table.raw).then columns

end Register

theorem overlaps_iff {a b : Register} :
    a.overlaps b ↔ a.table = b.table ∧ (a.column = none ∨ b.column = none ∨ a.column = b.column) := by
  simp [Register.overlaps, or_assoc]

theorem overlaps_symm {a b : Register} (overlap : a.overlaps b) : b.overlaps a := by
  rw [overlaps_iff] at overlap ⊢
  grind

end Ripple
