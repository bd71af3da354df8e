import Ripple.Event
import Ripple.Graph
import Ripple.Json
import Ripple.Settings

/-!
# JSON forms

How values, columns, registers, entries, graphs, events and settings are written as JSON.
Identifiers are plain numbers. Fields are written in a fixed order.
-/

namespace Ripple

def Ident.toJson (id : Ident) : Json := .nat id.raw.toNat

def Kind.toJson (k : Kind) : Json := .text k.tag

def RowRef.toJson (r : RowRef) : Json :=
  .record [("table", r.table.toJson), ("row", .nat r.row)]

/-- What a value holds, without its kind. -/
def Value.contentJson : Value → Json
  | .number n => .float n
  | .bool b => .bool b
  | .text s => .text s
  | .ref r => r.toJson

/-- A value is written with the name of its kind. -/
def Value.toJson (v : Value) : Json :=
  .record [("kind", v.kind.toJson), ("value", v.contentJson)]

def ColumnRef.toJson : ColumnRef → Json
  | .id key => .record [("Id", key.toJson)]
  | .position p => .record [("Position", .nat p)]
  | .raw n => .record [("Raw", .nat n.toNat)]

def ColumnSpec.toJson (spec : ColumnSpec) : Json :=
  .record [("name", .text spec.name), ("id", spec.id.toJson), ("kind", spec.kind.toJson)]

def Register.toJson (r : Register) : Json :=
  let column := match r.column with
    | some key => .record [("Column", key.toJson)]
    | none => .text "Any"
  .record [("table", r.table.toJson), ("column", column)]

def Effect.toJson : Effect → Json
  | .cell table row column old new =>
    .record [("Cell", .record [("table", table.toJson), ("row", .nat row), ("column", .nat column),
      ("old", .optional Value.toJson old), ("new", new.toJson)])]
  | .created table name specs =>
    .record [("Created", .record [("table", table.toJson), ("name", .text name),
      ("columns", .list ColumnSpec.toJson specs)])]

def Entry.toJson (e : Entry) : Json :=
  .record [("seq", .nat e.seq), ("submitted", .nat e.submitted),
    ("changes", .list Effect.toJson e.effects), ("rounds", .nat e.rounds),
    ("fired", .list Json.text e.fired)]

/-- A table without its cells. -/
def Table.summaryJson (t : Table) : Json :=
  .record [("id", t.id.toJson), ("name", .text t.name), ("rows", .nat t.rowCount),
    ("columns", .list ColumnSpec.toJson t.specs)]

/-! ## Graphs -/

def Activation.tag : Activation → String
  | .onWatch => "on_watch"
  | .onLoad => "on_load"

def EdgeKind.tag : EdgeKind → String
  | .forward => "forward"
  | .feedback => "feedback"

/-- The name of the block with an index. -/
def Graph.blockName (g : Graph) (index : Nat) : String :=
  match g.blocks[index]? with
  | some block => block.name
  | none => ""

def Block.toJson (block : Block) (rank : Nat) : Json :=
  .record [("name", .text block.name), ("rank", .nat rank),
    ("activation", .text block.activation.tag), ("watch", .list Register.toJson block.watch),
    ("produce", .list Register.toJson block.produce)]

def Edge.toJson (g : Graph) (e : Edge) : Json :=
  .record [("from", .text (g.blockName e.source)), ("to", .text (g.blockName e.target)),
    ("kind", .text e.kind.tag)]

/-- `BlockGraph::describe`: the blocks in evaluation order, and the edges between them. -/
def Graph.toJson (g : Graph) : Json :=
  .record [("blocks", .list (fun (index, block) => block.toJson (g.rank index)) g.ordered),
    ("edges", .list (Edge.toJson g) g.edges)]

/-! ## Events -/

def CellAddress.toJson (a : CellAddress) : Json :=
  .record [("table", a.table.toJson), ("row", .nat a.row), ("column", .nat a.column)]

def Event.toJson : Event → Json
  | .programLoaded tables blocks =>
    .record [("type", .text "program_loaded"), ("tables", .nat tables), ("blocks", .nat blocks)]
  | .committed seq submitted rounds changes =>
    .record [("type", .text "transaction_committed"), ("seq", .nat seq),
      ("submitted", .nat submitted), ("rounds", .nat rounds), ("changes", .nat changes)]
  | .cellsChanged seq cells tables =>
    .record [("type", .text "cells_changed"), ("seq", .nat seq),
      ("cells", .list CellAddress.toJson cells), ("tables", .list Ident.toJson tables)]
  | .cursorMoved cursor previous size =>
    .record [("type", .text "cursor_moved"), ("cursor", .nat cursor),
      ("previous", .nat previous), ("len", .nat size)]

/-! ## Settings -/

/-- The names of the settings, in order. -/
def Settings.fieldNames : List String :=
  ["propagation.maxRounds", "history.pausedCommits", "history.maxEntries", "engine.logReports"]

def Settings.toJson (s : Settings) : Json :=
  .record (fieldNames.zip [.nat s.maxRounds, .text s.pausedCommits.tag,
    .optional Json.nat s.maxEntries, .bool s.logReports])

end Ripple
