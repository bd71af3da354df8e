import Ripple.Block
import Ripple.Graph.Order

/-!
# The block graph

There is an edge from one block to another where the second watches something the first
produces. Blocks run in an order in which, outside of cycles, producers come before watchers.
An edge against that order is a feedback edge: its effect is seen in the next round.
-/

namespace Ripple

/-- Whether an edge goes with the evaluation order. -/
inductive EdgeKind where
  /-- The producer runs first; the edge takes effect within a round. -/
  | forward
  /-- The edge is part of a cycle and takes effect in the next round. -/
  | feedback
  deriving DecidableEq, Repr

/-- An edge between two blocks, given by their indices. -/
structure Edge where
  source : Nat
  target : Nat
  kind : EdgeKind
  deriving DecidableEq, Repr

/-- One watched register of a table: the column, or `none` for any, and the watching block. -/
structure Watcher where
  column : Option Ident
  block : Nat
  deriving DecidableEq, Repr

/-- Whether the watcher sees a write to a column of its table; `none` is a write to any column. -/
def Watcher.sees (watcher : Watcher) (column : Option Ident) : Bool :=
  match column, watcher.column with
  | none, _ => true
  | some _, none => true
  | some written, some watched => written = watched

theorem Watcher.sees_iff {watcher : Watcher} {column : Option Ident} :
    watcher.sees column ↔ column = none ∨ watcher.column = none ∨ column = watcher.column := by
  unfold sees
  split <;> simp_all

/-- Blocks with what follows from their registers. -/
structure Graph where
  /-- The blocks, as declared. -/
  blocks : List Block
  /-- The indices of the blocks in evaluation order. -/
  order : List Nat
  /-- The position of each block in the evaluation order. -/
  ranks : List Nat
  /-- The edges, by ascending source and target. -/
  edges : List Edge
  /-- The watchers of each table, in the order in which the blocks name them. -/
  watchIndex : List (Ident × List Watcher)

namespace Graph

/-- The indices of the blocks that watch something a block produces, ascending. -/
def successorsOf (blocks : List Block) (index : Nat) : List Nat :=
  match blocks[index]? with
  | none => []
  | some producer =>
    (List.range blocks.length).filter fun i => (blocks[i]?).any producer.feeds

/-- Adds a watcher to the list of its table. -/
def addWatcher (index : List (Ident × List Watcher)) (table : Ident) (watcher : Watcher) :
    List (Ident × List Watcher) :=
  match index with
  | [] => [(table, [watcher])]
  | (key, watchers) :: rest =>
    if key = table then (key, watchers ++ [watcher]) :: rest
    else (key, watchers) :: addWatcher rest table watcher

/-- Collects the watched registers of all blocks by their tables. -/
def indexWatchers (blocks : List Block) : List (Ident × List Watcher) :=
  blocks.zipIdx.foldl
    (fun index (block, i) =>
      block.watch.foldl (fun index r => addWatcher index r.table ⟨r.column, i⟩) index)
    []

/-- `BlockGraph::new`: the graph of a list of blocks. -/
def ofBlocks (blocks : List Block) : Graph :=
  let count := blocks.length
  let table := (List.range count).map (successorsOf blocks)
  let succ v := table.getD v []
  let order := evaluationOrder succ count
  let ranks := (List.range count).map order.idxOf
  let edge source target : Edge :=
    ⟨source, target, if ranks.getD source 0 < ranks.getD target 0 then .forward else .feedback⟩
  { blocks, order, ranks
    edges := (List.range count).flatMap fun source => (succ source).map (edge source)
    watchIndex := indexWatchers blocks }

/-- The graph without blocks. -/
def empty : Graph := ofBlocks []

def size (g : Graph) : Nat := g.blocks.length

/-- `BlockGraph::rank`: the position of a block in the evaluation order. -/
def rank (g : Graph) (index : Nat) : Nat := g.ranks.getD index 0

/-- Removes repetitions that stand side by side. -/
def dropRepeats : List Nat → List Nat
  | [] => []
  | [x] => [x]
  | x :: y :: rest => if x = y then dropRepeats (y :: rest) else x :: dropRepeats (y :: rest)

/-- `BlockGraph::watchers`: the indices of the blocks that can see a write to a register, ascending.
They are looked up under the table, sorted and freed of repetitions. -/
def watchers (g : Graph) (register : Register) : List Nat :=
  match g.watchIndex.find? (·.1 = register.table) with
  | none => []
  | some (_, entries) =>
    let seeing := (entries.filter (·.sees register.column)).map Watcher.block
    dropRepeats seeing.mergeSort

/-- `BlockGraph::on_load_blocks`: the blocks that run when their program is loaded, in evaluation
order. -/
def onLoad (g : Graph) : List Nat :=
  g.order.filter fun i => (g.blocks[i]?).any fun block => block.activation = .onLoad

/-- The targets of the edges from a block. -/
def successors (g : Graph) (index : Nat) : List Nat :=
  (g.edges.filter (·.source = index)).map Edge.target

/-- `BlockGraph::cycles`: the components that feed back into themselves, each in evaluation order. -/
def cycles (g : Graph) : List (List Nat) :=
  let feedsBack (c : List Nat) : Bool := 1 < c.length || c.headD 0 ∈ g.successors (c.headD 0)
  ((components g.successors g.size).filter feedsBack).map fun c =>
    c.mergeSort fun v w => g.rank v ≤ g.rank w

/-- The blocks in evaluation order, each with its index. -/
def ordered (g : Graph) : List (Nat × Block) :=
  g.order.filterMap fun i => (g.blocks[i]?).map (i, ·)

/-- The number of feedback edges. -/
def feedbackCount (g : Graph) : Nat := g.edges.countP (·.kind = .feedback)

end Graph

end Ripple
