/-!
# Strongly connected components

The nodes are the numbers below a count, and `succ` lists the targets of the edges from a node.
A depth-first search from each node in turn, taking edges in the order listed, finishes the
nodes in a certain order. The components are listed in the order in which the search leaves
them for good, which is when it finishes the last of their nodes: a component comes before
every other component that has an edge into it.
-/

namespace Ripple.Graph

/-- The edges of a graph: the targets of each node, in order. -/
abbrev Successors := Nat → List Nat

/-- How far a depth-first search has come. -/
structure Trail where
  /-- The nodes entered so far. -/
  seen : List Nat
  /-- The nodes left so far, the latest first. -/
  finished : List Nat
  deriving Repr

/-- Searches from a node along paths of at most `depth` nodes, leaving out nodes seen before. -/
def visit (succ : Successors) : Nat → Trail → Nat → Trail
  | 0, trail, _ => trail
  | depth + 1, trail, v =>
    if v ∈ trail.seen then trail
    else
      let below := (succ v).foldl (visit succ depth) ⟨v :: trail.seen, trail.finished⟩
      ⟨below.seen, v :: below.finished⟩

/-- The nodes below `count` in the order in which a search from each of them in turn finishes
them, the latest first. -/
def finishOrder (succ : Successors) (count : Nat) : List Nat :=
  ((List.range count).foldl (visit succ count) ⟨[], []⟩).finished

/-- The nodes that can be reached from a node, the node itself included. -/
def reachable (succ : Successors) (count v : Nat) : List Nat := (visit succ count ⟨[], []⟩ v).seen

/-- The nodes that a node can reach and that can reach it, ascending. -/
def component (reach : Nat → List Nat) (count v : Nat) : List Nat :=
  (List.range count).filter fun w => w ∈ reach v && v ∈ reach w

/-- All components, each ascending, in the order in which the search leaves them. It is the order in
which `strongly_connected` completes them. -/
def components (succ : Successors) (count : Nat) : List (List Nat) :=
  let table := (List.range count).map (reachable succ count)
  let reach v := table.getD v []
  (finishOrder succ count).foldl
    (fun later v => if later.any (v ∈ ·) then later else component reach count v :: later) []

end Ripple.Graph
