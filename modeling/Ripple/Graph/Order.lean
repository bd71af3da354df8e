import Ripple.Graph.Component

/-!
# Evaluation order

Components are placed one after the other. The next one is, among those that no unplaced
component has an edge into, the one with the least node; inside a component nodes ascend.
-/

namespace Ripple.Graph

/-- Whether some edge leads from a node of one list to a node of the other. -/
def leadsInto (succ : Successors) (source target : List Nat) : Bool :=
  source.any fun v => (succ v).any (· ∈ target)

/-- Whether no other component of the list has an edge into this one. -/
def isReady (succ : Successors) (unplaced : List (List Nat)) (c : List Nat) : Bool :=
  unplaced.all fun other => other = c || ! leadsInto succ other c

/-- Places components, given with ascending least nodes. -/
def placeComponents (succ : Successors) (unplaced : List (List Nat)) : List Nat :=
  match _chosen : unplaced.find? (isReady succ unplaced) with
  | none => []
  | some c => c ++ placeComponents succ (unplaced.erase c)
termination_by unplaced.length
decreasing_by
  have member := List.mem_of_find?_eq_some _chosen
  have := List.length_erase_of_mem member
  have := List.length_pos_of_mem member
  omega

/-- `condensation_order`: the nodes below `count` in evaluation order. -/
def evaluationOrder (succ : Successors) (count : Nat) : List Nat :=
  let byLeast := (components succ count).mergeSort fun a b => a.headD 0 ≤ b.headD 0
  placeComponents succ byLeast

end Ripple.Graph
