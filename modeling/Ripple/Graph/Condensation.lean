import Ripple.Graph.LowLink

/-!
# Placing components by counting

`condensation_order`: Kahn's algorithm on the components of a graph, which go by their places in a
list. For each component it is counted from how many others edges lead into it; several edges
between the same two components count once. Components with a count of zero are ready. The ready one
with the least node is placed next. That takes one off the count of each component that it leads
into, and those that come down to zero are ready then.
-/

namespace Ripple.Graph

/-- Gives the nodes of a component its number. -/
def numberNodes (numbers : Nat → Nat) (entry : List Nat × Nat) : Nat → Nat :=
  entry.1.foldl (fun numbers v => assign numbers v entry.2) numbers

/-- The number of the component that each node is in. -/
def componentNumbers (cs : List (List Nat)) : Nat → Nat := cs.zipIdx.foldl numberNodes fun _ => 0

/-! ## Edges between components -/

/-- The edges between components. -/
structure Condensation where
  /-- The components that a component leads into, each once. -/
  targets : Nat → List Nat
  /-- From how many other components edges lead into each. -/
  degrees : List Nat

namespace Condensation

/-- Components without edges between them. -/
def start (size : Nat) : Condensation := ⟨fun _ => [], List.replicate size 0⟩

/-- Adds an edge, unless it is there or stays inside one component. -/
def link (d : Condensation) (source target : Nat) : Condensation :=
  if source = target ∨ target ∈ d.targets source then d
  else
    { targets := assign d.targets source (d.targets source ++ [target])
      degrees := d.degrees.modify target (· + 1) }

end Condensation

/-- The edges between components that the edges of a graph make. -/
def condense (succ : Successors) (count : Nat) (cs : List (List Nat)) : Condensation :=
  let number := componentNumbers cs
  (List.range count).foldl
    (fun d v => (succ v).foldl (fun d w => d.link (number v) (number w)) d) (.start cs.length)

/-! ## Placing -/

/-- The least node of a component. -/
def leastNode (cs : List (List Nat)) (c : Nat) : Nat := (cs.getD c []).headD 0

/-- Puts an entry into a queue in ascending order. -/
def enqueue (entry : Nat × Nat) : List (Nat × Nat) → List (Nat × Nat)
  | [] => [entry]
  | other :: rest =>
    if entry.1 < other.1 ∨ entry.1 = other.1 ∧ entry.2 ≤ other.2 then entry :: other :: rest
    else other :: enqueue entry rest

/-- How far placing has come. -/
structure Placing where
  /-- From how many components that are not placed yet edges lead into each. -/
  degrees : List Nat
  /-- The components that are ready, each behind its least node, in ascending order. -/
  ready : List (Nat × Nat)

namespace Placing

variable (cs : List (List Nat))

/-- Nothing is placed, and the components of count zero are ready. -/
def start (degrees : List Nat) : Placing :=
  ⟨degrees, ((List.range cs.length).filter (degrees.getD · 0 = 0)).foldl
    (fun ready c => enqueue (leastNode cs c, c) ready) []⟩

/-- Takes one off a count. -/
def release (s : Placing) (c : Nat) : Placing :=
  match s.degrees[c]? with
  | some (left + 1) =>
    { degrees := s.degrees.set c left
      ready := if left = 0 then enqueue (leastNode cs c, c) s.ready else s.ready }
  | _ => s

/-- What is still to be counted down and placed. -/
def pending (s : Placing) : Nat := s.degrees.sum + s.ready.length

variable {cs}

theorem length_enqueue (entry : Nat × Nat) (queue : List (Nat × Nat)) :
    (enqueue entry queue).length = queue.length + 1 := by
  induction queue with
  | nil => rfl
  | cons other rest ih =>
    unfold enqueue
    split
    · rfl
    · simp [ih]

theorem sum_set_lt {degrees : List Nat} {c left : Nat} (found : degrees[c]? = some (left + 1)) :
    (degrees.set c left).sum + 1 = degrees.sum := by
  induction degrees generalizing c with
  | nil => simp at found
  | cons degree degrees ih =>
    cases c with
    | zero =>
      obtain rfl : degree = left + 1 := by simpa using found
      simp only [List.set_cons_zero, List.sum_cons]
      omega
    | succ c =>
      have rest := ih (c := c) (by simpa using found)
      simp only [List.set_cons_succ, List.sum_cons]
      omega

/-- What becomes ready was counted down. -/
theorem pending_release (s : Placing) (c : Nat) : (s.release cs c).pending ≤ s.pending := by
  unfold release
  split
  · next left found =>
    have counted := sum_set_lt found
    simp only [pending]
    split
    · rw [length_enqueue]
      omega
    · omega
  · exact Nat.le_refl _

theorem pending_foldl_release (s : Placing) (targets : List Nat) :
    (targets.foldl (release cs) s).pending ≤ s.pending := by
  induction targets generalizing s with
  | nil => exact Nat.le_refl _
  | cons c targets ih => exact Nat.le_trans (ih _) (pending_release s c)

/-- Places components until none is ready. -/
def run (cs : List (List Nat)) (targets : Nat → List Nat) (s : Placing) : List Nat :=
  match _queue : s.ready with
  | [] => []
  | (_, c) :: rest =>
    cs.getD c [] ++ run cs targets ((targets c).foldl (release cs) ⟨s.degrees, rest⟩)
termination_by s.pending
decreasing_by
  have fewer := @pending_foldl_release cs ⟨s.degrees, rest⟩ (targets c)
  have taken : s.pending = (Placing.mk s.degrees rest).pending + 1 := by
    simp [pending, _queue, Nat.add_assoc]
  omega

end Placing

/-- The nodes of components in the order in which counting places them. -/
def condensationOrder (succ : Successors) (count : Nat) (cs : List (List Nat)) : List Nat :=
  let d := condense succ count cs
  (Placing.start cs d.degrees).run cs d.targets

end Ripple.Graph
