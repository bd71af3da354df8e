import Mathlib.Algebra.GroupWithZero.Nat
import Ripple.Graph.Component

/-!
# Components by low links

`strongly_connected`: the components in one pass over the edges. Nodes are numbered as they are
entered and stay on a stack until their component is complete; nodes that were entered and not left
yet have a frame each, with the edges that are still to be taken. The low link of a node is the
least number of a node on the stack that it was found to lead to. A node that is left with its own
number as low link is the first one of its component, and the others are above it on the stack.
-/

namespace Ripple.Graph

/-- A node that was not left yet, with the targets of the edges that were not taken yet. -/
structure Frame where
  node : Nat
  rest : List Nat

/-- How far the search has come. -/
structure Search where
  /-- The number of the next node that is entered. -/
  next : Nat
  number? : Nat → Option Nat
  low : Nat → Nat
  onStack : Nat → Bool
  /-- The nodes whose components are not complete, the latest first. -/
  stack : List Nat
  /-- The frames of the nodes that were not left yet, the latest first. -/
  frames : List Frame
  /-- The complete components. -/
  emitted : List (List Nat)

/-- The function with another value at one place. -/
def assign {α : Type} (f : Nat → α) (x : Nat) (a : α) : Nat → α := fun y => if y = x then a else f y

/-- The stack down to a node, and what is below. -/
def popTo (v : Nat) : List Nat → List Nat × List Nat
  | [] => ([], [])
  | w :: stack =>
    if w = v then ([w], stack)
    else
      let (above, below) := popTo v stack
      (w :: above, below)

namespace Search

variable (succ : Successors) (count : Nat)

def start : Search where
  next := 0
  number? _ := none
  low _ := 0
  onStack _ := false
  stack := []
  frames := []
  emitted := []

/-- Numbers a node and puts it on the stack. -/
def enter (s : Search) (v : Nat) : Search where
  next := s.next + 1
  number? := assign s.number? v (some s.next)
  low := assign s.low v s.next
  onStack := assign s.onStack v true
  stack := v :: s.stack
  frames := ⟨v, succ v⟩ :: s.frames
  emitted := s.emitted

/-- Lowers a low link to a number, if that is less. -/
def lower (s : Search) (v number : Nat) : Search :=
  { s with low := assign s.low v (min (s.low v) number) }

/-- Takes an edge. A target that is no node is passed over. -/
def follow (s : Search) (v w : Nat) : Search :=
  match s.number? w with
  | none => if w < count then s.enter succ w else s
  | some number => if s.onStack w then s.lower v number else s

/-- Takes the nodes down to this one off the stack: they are a component. -/
def emit (s : Search) (v : Nat) : Search :=
  let (component, below) := popTo v s.stack
  { s with
    onStack := fun w => if w ∈ component then false else s.onStack w
    stack := below
    emitted := s.emitted ++ [component.mergeSort] }

/-- Leaves a node whose frame was just removed. -/
def leave (s : Search) (v : Nat) : Search :=
  let s := match s.frames with
    | [] => s
    | parent :: _ => s.lower parent.node (s.low v)
  if some (s.low v) = s.number? v then s.emit v else s

/-- Takes the next edge of the latest frame, or leaves its node. -/
def step (s : Search) : Search :=
  match s.frames with
  | [] => s
  | ⟨v, []⟩ :: frames => { s with frames := frames }.leave v
  | ⟨v, w :: rest⟩ :: frames => { s with frames := ⟨v, rest⟩ :: frames }.follow succ count v w

/-! ## The end of the search -/

/-- How many nodes have no number. -/
def unnumbered (s : Search) : Nat := (List.range count).countP fun v => (s.number? v).isNone

/-- How many edges are to be taken, and nodes to be left, by the frames there are. -/
def pending (s : Search) : Nat := (s.frames.map fun frame => frame.rest.length + 1).sum

variable {succ count} {s : Search} {v w : Nat}

theorem frames_leave : (s.leave v).frames = s.frames := by
  unfold leave
  cases top : s.frames <;> (dsimp only; split <;> exact top)

theorem number?_leave : (s.leave v).number? = s.number? := by
  unfold leave
  cases s.frames <;> (dsimp only; split <;> rfl)

theorem unnumbered_enter (below : v < count) (fresh : s.number? v = none) :
    (s.enter succ v).unnumbered count < s.unnumbered count := by
  have same : ((List.range count).filter fun x => ((s.enter succ v).number? x).isNone) =
      ((List.range count).filter fun x => (s.number? x).isNone).filter (· ≠ v) := by
    rw [List.filter_filter]
    refine List.filter_congr ?_
    intro x _
    by_cases here : x = v <;> simp [enter, assign, here]
  rw [unnumbered, unnumbered, List.countP_eq_length_filter, List.countP_eq_length_filter, same,
    List.length_filter_lt_length_iff_exists]
  exact ⟨v, by simp [below, fresh], by simp⟩

/-- A step numbers a node or works off an edge or a frame. -/
theorem step_decreases (work : s.frames ≠ []) :
    (s.step succ count).unnumbered count < s.unnumbered count ∨
      (s.step succ count).unnumbered count = s.unnumbered count ∧
        (s.step succ count).pending < s.pending := by
  unfold step
  split
  · next none => exact absurd none work
  · next v frames top =>
    right
    simp [unnumbered, pending, number?_leave, frames_leave, top]
  · next v w rest frames top =>
    unfold follow
    dsimp only
    split
    · next fresh =>
      split
      · next below =>
        left
        exact unnumbered_enter (s := { s with frames := ⟨v, rest⟩ :: frames }) below fresh
      · right
        simp [unnumbered, pending, top]
    · next number known =>
      right
      split <;> simp [unnumbered, pending, top, lower]

/-- Goes on until all frames are done. -/
def run (succ : Successors) (count : Nat) (s : Search) : Search :=
  if _work : s.frames = [] then s else run succ count (s.step succ count)
termination_by (s.unnumbered count, s.pending)
decreasing_by
  rcases step_decreases _work with fewer | ⟨same, less⟩
  · exact .left _ _ fewer
  · exact same ▸ .right _ less

/-- Searches from a node that has no number. -/
def root (succ : Successors) (count : Nat) (s : Search) (v : Nat) : Search :=
  if (s.number? v).isSome then s else (s.enter succ v).run succ count

end Search

/-- All components, in the order in which they are complete. -/
def lowLinkComponents (succ : Successors) (count : Nat) : List (List Nat) :=
  ((List.range count).foldl (Search.root succ count) .start).emitted

end Ripple.Graph
