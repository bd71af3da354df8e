import Mathlib.Data.List.Count
import Mathlib.Logic.Relation
import Ripple.Graph.Component

/-!
What a depth-first search sees. `Reaches` is the plain notion of a path, `Grows` what a search adds
to a trail and `Closed` that it takes every edge of what it adds. A search that may go as deep as
there are unseen nodes is never cut short, and so `reachable` lists exactly the nodes to which there
is a path, and `finishOrder` all nodes.
-/

namespace Ripple.Graph

/-- All edges stay below the count. -/
def Bounded (succ : Successors) (count : Nat) : Prop := ∀ v < count, ∀ w ∈ succ v, w < count

/-- There is a path from one node to the other. -/
def Reaches (succ : Successors) : Nat → Nat → Prop :=
  Relation.ReflTransGen fun v w => w ∈ succ v

variable {succ : Successors} {count v w : Nat}

theorem Reaches.lt (bounded : Bounded succ count) (path : Reaches succ v w) (below : v < count) :
    w < count := by
  induction path with
  | refl => exact below
  | tail _ edge ih => exact bounded _ ih _ edge

/-- A condition that is stronger, and strictly so for one element, holds for fewer elements. -/
theorem countP_lt_countP {α : Type} {p q : α → Bool} {l : List α} {x : α}
    (stronger : ∀ a ∈ l, p a → q a) (member : x ∈ l) (holds : q x) (fails : ¬ p x) :
    l.countP p < l.countP q := by
  have both : l.countP p = (l.filter q).countP p := by
    rw [List.countP_filter]
    exact List.countP_congr fun a there => by simpa using stronger a there
  rw [both, List.countP_eq_length_filter (p := q), List.countP_lt_length_iff]
  exact ⟨x, List.mem_filter.mpr ⟨member, holds⟩, by simpa using fails⟩

/-! ## What a search adds -/

/-- From one trail to a later one: no node gets lost, and the nodes that are new are left again. -/
structure Grows (before after : Trail) : Prop where
  seen : ∀ x ∈ before.seen, x ∈ after.seen
  finished : ∀ x, x ∈ after.finished ↔ x ∈ before.finished ∨ x ∈ after.seen ∧ x ∉ before.seen

theorem Grows.refl (trail : Trail) : Grows trail trail where
  seen _ there := there
  finished x := by simp

theorem Grows.trans {first second third : Trail} (before : Grows first second)
    (after : Grows second third) : Grows first third where
  seen x there := after.seen x (before.seen x there)
  finished x := by
    have kept := before.seen x
    have later := after.seen x
    rw [after.finished, before.finished]
    tauto

theorem grows_foldl {search : Trail → Nat → Trail} (grows : ∀ trail v, Grows trail (search trail v))
    (nodes : List Nat) (trail : Trail) : Grows trail (nodes.foldl search trail) := by
  induction nodes generalizing trail with
  | nil => exact .refl trail
  | cons v nodes ih => exact (grows trail v).trans (ih (search trail v))

theorem grows_visit (depth : Nat) (trail : Trail) (v : Nat) :
    Grows trail (visit succ depth trail v) := by
  induction depth generalizing trail v with
  | zero => exact .refl trail
  | succ depth ih =>
    unfold visit
    split
    · exact .refl trail
    · next fresh =>
      have below := grows_foldl ih (succ v) ⟨v :: trail.seen, trail.finished⟩
      have entered := below.seen v List.mem_cons_self
      constructor
      · intro x there
        exact below.seen x (List.mem_cons_of_mem v there)
      · intro x
        rw [List.mem_cons, below.finished, List.mem_cons]
        by_cases same : x = v
        · subst same
          simp [fresh, entered]
        · simp [same]

theorem reaches_of_mem_foldl {search : Trail → Nat → Trail}
    (sound : ∀ trail v x, x ∈ (search trail v).seen → x ∈ trail.seen ∨ Reaches succ v x)
    (nodes : List Nat) {trail : Trail} {x : Nat} (there : x ∈ (nodes.foldl search trail).seen) :
    x ∈ trail.seen ∨ ∃ w ∈ nodes, Reaches succ w x := by
  induction nodes generalizing trail with
  | nil => exact .inl there
  | cons w nodes ih =>
    rcases ih there with near | ⟨u, member, path⟩
    · rcases sound _ _ _ near with old | path
      · exact .inl old
      · exact .inr ⟨w, List.mem_cons_self, path⟩
    · exact .inr ⟨u, List.mem_cons_of_mem w member, path⟩

/-- What a search sees that was not seen before can be reached from where it starts. -/
theorem reaches_of_mem_visit (depth : Nat) (trail : Trail) (v x : Nat)
    (there : x ∈ (visit succ depth trail v).seen) : x ∈ trail.seen ∨ Reaches succ v x := by
  induction depth generalizing trail v x with
  | zero => exact .inl there
  | succ depth ih =>
    unfold visit at there
    split at there
    · exact .inl there
    · rcases reaches_of_mem_foldl ih _ there with near | ⟨w, edge, path⟩
      · rcases List.mem_cons.mp near with rfl | old
        · exact .inr .refl
        · exact .inl old
      · exact .inr (.head edge path)

/-! ## What a search completes -/

/-- How many nodes below the count are not seen yet. -/
def unseen (count : Nat) (trail : Trail) : Nat :=
  (List.range count).countP fun x => x ∉ trail.seen

theorem unseen_le_count (trail : Trail) : unseen count trail ≤ count :=
  Nat.le_trans List.countP_le_length (Nat.le_of_eq List.length_range)

theorem unseen_le {before after : Trail} (grows : Grows before after) :
    unseen count after ≤ unseen count before := by
  refine List.countP_mono_left ?_
  intro x _
  simpa using fun fresh there => fresh (grows.seen x there)

theorem unseen_enter {trail : Trail} (below : v < count) (fresh : v ∉ trail.seen) :
    unseen count ⟨v :: trail.seen, trail.finished⟩ < unseen count trail := by
  refine countP_lt_countP (x := v) (fun x _ => ?_) (List.mem_range.mpr below) (by simpa using fresh)
    (by simp)
  simp

/-- Every edge of a node that is new was taken. -/
def Closed (succ : Successors) (before after : Trail) : Prop :=
  ∀ x ∈ after.seen, x ∉ before.seen → ∀ y ∈ succ x, y ∈ after.seen

theorem Closed.trans {first second third : Trail} (before : Closed succ first second)
    (after : Closed succ second third) (grows : Grows second third) : Closed succ first third := by
  intro x there fresh y edge
  by_cases early : x ∈ second.seen
  · exact grows.seen y (before x early fresh y edge)
  · exact after x there early y edge

theorem foldl_complete {search : Trail → Nat → Trail} {depth : Nat}
    (grows : ∀ trail v, Grows trail (search trail v))
    (complete : ∀ trail v, unseen count trail ≤ depth → v < count →
      v ∈ (search trail v).seen ∧ Closed succ trail (search trail v))
    {nodes : List Nat} (inside : ∀ v ∈ nodes, v < count) (trail : Trail)
    (enough : unseen count trail ≤ depth) :
    (∀ v ∈ nodes, v ∈ (nodes.foldl search trail).seen) ∧
      Closed succ trail (nodes.foldl search trail) := by
  induction nodes generalizing trail with
  | nil => exact ⟨by simp, fun x there fresh => absurd there fresh⟩
  | cons w nodes ih =>
    have later := grows_foldl grows nodes (search trail w)
    obtain ⟨entered, closed⟩ := complete trail w enough (inside w List.mem_cons_self)
    obtain ⟨others, rest⟩ := ih (fun u member => inside u (List.mem_cons_of_mem w member)) _
      (Nat.le_trans (unseen_le (grows trail w)) enough)
    refine ⟨fun u member => ?_, closed.trans rest later⟩
    rcases List.mem_cons.mp member with rfl | member
    · exact later.seen u entered
    · exact others u member

/-- A search that can go as deep as there are unseen nodes sees its node and takes all edges. -/
theorem visit_complete (bounded : Bounded succ count) (depth : Nat) (trail : Trail) (v : Nat)
    (enough : unseen count trail ≤ depth) (below : v < count) :
    v ∈ (visit succ depth trail v).seen ∧ Closed succ trail (visit succ depth trail v) := by
  induction depth generalizing trail v with
  | zero =>
    have all := List.countP_eq_zero.mp (Nat.le_zero.mp enough) v (List.mem_range.mpr below)
    exact ⟨by simpa [visit] using all, fun x there fresh => absurd there fresh⟩
  | succ depth ih =>
    unfold visit
    split
    · next old => exact ⟨old, fun x there fresh => absurd there fresh⟩
    · next fresh =>
      let entered : Trail := ⟨v :: trail.seen, trail.finished⟩
      have fewer : unseen count entered < unseen count trail := unseen_enter below fresh
      obtain ⟨taken, closed⟩ := foldl_complete (grows_visit depth) ih (bounded v below) entered
        (by omega)
      have grows : Grows entered ((succ v).foldl (visit succ depth) entered) :=
        grows_foldl (grows_visit depth) _ _
      refine ⟨grows.seen v List.mem_cons_self, ?_⟩
      intro x there new y edge
      by_cases same : x = v
      · exact taken y (same ▸ edge)
      · exact closed x there (by simp [entered, same, new]) y edge

/-- The nodes that a search from a node sees are those to which there is a path. -/
theorem mem_reachable_iff (bounded : Bounded succ count) (below : v < count) :
    w ∈ reachable succ count v ↔ Reaches succ v w := by
  obtain ⟨entered, closed⟩ :=
    visit_complete bounded count ⟨[], []⟩ v (unseen_le_count _) below
  constructor
  · intro there
    rcases reaches_of_mem_visit _ _ _ _ there with none | path
    · cases none
    · exact path
  · intro path
    induction path with
    | refl => exact entered
    | tail _ edge ih => exact closed _ ih List.not_mem_nil _ edge

/-- A search from each node in turn finishes every node and no other. -/
theorem mem_finishOrder_iff (bounded : Bounded succ count) :
    v ∈ finishOrder succ count ↔ v < count := by
  let all := (List.range count).foldl (visit succ count) ⟨[], []⟩
  have grows : Grows ⟨[], []⟩ all := grows_foldl (grows_visit count) _ _
  obtain ⟨entered, -⟩ := foldl_complete (grows_visit count) (visit_complete bounded count)
    (fun w => List.mem_range.mp) ⟨[], []⟩ (unseen_le_count _)
  have finished : v ∈ finishOrder succ count ↔ v ∈ all.seen := by
    have final := grows.finished v
    simp only [List.not_mem_nil, false_or, not_false_eq_true, and_true] at final
    exact final
  rw [finished]
  constructor
  · intro there
    rcases reaches_of_mem_foldl (reaches_of_mem_visit count) _ there with none | ⟨w, member, path⟩
    · cases none
    · exact path.lt bounded (List.mem_range.mp member)
  · intro below
    exact entered v (List.mem_range.mpr below)

end Ripple.Graph
