import Mathlib.Data.List.Nodup
import Ripple.Graph.LowLink
import Ripple.Proofs.EvaluationOrder

/-!
The search by low links completes the components one after the other, each when it leaves the node
of the component that it entered first. What makes this work is said about the nodes on the stack:
those above a node that was not left yet can be reached from it, those that were left reach a node
further down, and an edge that leads down the stack has lowered a low link on the way (`Linked`).
Nothing leads out of the components that are complete (`Complete`), so that a path from the stack
stays on it or is lost to the stack for good.
-/

namespace Ripple.Graph

variable {succ : Successors} {count : Nat}

/-- Components as they are completed: each ascending, with no edge to a later one or to a node in
none of them. -/
structure Complete (succ : Successors) (count : Nat) (cs : List (List Nat)) : Prop
    extends Classes succ count cs where
  ascending : ∀ c ∈ cs, c.Pairwise (· < ·)
  backward : cs.Pairwise fun c d => ∀ v ∈ c, ∀ w ∈ succ v, w ∉ d
  closed : ∀ v ∈ cs.flatten, ∀ w ∈ succ v, w ∈ cs.flatten

/-- A list without repetitions is sorted into strictly ascending order. -/
theorem pairwise_lt_mergeSort {l : List Nat} (nodup : l.Nodup) : l.mergeSort.Pairwise (· < ·) := by
  have sorted : l.mergeSort.Pairwise (· ≤ ·) := pairwise_mergeSort_key id l
  have distinct : l.mergeSort.Nodup := (List.mergeSort_perm l _).nodup_iff.mpr nodup
  exact (sorted.and distinct).imp fun both => Nat.lt_of_le_of_ne both.1 both.2

theorem Complete.of_reaches {cs : List (List Nat)} (complete : Complete succ count cs) {v w : Nat}
    (here : v ∈ cs.flatten) (path : Reaches succ v w) : w ∈ cs.flatten := by
  induction path with
  | refl => exact here
  | tail _ edge ih => exact complete.closed _ ih _ edge

namespace Search

variable {s : Search} {v w x y : Nat}

/-- The nodes that were not left yet. -/
def active (s : Search) : List Nat := s.frames.map Frame.node

/-- The number of a node that has one. -/
def number (s : Search) (v : Nat) : Nat := (s.number? v).getD 0

/-- How numbers, stack and frames fit: the stack descends, the open nodes are on it in their order,
and below every node on it, or at it, is an open one. -/
structure Shaped (count : Nat) (s : Search) : Prop where
  onStack_iff : ∀ x, s.onStack x = true ↔ x ∈ s.stack
  numbered_iff : ∀ x, (s.number? x).isSome ↔ x ∈ s.emitted.flatten ∨ x ∈ s.stack
  number_lt : ∀ x n, s.number? x = some n → x < count ∧ n < s.next
  descending : s.stack.Pairwise fun x y => s.number y < s.number x
  sublist : s.active.Sublist s.stack
  owned : ∀ x ∈ s.stack, ∃ v ∈ s.active, s.number v ≤ s.number x
  apart : ∀ x ∈ s.stack, x ∉ s.emitted.flatten

/-- An edge that was taken from a node on the stack: it leads to a complete component, or to a node
on the stack, and then there is, from each open node below the source on, one with a low link that
takes account of the edge. -/
def Settled (s : Search) (x y : Nat) : Prop :=
  y ∈ s.emitted.flatten ∨ y ∈ s.stack ∧ ∀ v ∈ s.active, s.number v ≤ s.number x →
    ∃ u ∈ s.active, s.number v ≤ s.number u ∧ s.number u ≤ s.number x ∧ s.low u ≤ s.number y

/-- What the search knows of the edges between nodes on the stack. -/
structure Linked (succ : Successors) (s : Search) : Prop where
  edges : ∀ f ∈ s.frames, ∀ w ∈ f.rest, w ∈ succ f.node
  settled : ∀ x ∈ s.stack, ∀ y ∈ succ x, (∃ f ∈ s.frames, f.node = x ∧ y ∈ f.rest) ∨ s.Settled x y
  leads : ∀ v ∈ s.active, ∀ x ∈ s.stack, s.number v ≤ s.number x → Reaches succ v x
  low_le : ∀ v ∈ s.active, s.low v ≤ s.number v
  low_reached : ∀ v ∈ s.active, ∃ y ∈ s.stack, s.number y = s.low v ∧ Reaches succ v y
  falls : ∀ x ∈ s.stack, x ∉ s.active → ∃ y ∈ s.stack, s.number y < s.number x ∧ Reaches succ x y

/-- The invariant of the search. -/
structure Inv (succ : Successors) (count : Nat) (s : Search) : Prop where
  shaped : s.Shaped count
  linked : s.Linked succ
  complete : Complete succ count s.emitted

theorem inv_start : Inv succ count start where
  shaped := by constructor <;> simp [start, active]
  linked := by constructor <;> simp [start, active]
  complete := ⟨⟨by simp [start], .nil⟩, by simp [start], .nil, by simp [start]⟩

/-! ## Lowering a low link -/

theorem low_lower_self (v number : Nat) : (s.lower v number).low v = min (s.low v) number := by
  simp [lower, assign]

theorem low_lower_of_ne (number : Nat) (differ : x ≠ v) : (s.lower v number).low x = s.low x := by
  simp [lower, assign, differ]

theorem low_lower_le (v number x : Nat) : (s.lower v number).low x ≤ s.low x := by
  by_cases here : x = v
  · subst here
    rw [low_lower_self]
    exact Nat.min_le_left ..
  · rw [low_lower_of_ne number here]

theorem inv_lower (inv : Inv succ count s) (here : y ∈ s.stack) (path : Reaches succ v y) :
    Inv succ count (s.lower v (s.number y)) where
  shaped := ⟨inv.shaped.onStack_iff, inv.shaped.numbered_iff, inv.shaped.number_lt,
    inv.shaped.descending, inv.shaped.sublist, inv.shaped.owned, inv.shaped.apart⟩
  complete := inv.complete
  linked.edges := inv.linked.edges
  linked.leads := inv.linked.leads
  linked.falls := inv.linked.falls
  linked.settled x inside z edge := by
    refine (inv.linked.settled x inside z edge).imp_right (Or.imp_right ?_)
    rintro ⟨stacked, lowered⟩
    refine ⟨stacked, fun u isActive below => ?_⟩
    obtain ⟨t, between, least, most, low⟩ := lowered u isActive below
    exact ⟨t, between, least, most, Nat.le_trans (low_lower_le ..) low⟩
  linked.low_le u isActive := Nat.le_trans (low_lower_le ..) (inv.linked.low_le u isActive)
  linked.low_reached u isActive := by
    obtain ⟨z, stacked, number, found⟩ := inv.linked.low_reached u isActive
    by_cases same : u = v
    · subst same
      rw [low_lower_self]
      rcases Nat.le_total (s.low u) (s.number y) with kept | less
      · exact ⟨z, stacked, number.trans (Nat.min_eq_left kept).symm, found⟩
      · exact ⟨y, here, (Nat.min_eq_right less).symm, path⟩
    · rw [low_lower_of_ne _ same]
      exact ⟨z, stacked, number, found⟩

/-! ## Taking edges -/

/-- Frames may lose edges that are settled. -/
theorem inv_reframe (inv : Inv succ count s) {frames : List Frame}
    (nodes : frames.map Frame.node = s.active) (edges : ∀ f ∈ frames, ∀ w ∈ f.rest, w ∈ succ f.node)
    (settled : ∀ f ∈ s.frames, ∀ y ∈ f.rest,
      (∃ g ∈ frames, g.node = f.node ∧ y ∈ g.rest) ∨ s.Settled f.node y) :
    Inv succ count { s with frames := frames } := by
  have active : active { s with frames := frames } = s.active := nodes
  have same (x y : Nat) : Settled { s with frames := frames } x y ↔ s.Settled x y := by
    unfold Settled
    rw [active]
    rfl
  obtain ⟨shaped, linked, complete⟩ := inv
  refine ⟨⟨shaped.onStack_iff, shaped.numbered_iff, shaped.number_lt, shaped.descending,
    active ▸ shaped.sublist, active ▸ shaped.owned, shaped.apart⟩,
    ⟨edges, ?_, active ▸ linked.leads, active ▸ linked.low_le, active ▸ linked.low_reached,
    active ▸ linked.falls⟩, complete⟩
  intro x stacked y edge
  rw [same]
  rcases linked.settled x stacked y edge with ⟨f, member, rfl, rest⟩ | known
  · exact settled f member y rest
  · exact .inr known

/-- An edge that is settled is done with. -/
theorem inv_take (inv : Inv succ count s) (front : List Frame) {rest : List Nat}
    {frames : List Frame} (split : s.frames = front ++ ⟨v, w :: rest⟩ :: frames) (settled : s.Settled v w) :
    Inv succ count { s with frames := front ++ ⟨v, rest⟩ :: frames } := by
  have edges := inv.linked.edges
  rw [split] at edges
  simp only [List.forall_mem_append, List.forall_mem_cons] at edges
  refine inv_reframe inv ?_ ?_ ?_
  · simp [active, split]
  · simp only [List.forall_mem_append, List.forall_mem_cons]
    exact ⟨edges.1, edges.2.1.2, edges.2.2⟩
  · intro f member y pending
    rw [split] at member
    rcases List.mem_append.mp member with before | member
    · exact .inl ⟨f, List.mem_append_left _ before, rfl, pending⟩
    · rcases List.mem_cons.mp member with rfl | after
      · rcases List.mem_cons.mp pending with rfl | later
        · exact .inr settled
        · exact .inl ⟨⟨v, rest⟩, List.mem_append_right _ List.mem_cons_self, rfl, later⟩
      · exact .inl ⟨f, List.mem_append_right _ (List.mem_cons_of_mem _ after), rfl, pending⟩

/-! ## Entering a node -/

theorem number_enter_self (v : Nat) : (s.enter succ v).number v = s.next := by
  simp [number, enter, assign]

theorem number_enter_of_ne (differ : x ≠ v) : (s.enter succ v).number x = s.number x := by
  simp [number, enter, assign, differ]

theorem low_enter_self (v : Nat) : (s.enter succ v).low v = s.next := by
  simp [enter, assign]

theorem low_enter_of_ne (differ : x ≠ v) : (s.enter succ v).low x = s.low x := by
  simp [enter, assign, differ]

namespace Shaped

variable (shaped : s.Shaped count)
include shaped

theorem number?_eq (stacked : x ∈ s.stack) : s.number? x = some (s.number x) := by
  obtain ⟨n, known⟩ := Option.isSome_iff_exists.mp ((shaped.numbered_iff x).mpr (.inr stacked))
  rw [number, known]
  rfl

theorem number_lt_next (stacked : x ∈ s.stack) : s.number x < s.next :=
  (shaped.number_lt x _ (shaped.number?_eq stacked)).2

theorem stacked_lt (stacked : x ∈ s.stack) : x < count :=
  (shaped.number_lt x _ (shaped.number?_eq stacked)).1

theorem ne_of_fresh (fresh : s.number? v = none) (stacked : x ∈ s.stack) : x ≠ v := by
  rintro rfl
  rw [shaped.number?_eq stacked] at fresh
  cases fresh

theorem active_stacked (isActive : v ∈ s.active) : v ∈ s.stack := shaped.sublist.subset isActive

theorem enter (fresh : s.number? v = none) (below : v < count) :
    (s.enter succ v).Shaped count where
  onStack_iff x := by
    by_cases here : x = v
    · simp [Search.enter, assign, here]
    · simp [Search.enter, assign, here, shaped.onStack_iff]
  numbered_iff x := by
    by_cases here : x = v
    · simp [Search.enter, assign, here]
    · simp [Search.enter, assign, here, shaped.numbered_iff]
  number_lt x n known := by
    by_cases here : x = v
    · simp only [Search.enter, assign, here, ↓reduceIte, Option.some.injEq] at known ⊢
      exact ⟨below, by omega⟩
    · simp only [Search.enter, assign, here, ↓reduceIte] at known ⊢
      exact ⟨(shaped.number_lt x n known).1, Nat.lt_succ_of_lt (shaped.number_lt x n known).2⟩
  descending := by
    refine List.pairwise_cons.mpr ⟨fun x stacked => ?_, ?_⟩
    · rw [number_enter_self, number_enter_of_ne (shaped.ne_of_fresh fresh stacked)]
      exact shaped.number_lt_next stacked
    · refine shaped.descending.imp_of_mem ?_
      intro x y hx hy less
      rwa [number_enter_of_ne (shaped.ne_of_fresh fresh hx),
        number_enter_of_ne (shaped.ne_of_fresh fresh hy)]
  sublist := shaped.sublist.cons_cons v
  owned x stacked := by
    rcases List.mem_cons.mp stacked with rfl | stacked
    · exact ⟨x, List.mem_cons_self, Nat.le_refl _⟩
    · obtain ⟨u, isActive, least⟩ := shaped.owned x stacked
      refine ⟨u, List.mem_cons_of_mem v isActive, ?_⟩
      rwa [number_enter_of_ne (shaped.ne_of_fresh fresh stacked),
        number_enter_of_ne (shaped.ne_of_fresh fresh (shaped.active_stacked isActive))]
  apart x stacked emitted := by
    rcases List.mem_cons.mp stacked with rfl | stacked
    · have numbered := (shaped.numbered_iff x).mpr (.inl emitted)
      simp [fresh] at numbered
    · exact shaped.apart x stacked emitted

end Shaped

theorem Linked.enter (linked : s.Linked succ) (shaped : s.Shaped count)
    (fresh : s.number? v = none) (reached : ∀ u ∈ s.active, Reaches succ u v) :
    (s.enter succ v).Linked succ := by
  have differs {x : Nat} (stacked : x ∈ s.stack) : x ≠ v := shaped.ne_of_fresh fresh stacked
  have number {x : Nat} (stacked : x ∈ s.stack) : (s.enter succ v).number x = s.number x :=
    number_enter_of_ne (differs stacked)
  have latest : (s.enter succ v).number v = s.next := number_enter_self v
  have stackedOf {x : Nat} (isActive : x ∈ s.active) : x ∈ s.stack :=
    shaped.active_stacked isActive
  refine ⟨?_, ?_, ?_, ?_, ?_, ?_⟩
  · exact List.forall_mem_cons.mpr ⟨fun w edge => edge, linked.edges⟩
  · intro x member y edge
    rcases List.mem_cons.mp member with rfl | stacked
    · exact .inl ⟨_, List.mem_cons_self, rfl, edge⟩
    · rcases linked.settled x stacked y edge with ⟨f, there, rest⟩ | emitted | ⟨target, lowered⟩
      · exact .inl ⟨f, List.mem_cons_of_mem _ there, rest⟩
      · exact .inr (.inl emitted)
      · refine .inr (.inr ⟨List.mem_cons_of_mem v target, fun u isOpen least => ?_⟩)
        rw [number stacked] at least ⊢
        rcases List.mem_cons.mp isOpen with rfl | isActive
        · have earlier := shaped.number_lt_next stacked
          omega
        · rw [number (stackedOf isActive)] at least ⊢
          obtain ⟨t, between, first, second, low⟩ := lowered u isActive least
          refine ⟨t, List.mem_cons_of_mem v between, ?_⟩
          rw [number target, number (stackedOf between),
            low_enter_of_ne (differs (stackedOf between))]
          exact ⟨first, second, low⟩
  · intro u isOpen x member least
    rcases List.mem_cons.mp member with rfl | stacked
    · rcases List.mem_cons.mp isOpen with rfl | isActive
      · exact .refl
      · exact reached u isActive
    · rw [number stacked] at least
      rcases List.mem_cons.mp isOpen with rfl | isActive
      · have earlier := shaped.number_lt_next stacked
        omega
      · rw [number (stackedOf isActive)] at least
        exact linked.leads u isActive x stacked least
  · intro u isOpen
    rcases List.mem_cons.mp isOpen with rfl | isActive
    · rw [low_enter_self, latest]
    · rw [low_enter_of_ne (differs (stackedOf isActive)), number (stackedOf isActive)]
      exact linked.low_le u isActive
  · intro u isOpen
    rcases List.mem_cons.mp isOpen with rfl | isActive
    · exact ⟨u, List.mem_cons_self, latest.trans (low_enter_self u).symm, .refl⟩
    · obtain ⟨y, stacked, low, path⟩ := linked.low_reached u isActive
      refine ⟨y, List.mem_cons_of_mem v stacked, ?_, path⟩
      rw [number stacked, low_enter_of_ne (differs (stackedOf isActive)), low]
  · intro x member left
    rcases List.mem_cons.mp member with rfl | stacked
    · exact absurd List.mem_cons_self left
    · obtain ⟨y, target, lower, path⟩ :=
        linked.falls x stacked fun isActive => left (List.mem_cons_of_mem v isActive)
      refine ⟨y, List.mem_cons_of_mem v target, ?_, path⟩
      rw [number stacked, number target]
      exact lower

/-- A new node is entered, at the end of the path that the open nodes form. -/
theorem inv_enter (inv : Inv succ count s) (fresh : s.number? v = none) (below : v < count)
    (reached : ∀ u ∈ s.active, Reaches succ u v) : Inv succ count (s.enter succ v) :=
  ⟨inv.shaped.enter fresh below, inv.linked.enter inv.shaped fresh reached, inv.complete⟩

/-! ## Leaving a node that is not the first of its component -/

variable {frames : List Frame} {rest : List Nat}

theorem active_of_top (top : s.frames = ⟨v, rest⟩ :: frames) :
    s.active = v :: frames.map Frame.node := by
  rw [active, top, List.map_cons]

theorem mem_active_of_top (top : s.frames = ⟨v, rest⟩ :: frames) : v ∈ s.active :=
  active_of_top top ▸ List.mem_cons_self

theorem active_of_still (top : s.frames = ⟨v, rest⟩ :: frames)
    (still : x ∈ frames.map Frame.node) : x ∈ s.active :=
  active_of_top top ▸ List.mem_cons_of_mem v still

theorem still_of_lt (top : s.frames = ⟨v, rest⟩ :: frames) (isActive : x ∈ s.active)
    (less : s.number x < s.number v) : x ∈ frames.map Frame.node := by
  rw [active_of_top top] at isActive
  refine (List.mem_cons.mp isActive).resolve_left ?_
  rintro rfl
  exact Nat.lt_irrefl _ less

/-- When the node of the latest frame is left, no edge of it is to come. -/
theorem Linked.settled_of_top (linked : s.Linked succ) (top : s.frames = ⟨v, []⟩ :: frames)
    (stacked : x ∈ s.stack) (edge : y ∈ succ x) :
    (∃ f ∈ frames, f.node = x ∧ y ∈ f.rest) ∨ s.Settled x y := by
  refine (linked.settled x stacked y edge).imp_left ?_
  rintro ⟨f, member, same, rest⟩
  rw [top] at member
  rcases List.mem_cons.mp member with rfl | still
  · cases rest
  · exact ⟨f, still, same, rest⟩

/-- The open nodes have ascending numbers from the first frame made to the latest. -/
theorem Shaped.descending_active (shaped : s.Shaped count) :
    s.active.Pairwise fun x y => s.number y < s.number x :=
  shaped.descending.sublist shaped.sublist

/-- The other open nodes have lesser numbers than the node of the latest frame. -/
theorem Shaped.lt_top (shaped : s.Shaped count) (top : s.frames = ⟨v, rest⟩ :: frames) :
    ∀ u ∈ frames.map Frame.node, s.number u < s.number v := by
  have descending := shaped.descending_active
  rw [active_of_top top] at descending
  exact (List.pairwise_cons.mp descending).1

theorem Shaped.eq_top (shaped : s.Shaped count) (top : s.frames = ⟨v, rest⟩ :: frames)
    (isActive : x ∈ s.active) (high : s.number v ≤ s.number x) : x = v := by
  rw [active_of_top top] at isActive
  rcases List.mem_cons.mp isActive with same | later
  · exact same
  · exact absurd (shaped.lt_top top x later) (Nat.not_lt.mpr high)

theorem Shaped.retire (shaped : s.Shaped count) (top : s.frames = ⟨v, []⟩ :: frames)
    (stacked : y ∈ s.stack) (lower : s.number y < s.number v) :
    Shaped count { s with frames := frames } := by
  refine ⟨shaped.onStack_iff, shaped.numbered_iff, shaped.number_lt, shaped.descending, ?_, ?_,
    shaped.apart⟩
  · exact (List.sublist_cons_self v _).trans (active_of_top top ▸ shaped.sublist)
  · intro x member
    change ∃ u ∈ frames.map Frame.node, s.number u ≤ s.number x
    obtain ⟨u, isActive, least⟩ := shaped.owned x member
    by_cases latest : u = v
    · -- the open node at or below `y` is another one, and below `x` as well
      subst latest
      obtain ⟨t, isActive, below⟩ := shaped.owned y stacked
      exact ⟨t, still_of_lt top isActive (by omega), by omega⟩
    · rw [active_of_top top] at isActive
      exact ⟨u, (List.mem_cons.mp isActive).resolve_left latest, least⟩

/-- The node before the latest one has the greatest number of those that stay open. -/
theorem Shaped.le_parent (shaped : s.Shaped count) {parent : Frame} {others : List Frame}
    (top : s.frames = ⟨v, []⟩ :: parent :: others)
    (still : x ∈ (parent :: others).map Frame.node) : s.number x ≤ s.number parent.node := by
  have descending := shaped.descending_active
  rw [active_of_top top, List.pairwise_cons, List.map_cons, List.pairwise_cons] at descending
  rcases List.mem_cons.mp still with rfl | later
  · exact Nat.le_refl _
  · exact Nat.le_of_lt (descending.2.1 x later)

theorem Linked.retire (linked : s.Linked succ) (shaped : s.Shaped count)
    (top : s.frames = ⟨v, []⟩ :: frames) (lower : s.low v < s.number v)
    (passed : ∀ parent ∈ frames.head?, s.low parent.node ≤ s.low v) :
    Linked succ { s with frames := frames } := by
  refine ⟨?_, ?_, ?_, ?_, ?_, ?_⟩
  · exact fun f member => linked.edges f (top ▸ List.mem_cons_of_mem _ member)
  · intro x member z edge
    rcases linked.settled_of_top top member edge with pending | emitted | ⟨target, lowered⟩
    · exact .inl pending
    · exact .inr (.inl emitted)
    · refine .inr (.inr ⟨target, fun u still least => ?_⟩)
      obtain ⟨t, between, first, second, lowered⟩ := lowered u (active_of_still top still) least
      rw [active_of_top top] at between
      rcases List.mem_cons.mp between with rfl | between
      · -- what the node that is left knows went to the one before it
        obtain ⟨parent, others, rfl⟩ : ∃ parent others, frames = parent :: others :=
          List.exists_cons_of_ne_nil (by rintro rfl; cases still)
        have own : parent.node ∈ (parent :: others).map Frame.node := List.mem_cons_self
        have less := shaped.lt_top top _ own
        exact ⟨parent.node, own, shaped.le_parent top still, Nat.le_trans (Nat.le_of_lt less) second,
          Nat.le_trans (passed parent rfl) lowered⟩
      · exact ⟨t, between, first, second, lowered⟩
  · exact fun u still => linked.leads u (active_of_still top still)
  · exact fun u still => linked.low_le u (active_of_still top still)
  · exact fun u still => linked.low_reached u (active_of_still top still)
  · intro x member left
    by_cases here : x = v
    · subst here
      obtain ⟨y, stacked, low, path⟩ := linked.low_reached x (mem_active_of_top top)
      exact ⟨y, stacked, low ▸ lower, path⟩
    · refine linked.falls x member fun isActive => ?_
      rw [active_of_top top] at isActive
      exact (List.mem_cons.mp isActive).elim here left

/-- A node with a low link below its number stays on the stack, if the open node before it has a low
link as low. -/
theorem inv_retire (inv : Inv succ count s) (top : s.frames = ⟨v, []⟩ :: frames)
    (lower : s.low v < s.number v)
    (passed : ∀ parent ∈ frames.head?, s.low parent.node ≤ s.low v) :
    Inv succ count { s with frames := frames } := by
  obtain ⟨y, stacked, low, -⟩ := inv.linked.low_reached v (mem_active_of_top top)
  exact ⟨inv.shaped.retire top stacked (low ▸ lower),
    inv.linked.retire inv.shaped top lower passed, inv.complete⟩

/-! ## Completing a component -/

/-- A stack is cut below a node that is on it. -/
theorem popTo_eq {stack : List Nat} (member : v ∈ stack) :
    ∃ above below, stack = above ++ v :: below ∧ popTo v stack = (above ++ [v], below) := by
  induction stack with
  | nil => cases member
  | cons w stack ih =>
    unfold popTo
    by_cases here : w = v
    · exact ⟨[], stack, by rw [here, List.nil_append], by rw [if_pos here, here, List.nil_append]⟩
    · obtain ⟨above, below, split, popped⟩ :=
        ih ((List.mem_cons.mp member).resolve_left (Ne.symm here))
      exact ⟨w :: above, below, by rw [split, List.cons_append], by rw [if_neg here, popped]; rfl⟩

/-- A division of the stack by number, at an open node. -/
structure Cut (s : Search) (v : Nat) (component below : List Nat) : Prop where
  split : s.stack = component ++ below
  mem_iff : ∀ x, x ∈ component ↔ x ∈ s.stack ∧ s.number v ≤ s.number x
  mem_below_iff : ∀ x, x ∈ below ↔ x ∈ s.stack ∧ s.number x < s.number v

theorem Shaped.cut (shaped : s.Shaped count) (stacked : v ∈ s.stack) :
    ∃ component below, popTo v s.stack = (component, below) ∧ s.Cut v component below := by
  obtain ⟨above, below, split, popped⟩ := popTo_eq stacked
  have descending := shaped.descending
  rw [split, List.pairwise_append, List.pairwise_cons] at descending
  obtain ⟨-, ⟨lower, -⟩, higher⟩ := descending
  refine ⟨above ++ [v], below, popped, by simp [split], ?_, ?_⟩
  · intro x
    rw [split]
    constructor
    · intro inside
      rcases List.mem_append.mp inside with high | own
      · exact ⟨List.mem_append_left _ high, Nat.le_of_lt (higher x high v List.mem_cons_self)⟩
      · obtain rfl := List.mem_singleton.mp own
        exact ⟨by simp, Nat.le_refl _⟩
    · rintro ⟨member, high⟩
      rcases List.mem_append.mp member with inside | own
      · exact List.mem_append_left _ inside
      · rcases List.mem_cons.mp own with rfl | low
        · simp
        · exact absurd (lower x low) (Nat.not_lt.mpr high)
  · intro x
    rw [split]
    constructor
    · intro low
      exact ⟨by simp [low], lower x low⟩
    · rintro ⟨member, low⟩
      rcases List.mem_append.mp member with high | own
      · exact absurd (higher x high v List.mem_cons_self) (Nat.not_lt.mpr (Nat.le_of_lt low))
      · rcases List.mem_cons.mp own with rfl | inside
        · exact absurd low (Nat.lt_irrefl _)
        · exact inside

theorem Shaped.nodup (shaped : s.Shaped count) : s.stack.Nodup :=
  shaped.descending.imp fun lower => by rintro rfl; exact Nat.lt_irrefl _ lower

/-- The search when a component was taken off the stack and its first node left. -/
def completed (s : Search) (frames : List Frame) (component below : List Nat) : Search :=
  { s with
    frames := frames
    onStack := fun w => if w ∈ component then false else s.onStack w
    stack := below
    emitted := s.emitted ++ [component.mergeSort] }

theorem mem_flatten_completed {component below : List Nat} :
    x ∈ (s.completed frames component below).emitted.flatten ↔
      x ∈ s.emitted.flatten ∨ x ∈ component := by
  simp [completed]

theorem Shaped.completed {component below : List Nat} (shaped : s.Shaped count)
    (top : s.frames = ⟨v, []⟩ :: frames) (cut : s.Cut v component below) :
    (s.completed frames component below).Shaped count := by
  obtain ⟨split, mem_iff, mem_below_iff⟩ := cut
  refine ⟨?_, ?_, shaped.number_lt, ?_, ?_, ?_, ?_⟩
  · intro x
    change (if x ∈ component then false else s.onStack x) = true ↔ x ∈ below
    rw [mem_below_iff]
    by_cases inside : x ∈ component
    · have high := ((mem_iff x).mp inside).2
      simp [inside, Nat.not_lt.mpr high]
    · have low (stacked : x ∈ s.stack) : s.number x < s.number v :=
        Nat.not_le.mp fun high => inside ((mem_iff x).mpr ⟨stacked, high⟩)
      simp only [inside, ↓reduceIte, shaped.onStack_iff]
      exact ⟨fun stacked => ⟨stacked, low stacked⟩, And.left⟩
  · intro x
    have numbered := shaped.numbered_iff x
    rw [split, List.mem_append, ← or_assoc] at numbered
    rw [mem_flatten_completed]
    exact numbered
  · exact shaped.descending.sublist (split ▸ List.sublist_append_right ..)
  · -- the open nodes but the latest are on the part that stays, for their numbers
    have kept := (active_of_top top ▸ shaped.sublist).filter
      fun x => decide (s.number x < s.number v)
    rw [split, List.filter_append, List.filter_cons_of_neg (by simp),
      List.filter_eq_self.mpr fun u still => decide_eq_true (shaped.lt_top top u still),
      List.filter_eq_self.mpr fun x inside => decide_eq_true ((mem_below_iff x).mp inside).2,
      List.filter_eq_nil_iff.mpr fun x inside => by simpa using ((mem_iff x).mp inside).2,
      List.nil_append] at kept
    exact kept
  · intro x inside
    obtain ⟨stacked, low⟩ := (mem_below_iff x).mp inside
    obtain ⟨u, isActive, least⟩ := shaped.owned x stacked
    exact ⟨u, still_of_lt top isActive (Nat.lt_of_le_of_lt least low), least⟩
  · intro x inside emitted
    obtain ⟨stacked, low⟩ := (mem_below_iff x).mp inside
    rcases mem_flatten_completed.mp emitted with old | new
    · exact shaped.apart x stacked old
    · exact Nat.not_lt.mpr ((mem_iff x).mp new).2 low

theorem Linked.completed {component below : List Nat} (linked : s.Linked succ)
    (shaped : s.Shaped count) (top : s.frames = ⟨v, []⟩ :: frames)
    (cut : s.Cut v component below) : (s.completed frames component below).Linked succ := by
  obtain ⟨-, mem_iff, mem_below_iff⟩ := cut
  refine ⟨?_, ?_, ?_, ?_, ?_, ?_⟩
  · exact fun f member => linked.edges f (top ▸ List.mem_cons_of_mem _ member)
  · intro x inside y edge
    obtain ⟨stacked, low⟩ := (mem_below_iff x).mp inside
    rcases linked.settled_of_top top stacked edge with pending | emitted | ⟨target, lowered⟩
    · exact .inl pending
    · exact .inr (.inl (mem_flatten_completed.mpr (.inl emitted)))
    · by_cases high : s.number v ≤ s.number y
      · exact .inr (.inl (mem_flatten_completed.mpr (.inr ((mem_iff y).mpr ⟨target, high⟩))))
      · have stays := (mem_below_iff y).mpr ⟨target, Nat.not_le.mp high⟩
        refine .inr (.inr ⟨stays, fun u still least => ?_⟩)
        obtain ⟨t, between, first, second, lowered⟩ := lowered u (active_of_still top still) least
        exact ⟨t, still_of_lt top between (Nat.lt_of_le_of_lt second low), first, second, lowered⟩
  · intro u still x inside least
    exact linked.leads u (active_of_still top still) x ((mem_below_iff x).mp inside).1 least
  · exact fun u still => linked.low_le u (active_of_still top still)
  · intro u still
    obtain ⟨y, stacked, low, path⟩ := linked.low_reached u (active_of_still top still)
    have least := linked.low_le u (active_of_still top still)
    have less := shaped.lt_top top u still
    exact ⟨y, (mem_below_iff y).mpr ⟨stacked, by omega⟩, low, path⟩
  · intro x inside left
    obtain ⟨stacked, low⟩ := (mem_below_iff x).mp inside
    obtain ⟨y, target, lower, path⟩ :=
      linked.falls x stacked fun isActive => left (still_of_lt top isActive low)
    exact ⟨y, (mem_below_iff y).mpr ⟨target, Nat.lt_trans lower low⟩, lower, path⟩

section Emit

variable (inv : Inv succ count s) (top : s.frames = ⟨v, []⟩ :: frames)
  (first : s.low v = s.number v)
include inv top first

/-- Edges from a node above `v` stay above `v` or lead to complete components. -/
theorem stays_above (stacked : x ∈ s.stack) (above : s.number v ≤ s.number x) (edge : y ∈ succ x) :
    y ∈ s.emitted.flatten ∨ y ∈ s.stack ∧ s.number v ≤ s.number y := by
  have isActive := mem_active_of_top top
  rcases inv.linked.settled_of_top top stacked edge with
    ⟨f, still, rfl, -⟩ | emitted | ⟨target, lowered⟩
  · -- the latest frame is the only one so high
    have lower := inv.shaped.lt_top top f.node (List.mem_map_of_mem still)
    omega
  · exact .inl emitted
  · obtain ⟨u, between, least, -, low⟩ := lowered v isActive above
    rw [inv.shaped.eq_top top between least, first] at low
    exact .inr ⟨target, low⟩

theorem path_stays_above (stacked : x ∈ s.stack) (above : s.number v ≤ s.number x)
    (path : Reaches succ x y) :
    y ∈ s.emitted.flatten ∨ y ∈ s.stack ∧ s.number v ≤ s.number y := by
  induction path with
  | refl => exact .inr ⟨stacked, above⟩
  | tail _ edge ih =>
    rcases ih with emitted | ⟨stacked, above⟩
    · exact .inl (inv.complete.closed _ emitted _ edge)
    · exact stays_above inv top first stacked above edge

/-- The nodes above `v` fall back to it. -/
theorem falls_to (stacked : x ∈ s.stack) (above : s.number v ≤ s.number x) : Reaches succ x v := by
  induction number : s.number x using Nat.strongRecOn generalizing x with
  | _ n ih =>
    subst number
    by_cases here : x = v
    · exact here ▸ .refl
    · have left : x ∉ s.active := fun isActive => here (inv.shaped.eq_top top isActive above)
      obtain ⟨y, target, lower, path⟩ := inv.linked.falls x stacked left
      rcases path_stays_above inv top first stacked above path with emitted | ⟨-, high⟩
      · exact absurd emitted (inv.shaped.apart y target)
      · exact path.trans (ih _ lower target high rfl)

/-- The nodes of the stack from `v` on are a component. -/
theorem isClass_above {c : List Nat} (nodup : c.Nodup)
    (mem_iff : ∀ x, x ∈ c ↔ x ∈ s.stack ∧ s.number v ≤ s.number x) : IsClass succ count c := by
  have isActive := mem_active_of_top top
  have own : v ∈ c := (mem_iff v).mpr ⟨inv.shaped.active_stacked isActive, Nat.le_refl _⟩
  refine ⟨nodup, List.ne_nil_of_mem own, ?_, ?_⟩
  · intro x inside
    exact inv.shaped.stacked_lt ((mem_iff x).mp inside).1
  · intro x inside w _
    obtain ⟨stacked, above⟩ := (mem_iff x).mp inside
    have back := falls_to inv top first stacked above
    have forth := inv.linked.leads v isActive x stacked above
    constructor
    · intro other
      obtain ⟨target, high⟩ := (mem_iff w).mp other
      exact ⟨back.trans (inv.linked.leads v isActive w target high),
        (falls_to inv top first target high).trans forth⟩
    · rintro ⟨away, home⟩
      rcases path_stays_above inv top first stacked above away with emitted | within
      · exact absurd (inv.complete.of_reaches emitted home) (inv.shaped.apart x stacked)
      · exact (mem_iff w).mpr within

/-- The component that is taken off the stack is complete. -/
theorem complete_completed {component below : List Nat} (cut : s.Cut v component below) :
    Complete succ count (s.completed frames component below).emitted := by
  obtain ⟨⟨isClass, disjoint⟩, ascending, backward, closed⟩ := inv.complete
  have sorted := List.mergeSort_perm component (· ≤ ·)
  have nodup : component.Nodup := (List.nodup_append.mp (cut.split ▸ inv.shaped.nodup)).1
  have members (x : Nat) :
      x ∈ component.mergeSort ↔ x ∈ s.stack ∧ s.number v ≤ s.number x := by
    rw [sorted.mem_iff, cut.mem_iff]
  have fresh {x : Nat} (inside : x ∈ component.mergeSort) : x ∉ s.emitted.flatten :=
    inv.shaped.apart x ((members x).mp inside).1
  refine ⟨⟨?_, ?_⟩, ?_, ?_, ?_⟩
  · intro c member
    rcases List.mem_append.mp member with old | new
    · exact isClass c old
    · obtain rfl := List.mem_singleton.mp new
      exact isClass_above inv top first (sorted.nodup_iff.mpr nodup) members
  · refine List.pairwise_append.mpr ⟨disjoint, List.pairwise_singleton .., ?_⟩
    intro c old d new x inC inD
    obtain rfl := List.mem_singleton.mp new
    exact fresh inD (List.mem_flatten.mpr ⟨c, old, inC⟩)
  · intro c member
    rcases List.mem_append.mp member with old | new
    · exact ascending c old
    · obtain rfl := List.mem_singleton.mp new
      exact pairwise_lt_mergeSort nodup
  · refine List.pairwise_append.mpr ⟨backward, List.pairwise_singleton .., ?_⟩
    intro c old d new x inC w edge inD
    obtain rfl := List.mem_singleton.mp new
    exact fresh inD (closed x (List.mem_flatten.mpr ⟨c, old, inC⟩) w edge)
  · intro x inside w edge
    rw [mem_flatten_completed] at inside ⊢
    rcases inside with old | new
    · exact .inl (closed x old w edge)
    · obtain ⟨stacked, above⟩ := (cut.mem_iff x).mp new
      exact (stays_above inv top first stacked above edge).imp_right (cut.mem_iff w).mpr

/-- A node whose low link is its number is left with its component. -/
theorem inv_emit : Inv succ count (({ s with frames := frames } : Search).emit v) := by
  obtain ⟨component, below, popped, cut⟩ :=
    inv.shaped.cut (inv.shaped.active_stacked (mem_active_of_top top))
  have emitted : ({ s with frames := frames } : Search).emit v =
      s.completed frames component below := by
    simp only [emit, popped, completed]
  rw [emitted]
  exact ⟨inv.shaped.completed top cut, inv.linked.completed inv.shaped top cut,
    complete_completed inv top first cut⟩

end Emit

/-! ## Steps -/

/-- The latest node is left, once the open node before it has a low link as low. -/
theorem inv_close (inv : Inv succ count s) (top : s.frames = ⟨v, []⟩ :: frames)
    (passed : ∀ parent ∈ frames.head?, s.low parent.node ≤ s.low v) :
    Inv succ count (if some (s.low v) = s.number? v then
        ({ s with frames := frames } : Search).emit v
      else { s with frames := frames }) := by
  have isActive := mem_active_of_top top
  have known := inv.shaped.number?_eq (inv.shaped.active_stacked isActive)
  by_cases first : s.low v = s.number v
  · rw [if_pos (by rw [known, first])]
    exact inv_emit inv top first
  · rw [if_neg (by rw [known, Option.some.injEq]; exact first)]
    exact inv_retire inv top (Nat.lt_of_le_of_ne (inv.linked.low_le v isActive) first) passed

theorem inv_leave (inv : Inv succ count s) (top : s.frames = ⟨v, []⟩ :: frames) :
    Inv succ count (({ s with frames := frames } : Search).leave v) := by
  cases frames with
  | nil => exact inv_close (s := s) inv top fun parent none => by cases none
  | cons parent others =>
    have isActive := mem_active_of_top top
    have parentActive : parent.node ∈ s.active := by simp [active, top]
    have less := inv.shaped.lt_top top parent.node List.mem_cons_self
    obtain ⟨y, stacked, low, path⟩ := inv.linked.low_reached v isActive
    have toTop := inv.linked.leads parent.node parentActive v (inv.shaped.active_stacked isActive)
      (Nat.le_of_lt less)
    have lowered := inv_lower inv stacked (toTop.trans path)
    rw [low] at lowered
    refine inv_close (s := s.lower parent.node (s.low v)) lowered top ?_
    rintro _ ⟨⟩
    rw [low_lower_self, low_lower_of_ne _ (by rintro rfl; exact Nat.lt_irrefl _ less)]
    exact Nat.min_le_right ..

theorem inv_step (bounded : Bounded succ count) (inv : Inv succ count s) :
    Inv succ count (s.step succ count) := by
  unfold step
  split
  · exact inv
  · next v frames top => exact inv_leave inv top
  · next v w rest frames top =>
    have isActive := mem_active_of_top top
    have stacked := inv.shaped.active_stacked isActive
    have edges : ∀ x ∈ w :: rest, x ∈ succ v := inv.linked.edges ⟨v, w :: rest⟩ (by simp [top])
    have edge : w ∈ succ v := edges w List.mem_cons_self
    have below : w < count := bounded v (inv.shaped.stacked_lt stacked) w edge
    have step : Reaches succ v w := .single edge
    unfold follow
    dsimp only
    split
    · next fresh =>
      rw [if_pos below]
      have reached : ∀ u ∈ s.active, Reaches succ u w := by
        intro u member
        refine (inv.linked.leads u member v stacked ?_).trans step
        by_contra higher
        have same := inv.shaped.eq_top top member (Nat.le_of_not_le higher)
        exact higher (Nat.le_of_eq (congrArg s.number same))
      have entered := inv_enter inv fresh below reached
      have differ : v ≠ w := inv.shaped.ne_of_fresh fresh stacked
      refine inv_take entered [⟨w, succ w⟩] (by simp [enter, top]) (.inr ⟨List.mem_cons_self, ?_⟩)
      intro u _ least
      refine ⟨v, List.mem_cons_of_mem w isActive, least, Nat.le_refl _, ?_⟩
      rw [low_enter_of_ne differ, number_enter_self]
      exact Nat.le_trans (inv.linked.low_le v isActive)
        (Nat.le_of_lt (inv.shaped.number_lt_next stacked))
    · next n known =>
      split
      · next there =>
        have target : w ∈ s.stack := (inv.shaped.onStack_iff w).mp there
        have number : s.number w = n := by rw [number, known]; rfl
        have lowered := inv_lower inv target step
        rw [number] at lowered
        refine inv_take (s := s.lower v n) lowered [] top (.inr ⟨target, ?_⟩)
        intro u _ least
        refine ⟨v, isActive, least, Nat.le_refl _, ?_⟩
        rw [low_lower_self]
        exact Nat.le_trans (Nat.min_le_right ..) (Nat.le_of_eq number.symm)
      · next gone =>
        have numbered := (inv.shaped.numbered_iff w).mp (by rw [known]; rfl)
        have emitted := numbered.resolve_right fun target =>
          gone ((inv.shaped.onStack_iff w).mpr target)
        exact inv_take inv [] top (.inl emitted)

end Search

end Ripple.Graph
