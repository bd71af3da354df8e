import Mathlib.Data.List.Nodup
import Mathlib.Data.List.Pairwise
import Mathlib.Data.Finset.Max
import Ripple.Graph.Order
import Ripple.Proofs.Reachability

/-!
The evaluation order lists every node once. The components are the classes of nodes that reach each
other, and they cover all nodes (`components_classes`). Among unplaced components one with the fewest
nodes before it has no edge into it from another one, so that placing components never gets stuck. An
edge goes against the order only where it is part of a cycle (`pairwise_evaluationOrder`).
-/

namespace Ripple.Graph

variable {succ : Successors} {count v w : Nat}

/-! ## Components -/

/-- The nodes reach each other. -/
def Mutual (succ : Successors) (v w : Nat) : Prop := Reaches succ v w ∧ Reaches succ w v

theorem Mutual.refl (v : Nat) : Mutual succ v v := ⟨.refl, .refl⟩

theorem Mutual.symm (mutual_ : Mutual succ v w) : Mutual succ w v := ⟨mutual_.2, mutual_.1⟩

theorem Mutual.trans {u : Nat} (first : Mutual succ u v) (second : Mutual succ v w) :
    Mutual succ u w :=
  ⟨Relation.ReflTransGen.trans first.1 second.1, Relation.ReflTransGen.trans second.2 first.2⟩

/-- The list holds the nodes of one component, each once. -/
structure IsClass (succ : Successors) (count : Nat) (c : List Nat) : Prop where
  nodup : c.Nodup
  nonempty : c ≠ []
  below : ∀ v ∈ c, v < count
  mem_iff : ∀ v ∈ c, ∀ w < count, w ∈ c ↔ Mutual succ v w

/-- Classes that have a node in common have all nodes in common. -/
theorem IsClass.disjoint_of_not_mem {c d : List Nat} (first : IsClass succ count c)
    (second : IsClass succ count d) {v : Nat} (here : v ∈ c) (elsewhere : v ∉ d) :
    List.Disjoint c d := by
  intro w member common
  have path := (first.mem_iff v here w (first.below w member)).mp member
  exact elsewhere ((second.mem_iff w common v (first.below v here)).mpr path.symm)

theorem IsClass.of_perm {c d : List Nat} (isClass : IsClass succ count c) (perm : d.Perm c) :
    IsClass succ count d where
  nodup := perm.nodup_iff.mpr isClass.nodup
  nonempty := fun none => isClass.nonempty (List.nil_perm.mp (none ▸ perm))
  below v member := isClass.below v (perm.mem_iff.mp member)
  mem_iff v member w below := perm.mem_iff.trans (isClass.mem_iff v (perm.mem_iff.mp member) w below)

theorem IsClass.perm {c d : List Nat} (first : IsClass succ count c)
    (second : IsClass succ count d) (inC : v ∈ c) (inD : v ∈ d) : c.Perm d := by
  refine (List.perm_ext_iff_of_nodup first.nodup second.nodup).mpr fun w => ?_
  constructor
  · intro there
    have below := first.below w there
    exact (second.mem_iff v inD w below).mpr ((first.mem_iff v inC w below).mp there)
  · intro there
    have below := second.below w there
    exact (first.mem_iff v inC w below).mpr ((second.mem_iff v inD w below).mp there)

/-- The lookup in the table that `components` builds. -/
def reachTable (succ : Successors) (count v : Nat) : List Nat :=
  ((List.range count).map (reachable succ count)).getD v []

theorem reachTable_eq (below : v < count) :
    reachTable succ count v = reachable succ count v := by
  simp [reachTable, below]

theorem mem_component_iff (bounded : Bounded succ count) (below : v < count) :
    w ∈ component (reachTable succ count) count v ↔ w < count ∧ Mutual succ v w := by
  simp only [component, List.mem_filter, List.mem_range, Bool.and_eq_true, decide_eq_true_eq]
  refine and_congr_right ?_
  intro inside
  rw [reachTable_eq below, reachTable_eq inside, mem_reachable_iff bounded below,
    mem_reachable_iff bounded inside]
  rfl

theorem isClass_component (bounded : Bounded succ count) (below : v < count) :
    IsClass succ count (component (reachTable succ count) count v) where
  nodup := List.nodup_range.filter _
  nonempty := List.ne_nil_of_mem ((mem_component_iff bounded below).mpr ⟨below, .refl v⟩)
  below w member := ((mem_component_iff bounded below).mp member).1
  mem_iff w member u inside := by
    obtain ⟨-, path⟩ := (mem_component_iff bounded below).mp member
    rw [mem_component_iff bounded below]
    exact ⟨fun there => path.symm.trans there.2, fun there => ⟨inside, path.trans there⟩⟩

/-- Classes without a node in common. -/
structure Classes (succ : Successors) (count : Nat) (cs : List (List Nat)) : Prop where
  isClass : ∀ c ∈ cs, IsClass succ count c
  disjoint : cs.Pairwise List.Disjoint

theorem Classes.nodup {cs : List (List Nat)} (classes : Classes succ count cs) : cs.Nodup := by
  refine classes.disjoint.imp_of_mem ?_
  rintro c d first - apart rfl
  obtain ⟨v, member⟩ := List.exists_mem_of_ne_nil c (classes.isClass c first).nonempty
  exact apart member member

/-- Where classes cover the nodes, two nodes share one exactly if they reach each other. -/
theorem Classes.together_iff {cs : List (List Nat)} (classes : Classes succ count cs)
    (covered : ∀ v < count, ∃ c ∈ cs, v ∈ c) (belowV : v < count) (belowW : w < count) :
    (∃ c ∈ cs, v ∈ c ∧ w ∈ c) ↔ Mutual succ v w := by
  constructor
  · rintro ⟨c, member, first, second⟩
    exact ((classes.isClass c member).mem_iff v first w belowW).mp second
  · intro path
    obtain ⟨c, member, first⟩ := covered v belowV
    exact ⟨c, member, first, ((classes.isClass c member).mem_iff v first w belowW).mpr path⟩

/-- Lists the component of a node that is in no component listed. -/
def cover (succ : Successors) (count : Nat) (later : List (List Nat)) (v : Nat) : List (List Nat) :=
  if later.any (v ∈ ·) then later else component (reachTable succ count) count v :: later

theorem components_eq :
    components succ count = (finishOrder succ count).foldl (cover succ count) [] :=
  rfl

/-- Adding the classes of nodes that are in no class yet keeps the classes apart and covers the
nodes. -/
theorem classes_foldl (bounded : Bounded succ count) (nodes : List Nat)
    (inside : ∀ v ∈ nodes, v < count) {later : List (List Nat)} (classes : Classes succ count later) :
    let all := nodes.foldl (cover succ count) later
    Classes succ count all ∧ (∀ c ∈ later, c ∈ all) ∧ ∀ v ∈ nodes, ∃ c ∈ all, v ∈ c := by
  induction nodes generalizing later with
  | nil => exact ⟨classes, fun c member => member, by simp⟩
  | cons v nodes ih =>
    have below := inside v List.mem_cons_self
    have rest : ∀ w ∈ nodes, w < count := fun w member => inside w (List.mem_cons_of_mem v member)
    rw [List.foldl_cons, cover]
    split
    · next found =>
      obtain ⟨c, old, here⟩ := List.any_eq_true.mp found
      obtain ⟨all, kept, covered⟩ := ih rest classes
      refine ⟨all, kept, ?_⟩
      intro w member
      rcases List.mem_cons.mp member with rfl | member
      · exact ⟨c, kept c old, of_decide_eq_true here⟩
      · exact covered w member
    · next missing =>
      have own : v ∈ component (reachTable succ count) count v :=
        (mem_component_iff bounded below).mpr ⟨below, .refl v⟩
      have fresh := isClass_component bounded below
      have apart : ∀ c ∈ later, List.Disjoint (component (reachTable succ count) count v) c := by
        intro c member
        refine fresh.disjoint_of_not_mem (classes.isClass c member) own fun there => missing ?_
        exact List.any_eq_true.mpr ⟨c, member, decide_eq_true there⟩
      have more : Classes succ count (component (reachTable succ count) count v :: later) :=
        ⟨List.forall_mem_cons.mpr ⟨fresh, classes.isClass⟩,
          List.pairwise_cons.mpr ⟨apart, classes.disjoint⟩⟩
      obtain ⟨all, kept, covered⟩ := ih rest more
      refine ⟨all, fun c member => kept c (List.mem_cons_of_mem _ member), ?_⟩
      intro w member
      rcases List.mem_cons.mp member with rfl | member
      · exact ⟨_, kept _ List.mem_cons_self, own⟩
      · exact covered w member

/-- The components are classes without a node in common, and every node is in one of them. -/
theorem components_classes (bounded : Bounded succ count) :
    Classes succ count (components succ count) ∧
      ∀ v < count, ∃ c ∈ components succ count, v ∈ c := by
  obtain ⟨classes, -, covered⟩ := classes_foldl bounded (finishOrder succ count)
    (fun v => (mem_finishOrder_iff bounded).mp) ⟨by simp, .nil⟩
  exact ⟨classes, fun v below => covered v ((mem_finishOrder_iff bounded).mpr below)⟩

/-- The components list every node once. -/
theorem components_perm (bounded : Bounded succ count) :
    (components succ count).flatten.Perm (List.range count) := by
  obtain ⟨classes, covered⟩ := components_classes bounded
  refine (List.perm_ext_iff_of_nodup ?_ List.nodup_range).mpr ?_
  · exact List.nodup_flatten.mpr
      ⟨fun c member => (classes.isClass c member).nodup, classes.disjoint⟩
  · intro v
    rw [List.mem_flatten, List.mem_range]
    constructor
    · rintro ⟨c, member, there⟩
      exact (classes.isClass c member).below v there
    · exact covered v

/-! ## Placing -/

theorem Classes.erase {cs : List (List Nat)} (classes : Classes succ count cs) (c : List Nat) :
    Classes succ count (cs.erase c) where
  isClass d member := classes.isClass d (List.mem_of_mem_erase member)
  disjoint := classes.disjoint.sublist List.erase_sublist

/-- How many nodes reach the first node of a list. -/
def ancestors (succ : Successors) (count : Nat) (c : List Nat) : Nat :=
  (List.range count).countP fun v => c.headD 0 ∈ reachable succ count v

theorem IsClass.headD_mem {c : List Nat} (isClass : IsClass succ count c) : c.headD 0 ∈ c := by
  cases c with
  | nil => exact absurd rfl isClass.nonempty
  | cons v c => exact List.mem_cons_self

/-- A class with an edge into another one is reached from fewer nodes. -/
theorem ancestors_lt (bounded : Bounded succ count) {c d : List Nat}
    (first : IsClass succ count c) (second : IsClass succ count d) (apart : List.Disjoint c d)
    (edge : leadsInto succ c d) : ancestors succ count c < ancestors succ count d := by
  obtain ⟨v, source, w, step, target⟩ : ∃ v ∈ c, ∃ w ∈ succ v, w ∈ d := by
    simpa [leadsInto] using edge
  have headC := first.headD_mem
  have headD := second.headD_mem
  have toSource := ((first.mem_iff _ headC v (first.below v source)).mp source).1
  have toHead := ((second.mem_iff w target _ (second.below _ headD)).mp headD).1
  have path : Reaches succ (c.headD 0) (d.headD 0) :=
    Relation.ReflTransGen.trans toSource (.head step toHead)
  refine countP_lt_countP (x := d.headD 0) (fun x inside there => ?_)
    (List.mem_range.mpr (second.below _ headD)) ?_ ?_
  · rw [decide_eq_true_eq, mem_reachable_iff bounded (List.mem_range.mp inside)] at there ⊢
    exact Relation.ReflTransGen.trans there path
  · rw [decide_eq_true_eq, mem_reachable_iff bounded (second.below _ headD)]
    exact .refl
  · rw [decide_eq_true_eq, mem_reachable_iff bounded (second.below _ headD)]
    intro back
    have common := (first.mem_iff _ headC _ (second.below _ headD)).mpr ⟨path, back⟩
    exact apart common headD

/-- Among classes there is always one without an edge into it from another one. -/
theorem exists_isReady (bounded : Bounded succ count) {cs : List (List Nat)}
    (classes : Classes succ count cs) (some : cs ≠ []) : ∃ c ∈ cs, isReady succ cs c := by
  obtain ⟨c, member, least⟩ := Finset.exists_min_image cs.toFinset (ancestors succ count)
    (List.toFinset_nonempty_iff _ |>.mpr some)
  rw [List.mem_toFinset] at member
  refine ⟨c, member, List.all_eq_true.mpr ?_⟩
  intro other there
  by_contra blocked
  obtain ⟨differ, edge⟩ : other ≠ c ∧ leadsInto succ other c := by simpa using blocked
  have symmetric : Std.Symm (List.Disjoint (α := Nat)) := ⟨fun _ _ => List.Disjoint.symm⟩
  have apart := classes.disjoint.forall there member differ
  have fewer := ancestors_lt bounded (classes.isClass other there) (classes.isClass c member)
    apart edge
  exact absurd (least other (List.mem_toFinset.mpr there)) (Nat.not_le.mpr fewer)

/-- Placing classes never gets stuck: each of their nodes is placed. -/
theorem placeComponents_perm (bounded : Bounded succ count) {cs : List (List Nat)}
    (classes : Classes succ count cs) : (placeComponents succ cs).Perm cs.flatten := by
  induction cs using placeComponents.induct succ with
  | case1 cs stuck =>
    have none : cs = [] := by
      by_contra some
      obtain ⟨c, member, ready⟩ := exists_isReady bounded classes some
      exact List.find?_eq_none.mp stuck c member ready
    subst none
    rw [placeComponents]
    rfl
  | case2 cs c chosen ih =>
    have member := List.mem_of_find?_eq_some chosen
    rw [placeComponents, chosen]
    exact ((ih (classes.erase c)).append_left c).trans (List.perm_cons_erase member).symm.flatten

/-- Where an edge leads back to a node that was placed before, the node reaches its source. -/
theorem pairwise_placeComponents (bounded : Bounded succ count) {cs : List (List Nat)}
    (classes : Classes succ count cs) :
    (placeComponents succ cs).Pairwise fun v w => v ∈ succ w → Reaches succ v w := by
  induction cs using placeComponents.induct succ with
  | case1 cs stuck =>
    unfold placeComponents
    split
    · exact .nil
    · next found =>
      cases stuck.symm.trans found
  | case2 cs c chosen ih =>
    have isClass := classes.isClass c (List.mem_of_find?_eq_some chosen)
    have together {v w : Nat} (first : v ∈ c) (second : w ∈ c) : Reaches succ v w :=
      ((isClass.mem_iff v first w (isClass.below w second)).mp second).1
    rw [placeComponents, chosen]
    refine List.pairwise_append.mpr ⟨?_, ih (classes.erase c), ?_⟩
    · exact List.pairwise_of_forall_mem_list fun v first w second _ => together first second
    · intro v first w later edge
      -- Nothing that was not placed yet has an edge into the component, so `w` is in it as well.
      obtain ⟨other, unplaced, inside⟩ := List.mem_flatten.mp
        ((placeComponents_perm bounded (classes.erase c)).mem_iff.mp later)
      have ready : isReady succ cs c := List.find?_some chosen
      have apart := List.all_eq_true.mp ready other (List.mem_of_mem_erase unplaced)
      rw [Bool.or_eq_true, decide_eq_true_eq, Bool.not_eq_true', Bool.eq_false_iff] at apart
      rcases apart with rfl | none
      · exact together first inside
      · refine absurd (List.any_eq_true.mpr ⟨w, inside, ?_⟩) none
        exact List.any_eq_true.mpr ⟨v, edge, decide_eq_true first⟩

/-- Sorting by a number puts a list into the order of the numbers. -/
theorem pairwise_mergeSort_key {α : Type} (key : α → Nat) (l : List α) :
    (l.mergeSort fun a b => key a ≤ key b).Pairwise fun a b => key a ≤ key b := by
  refine (List.pairwise_mergeSort ?_ ?_ l).imp of_decide_eq_true
  · intro a b c
    simpa using Nat.le_trans
  · intro a b
    simpa using Nat.le_total (key a) (key b)

/-- The components by their least nodes, as they are placed. -/
theorem byLeast_classes (bounded : Bounded succ count) :
    Classes succ count ((components succ count).mergeSort fun a b => a.headD 0 ≤ b.headD 0) := by
  obtain ⟨classes, -⟩ := components_classes bounded
  have sorted := List.mergeSort_perm (components succ count) fun a b => a.headD 0 ≤ b.headD 0
  exact ⟨fun c member => classes.isClass c (sorted.mem_iff.mp member),
    (sorted.pairwise_iff fun apart => apart.symm).mpr classes.disjoint⟩

theorem byLeast_sorted (bounded : Bounded succ count) :
    ((components succ count).mergeSort fun a b => a.headD 0 ≤ b.headD 0).Pairwise
      fun a b => a.headD 0 < b.headD 0 := by
  have classes := byLeast_classes bounded
  have sorted := pairwise_mergeSort_key (fun c : List Nat => c.headD 0) (components succ count)
  refine (sorted.and classes.disjoint).imp_of_mem fun {a b} first second both => ?_
  refine Nat.lt_of_le_of_ne both.1 fun same => ?_
  have here := (classes.isClass a first).headD_mem
  exact both.2 here (same ▸ (classes.isClass b second).headD_mem)

/-- An edge leads back to an earlier node in a cycle only. -/
theorem pairwise_evaluationOrder (bounded : Bounded succ count) :
    (evaluationOrder succ count).Pairwise fun v w => v ∈ succ w → Reaches succ v w :=
  pairwise_placeComponents bounded (byLeast_classes bounded)

/-- The evaluation order lists every node once. -/
theorem evaluationOrder_perm (bounded : Bounded succ count) :
    (evaluationOrder succ count).Perm (List.range count) :=
  (placeComponents_perm bounded (byLeast_classes bounded)).trans
    ((List.mergeSort_perm (components succ count) _).flatten.trans (components_perm bounded))

end Ripple.Graph
