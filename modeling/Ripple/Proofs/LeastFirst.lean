import Ripple.Proofs.BlockGraph
import Ripple.Proofs.CountedOrder

/-!
The evaluation order goes through the components of the blocks one after the other. A component can be
placed when all blocks that feed it are in it or placed before (`Awaited`), and of those that can be
placed the next one is always the one with the earliest declared block. `placeComponents` decides this
on the components that are still to be placed (`LeastFirst`); seen from the order as a whole, these are
what follows the components placed so far.
-/

namespace Ripple.Graph

variable {succ : Successors} {count : Nat} {cs placed : List (List Nat)}

/-- At each place stands, of the components from there on that none of them leads into, the one with
the least node. -/
def LeastFirst (succ : Successors) (placed : List (List Nat)) : Prop :=
  ∀ c after, c :: after <:+ placed →
    isReady succ (c :: after) c ∧
      ∀ d ∈ after, isReady succ (c :: after) d → c.headD 0 < d.headD 0

theorem headD_le {c : List Nat} (ascending : c.Pairwise (· < ·)) {v : Nat} (member : v ∈ c) :
    c.headD 0 ≤ v := by
  cases c with
  | nil => cases member
  | cons x c =>
    rcases List.mem_cons.mp member with rfl | later
    · exact Nat.le_refl _
    · exact ((List.pairwise_cons.mp ascending).1 v later).le

theorem isReady_congr (succ : Successors) {unplaced others : List (List Nat)}
    (same : ∀ d, d ∈ unplaced ↔ d ∈ others) (c : List Nat) :
    isReady succ unplaced c ↔ isReady succ others c := by
  simp only [isReady, List.all_eq_true, same]

/-- What is found first has a smaller first node than what else is ready. -/
theorem headD_lt_of_find? (sorted : cs.Pairwise fun a b => a.headD 0 < b.headD 0) {c d : List Nat}
    (chosen : cs.find? (isReady succ cs) = some c) (member : d ∈ cs) (differ : d ≠ c)
    (ready : isReady succ cs d) : c.headD 0 < d.headD 0 := by
  obtain ⟨-, before, after, split, unready⟩ := List.find?_eq_some_iff_append.mp chosen
  rw [split] at member sorted
  rcases List.mem_append.mp member with earlier | later
  · exact absurd ready (by simpa using unready d earlier)
  · have rest := (List.pairwise_append.mp sorted).2.1
    exact (List.pairwise_cons.mp rest).1 d ((List.mem_cons.mp later).resolve_left differ)

/-- Classes in ascending order are placed least first, and none is left over. -/
theorem placeComponents_leastFirst (bounded : Bounded succ count) (classes : Classes succ count cs)
    (sorted : cs.Pairwise fun a b => a.headD 0 < b.headD 0) :
    ∃ placed, placeComponents succ cs = placed.flatten ∧ placed.Perm cs ∧ LeastFirst succ placed := by
  induction cs using placeComponents.induct succ with
  | case1 cs stuck =>
    have none : cs = [] := by
      by_contra some
      obtain ⟨c, member, ready⟩ := exists_isReady bounded classes some
      exact List.find?_eq_none.mp stuck c member ready
    subst none
    refine ⟨[], by rw [placeComponents]; rfl, .nil, ?_⟩
    intro c after behind
    simp at behind
  | case2 cs c chosen ih =>
    obtain ⟨placed, listed, perm, least⟩ := ih (classes.erase c) (sorted.sublist List.erase_sublist)
    have member := List.mem_of_find?_eq_some chosen
    have whole : (c :: placed).Perm cs := (perm.cons c).trans (List.perm_cons_erase member).symm
    refine ⟨c :: placed, ?_, whole, ?_⟩
    · rw [placeComponents, chosen, List.flatten_cons, ← listed]
    · intro d after behind
      rcases List.suffix_cons_iff.mp behind with here | later
      · obtain ⟨rfl, rfl⟩ := List.cons.inj here
        have same (e : List Nat) := isReady_congr succ (fun _ => whole.mem_iff) e
        refine ⟨(same d).mpr (List.find?_some chosen), fun e inside ready => ?_⟩
        have once := (List.nodup_cons.mp (whole.nodup_iff.mpr classes.nodup)).1
        refine headD_lt_of_find? sorted chosen (whole.mem_iff.mp (List.mem_cons_of_mem d inside)) ?_
          ((same e).mp ready)
        rintro rfl
        exact once inside
      · exact least d after later

/-! ## Seen from the whole order -/

/-- Every node that leads into the component is in it or in a component placed before. -/
def Awaited (edge : Nat → Nat → Prop) (before : List (List Nat)) (c : List Nat) : Prop :=
  ∀ v w, edge v w → w ∈ c → v ∈ c ∨ v ∈ before.flatten

/-- None of the components from one place on leads into a component there exactly if all nodes that
lead into it are in it or before. -/
theorem isReady_iff_awaited (bounded : ∀ v w, w ∈ succ v → v < count)
    {before rest : List (List Nat)} (classes : Classes succ count (before ++ rest))
    (covered : ∀ v < count, ∃ c ∈ before ++ rest, v ∈ c) {c : List Nat} (member : c ∈ rest) :
    isReady succ rest c ↔ Awaited (fun v w => w ∈ succ v) before c := by
  obtain ⟨-, disjointRest, apart⟩ := List.pairwise_append.mp classes.disjoint
  simp only [isReady, leadsInto, List.all_eq_true, Bool.or_eq_true, decide_eq_true_eq,
    Bool.not_eq_true', Bool.eq_false_iff, ne_eq, List.any_eq_true]
  constructor
  · intro ready v w edge target
    obtain ⟨d, there, source⟩ := covered v (bounded v w edge)
    rcases List.mem_append.mp there with earlier | later
    · exact .inr (List.mem_flatten.mpr ⟨d, earlier, source⟩)
    · rcases ready d later with rfl | none
      · exact .inl source
      · exact absurd ⟨v, source, w, edge, target⟩ none
  · intro awaited d later
    refine or_iff_not_imp_left.mpr fun differ => ?_
    rintro ⟨v, source, w, edge, target⟩
    have symmetric : Std.Symm (List.Disjoint (α := Nat)) := ⟨fun _ _ => List.Disjoint.symm⟩
    rcases awaited v w edge target with own | earlier
    · exact disjointRest.forall later member differ source own
    · obtain ⟨e, early, common⟩ := List.mem_flatten.mp earlier
      exact apart e early d later common source

theorem LeastFirst.awaited (bounded : ∀ v w, w ∈ succ v → v < count)
    (classes : Classes succ count placed) (covered : ∀ v < count, ∃ c ∈ placed, v ∈ c)
    (least : LeastFirst succ placed) {before after : List (List Nat)} {c : List Nat}
    (split : placed = before ++ c :: after) :
    Awaited (fun v w => w ∈ succ v) before c ∧
      ∀ d ∈ after, Awaited (fun v w => w ∈ succ v) before d → c.headD 0 < d.headD 0 := by
  subst split
  have ready {d : List Nat} (member : d ∈ c :: after) :=
    isReady_iff_awaited bounded classes covered member
  obtain ⟨own, others⟩ := least c after (List.suffix_append before _)
  exact ⟨(ready List.mem_cons_self).mp own,
    fun d later awaited => others d later ((ready (List.mem_cons_of_mem c later)).mpr awaited)⟩

/-- The order of the blocks goes through their components as they are placed. -/
theorem order_eq_flatten (blocks : List Block) :
    ∃ placed, (ofBlocks blocks).order = placed.flatten ∧
      Classes (successorsOf blocks) blocks.length placed ∧
      (∀ v < blocks.length, ∃ c ∈ placed, v ∈ c) ∧ (∀ c ∈ placed, c.Pairwise (· < ·)) ∧
      LeastFirst (successorsOf blocks) placed := by
  have bounded := bounded_successorsOf blocks
  obtain ⟨-, complete⟩ := lowLinkComponents_complete bounded
  obtain ⟨-, covered⟩ := components_classes bounded
  obtain ⟨placed, listed, perm, least⟩ :=
    placeComponents_leastFirst bounded (byLeast_classes bounded) (byLeast_sorted bounded)
  have among {c : List Nat} : c ∈ placed ↔ c ∈ components (successorsOf blocks) blocks.length :=
    perm.mem_iff.trans (List.mergeSort_perm _ _).mem_iff
  refine ⟨placed, (order_eq blocks).trans listed, ⟨?_, ?_⟩, ?_, ?_, least⟩
  · exact fun c member => complete.isClass c (among.mp member)
  · exact (perm.pairwise_iff fun apart => apart.symm).mpr (byLeast_classes bounded).disjoint
  · intro v below
    obtain ⟨c, member, inside⟩ := covered v below
    exact ⟨c, among.mpr member, inside⟩
  · exact fun c member => complete.ascending c (among.mp member)

/-- **Blocks are evaluated component by component, the earliest declared component first.** The order
holds every block once, and the ranks say where. It goes through the strongly connected components of
the blocks, each as a whole and in the order of declaration. A component comes after all blocks that
feed it from outside, and before every other component of which this holds at that point as well unless
that one has a block declared earlier. So a block comes before those that it feeds, except inside a
component. Counting how many components lead into each leads to this order. -/
theorem order_least_component_first (blocks : List Block) :
    let g := ofBlocks blocks
    g.order.Perm (List.range blocks.length) ∧
      (∀ i k, g.order[k]? = some i ↔ i < blocks.length ∧ g.rank i = k) ∧
      (∃ placed, g.order = placed.flatten ∧ (∀ c ∈ placed, c ≠ [] ∧ c.Pairwise (· < ·)) ∧
        (∀ v < blocks.length, ∀ w < blocks.length, (∃ c ∈ placed, v ∈ c ∧ w ∈ c) ↔
          Relation.ReflTransGen (Feeds blocks) v w ∧ Relation.ReflTransGen (Feeds blocks) w v) ∧
        ∀ before c after, placed = before ++ c :: after →
          Awaited (Feeds blocks) before c ∧
            ∀ d ∈ after, Awaited (Feeds blocks) before d → ∃ v ∈ c, ∀ w ∈ d, v < w) ∧
      (∀ v w, Feeds blocks v w → ¬ Relation.ReflTransGen (Feeds blocks) w v → g.rank v < g.rank w) ∧
      g.order = condensationOrder (successorsOf blocks) blocks.length
        (lowLinkComponents (successorsOf blocks) blocks.length) := by
  have bounded := bounded_successorsOf blocks
  have backward (v w : Nat) (edge : w ∈ successorsOf blocks v) : v < blocks.length :=
    (mem_successorsOf_iff_feeds.mp edge).lt.1
  obtain ⟨placed, listed, classes, covered, ascending, least⟩ := order_eq_flatten blocks
  refine ⟨order_perm blocks, fun i k => getElem?_order_iff, ⟨placed, listed, ?_, ?_, ?_⟩, ?_, ?_⟩
  · exact fun c member => ⟨(classes.isClass c member).nonempty, ascending c member⟩
  · intro v belowV w belowW
    rw [← reaches_eq_feeds]
    exact classes.together_iff covered belowV belowW
  · intro before c after split
    obtain ⟨awaited, first⟩ := least.awaited backward classes covered split
    rw [mem_successorsOf_eq_feeds] at awaited first
    refine ⟨awaited, fun d later ready => ⟨c.headD 0, ?_, fun w inside => ?_⟩⟩
    · exact (classes.isClass c (by simp [split])).headD_mem
    · have member : d ∈ placed := by simp [split, later]
      exact Nat.lt_of_lt_of_le (first d later ready) (headD_le (ascending d member) inside)
  · intro v w feeds oneWay
    rw [← reaches_eq_feeds] at oneWay
    exact rank_lt_of_edge (mem_successorsOf_iff_feeds.mpr feeds) oneWay
  · rw [(lowLinkComponents_complete bounded).1, condensationOrder_eq bounded, order_eq]

end Ripple.Graph
