import Ripple.Proofs.LeastFirst

/-!
What the kind of an edge says. The kind comes from the ranks alone. Inside a component ranks follow the
order of declaration and between components they follow the edges, so that feedback edges are the edges
of cycles that do not lead to a later declared block. Forward edges ascend in rank; an edge that does
not is on every cycle (`exists_feedback_of_cycle`).
-/

namespace Ripple.Graph

variable {blocks : List Block} {v w : Nat}

/-! ## Ranks in a component -/

/-- Inside a component the order is that of declaration. -/
theorem pairwise_lt_of_mutual (blocks : List Block) :
    (ofBlocks blocks).order.Pairwise fun v w => Mutual (successorsOf blocks) v w → v < w := by
  obtain ⟨placed, listed, classes, -, ascending, -⟩ := order_eq_flatten blocks
  rw [listed, List.pairwise_flatten]
  constructor
  · intro c member
    refine (ascending c member).imp ?_
    intro v w less _
    exact less
  · refine classes.disjoint.imp_of_mem ?_
    intro c d first second apart v inC w inD path
    have below := (classes.isClass d second).below w inD
    exact absurd inD (apart (((classes.isClass c first).mem_iff v inC w below).mpr path))

theorem rank_lt_iff_of_mutual (belowV : v < blocks.length) (belowW : w < blocks.length)
    (path : Mutual (successorsOf blocks) v w) :
    (ofBlocks blocks).rank v < (ofBlocks blocks).rank w ↔ v < w := by
  constructor
  · intro ahead
    exact of_rank_lt (pairwise_lt_of_mutual blocks) belowV belowW ahead path
  · intro less
    by_contra behind
    have differ : (ofBlocks blocks).rank v ≠ (ofBlocks blocks).rank w := fun same =>
      Nat.ne_of_lt less (rank_inj belowV belowW same)
    have more := of_rank_lt (pairwise_lt_of_mutual blocks) belowW belowV (by omega) path.symm
    omega

/-! ## Kinds -/

/-- Edges against the order are those that lead back in a component. -/
theorem rank_le_iff_of_feeds (feeds : Feeds blocks v w) :
    (ofBlocks blocks).rank w ≤ (ofBlocks blocks).rank v ↔
      Mutual (successorsOf blocks) v w ∧ w ≤ v := by
  obtain ⟨belowV, belowW⟩ := feeds.lt
  have edge := mem_successorsOf_iff_feeds.mpr feeds
  constructor
  · intro against
    have back : Reaches (successorsOf blocks) w v := by
      by_contra oneWay
      exact Nat.not_lt.mpr against (rank_lt_of_edge edge oneWay)
    have path : Mutual (successorsOf blocks) v w := ⟨.single edge, back⟩
    have kept := rank_lt_iff_of_mutual belowV belowW path
    exact ⟨path, by omega⟩
  · rintro ⟨path, back⟩
    have kept := rank_lt_iff_of_mutual belowV belowW path
    omega

theorem mem_edges_iff_feeds {e : Edge} :
    e ∈ (ofBlocks blocks).edges ↔ Feeds blocks e.source e.target ∧
      (e.kind = .feedback ↔
        (ofBlocks blocks).rank e.target ≤ (ofBlocks blocks).rank e.source) := by
  rw [mem_edges_iff, mem_successorsOf_iff_feeds]
  refine and_congr_right fun _ => ?_
  by_cases ahead : (ofBlocks blocks).rank e.source < (ofBlocks blocks).rank e.target
  · cases e.kind <;> simp [ahead]
  · cases e.kind <;> simp [ahead, Nat.not_lt.mp ahead]

theorem forward_mem_edges_iff :
    ⟨v, w, .forward⟩ ∈ (ofBlocks blocks).edges ↔
      Feeds blocks v w ∧ (ofBlocks blocks).rank v < (ofBlocks blocks).rank w := by
  simp [mem_edges_iff_feeds]

theorem feedback_mem_edges_iff :
    ⟨v, w, .feedback⟩ ∈ (ofBlocks blocks).edges ↔
      Feeds blocks v w ∧ (ofBlocks blocks).rank w ≤ (ofBlocks blocks).rank v := by
  simp [mem_edges_iff_feeds]

theorem exists_edge_iff_feeds :
    (∃ e ∈ (ofBlocks blocks).edges, e.source = v ∧ e.target = w) ↔ Feeds blocks v w := by
  constructor
  · rintro ⟨e, listed, rfl, rfl⟩
    exact (mem_edges_iff_feeds.mp listed).1
  · intro feeds
    rcases Nat.lt_or_ge ((ofBlocks blocks).rank v) ((ofBlocks blocks).rank w) with ahead | behind
    · exact ⟨_, forward_mem_edges_iff.mpr ⟨feeds, ahead⟩, rfl, rfl⟩
    · exact ⟨_, feedback_mem_edges_iff.mpr ⟨feeds, behind⟩, rfl, rfl⟩

/-- There is one edge between two blocks at most. -/
theorem nodup_edges (blocks : List Block) :
    ((ofBlocks blocks).edges.map fun e => (e.source, e.target)).Nodup := by
  simp only [ofBlocks, List.map_flatMap, List.map_map]
  refine List.nodup_flatMap.mpr ⟨fun v inside => ?_, ?_⟩
  · have once : (successorsOf blocks v).Nodup := by
      unfold successorsOf
      split
      · exact .nil
      · exact List.nodup_range.filter _
    rw [getD_successorsOf]
    refine once.map fun w u same => ?_
    exact (Prod.mk.inj same).2
  · refine List.nodup_range.imp fun {v w} differ => ?_
    simp only [Function.onFun, List.disjoint_left, List.mem_map, Function.comp_apply]
    rintro _ ⟨x, -, rfl⟩ ⟨y, -, same⟩
    exact differ (Prod.mk.inj same).1.symm

/-- Forward edges ascend in rank. -/
theorem rank_lt_of_forward
    (path : Relation.TransGen (fun v w => ⟨v, w, .forward⟩ ∈ (ofBlocks blocks).edges) v w) :
    (ofBlocks blocks).rank v < (ofBlocks blocks).rank w := by
  induction path with
  | single edge => exact (forward_mem_edges_iff.mp edge).2
  | tail _ edge ih => exact Nat.lt_trans ih (forward_mem_edges_iff.mp edge).2

/-- Every cycle goes against the order somewhere. -/
theorem exists_feedback_of_cycle (cycle : Relation.TransGen (Feeds blocks) v v) :
    ∃ a b, ⟨a, b, .feedback⟩ ∈ (ofBlocks blocks).edges ∧ Mutual (successorsOf blocks) v a := by
  by_contra none
  -- A path that can be continued back to its start stays in one component, so its edges are forward.
  have ahead {w : Nat} (path : Relation.TransGen (Feeds blocks) v w) :
      Relation.ReflTransGen (Feeds blocks) w v →
        (ofBlocks blocks).rank v < (ofBlocks blocks).rank w := by
    have step {a b : Nat} (there : Relation.ReflTransGen (Feeds blocks) v a)
        (feeds : Feeds blocks a b) (back : Relation.ReflTransGen (Feeds blocks) b v) :
        (ofBlocks blocks).rank a < (ofBlocks blocks).rank b := by
      by_contra against
      rw [← reaches_eq_feeds] at there
      have around : Reaches (successorsOf blocks) a v := by
        rw [reaches_eq_feeds]
        exact .head feeds back
      exact none ⟨a, b, feedback_mem_edges_iff.mpr ⟨feeds, Nat.not_lt.mp against⟩, there, around⟩
    induction path with
    | single feeds => exact step .refl feeds
    | tail path feeds ih =>
      intro back
      exact Nat.lt_trans (ih (.head feeds back)) (step path.to_reflTransGen feeds back)
  exact Nat.lt_irrefl _ (ahead cycle .refl)

/-! ## Cycles -/

theorem mem_successors_iff : w ∈ (ofBlocks blocks).successors v ↔ Feeds blocks v w := by
  rw [← exists_edge_iff_feeds, successors, List.mem_map]
  simp only [List.mem_filter, decide_eq_true_eq, and_assoc]

theorem bounded_successors (blocks : List Block) :
    Bounded (ofBlocks blocks).successors blocks.length :=
  fun _ _ _ edge => (mem_successors_iff.mp edge).lt.2

theorem mutual_successors_iff :
    Mutual (ofBlocks blocks).successors v w ↔
      Relation.ReflTransGen (Feeds blocks) v w ∧ Relation.ReflTransGen (Feeds blocks) w v := by
  have same : (fun v w => w ∈ (ofBlocks blocks).successors v) = Feeds blocks :=
    funext₂ fun _ _ => propext mem_successors_iff
  unfold Mutual Reaches
  rw [same]

/-- Sorting by rank puts the blocks into evaluation order. -/
theorem pairwise_rank_mergeSort {c : List Nat} (nodup : c.Nodup)
    (below : ∀ v ∈ c, v < blocks.length) :
    (c.mergeSort fun v w => (ofBlocks blocks).rank v ≤ (ofBlocks blocks).rank w).Pairwise
      fun v w => (ofBlocks blocks).rank v < (ofBlocks blocks).rank w := by
  have perm := List.mergeSort_perm c fun v w => (ofBlocks blocks).rank v ≤ (ofBlocks blocks).rank w
  have sorted := pairwise_mergeSort_key (ofBlocks blocks).rank c
  have distinct := perm.nodup_iff.mpr nodup
  refine (sorted.and distinct).imp_of_mem ?_
  intro v w first second both
  have inside {x : Nat} (member : x ∈ _) := below x (perm.mem_iff.mp member)
  exact Nat.lt_of_le_of_ne both.1 fun same => both.2 (rank_inj (inside first) (inside second) same)

/-- The blocks of a list feed each other directly or indirectly, and no other block does. -/
def IsComponent (blocks : List Block) (c : List Nat) : Prop :=
  c ≠ [] ∧ ∀ v ∈ c, ∀ w, w ∈ c ↔
    Relation.ReflTransGen (Feeds blocks) v w ∧ Relation.ReflTransGen (Feeds blocks) w v

theorem isComponent_of_isClass {c : List Nat}
    (isClass : IsClass (ofBlocks blocks).successors blocks.length c) : IsComponent blocks c := by
  refine ⟨isClass.nonempty, fun v member w => ?_⟩
  rw [← mutual_successors_iff]
  constructor
  · intro inside
    exact (isClass.mem_iff v member w (isClass.below w inside)).mp inside
  · intro path
    have below := Reaches.lt (bounded_successors blocks) path.1 (isClass.below v member)
    exact (isClass.mem_iff v member w below).mpr path

theorem IsComponent.isClass {c : List Nat} (component : IsComponent blocks c) (nodup : c.Nodup)
    (member : v ∈ c) (below : v < blocks.length) :
    IsClass (ofBlocks blocks).successors blocks.length c where
  nodup := nodup
  nonempty := component.1
  below w inside := by
    have path := mutual_successors_iff.mpr ((component.2 v member w).mp inside)
    exact Reaches.lt (bounded_successors blocks) path.1 below
  mem_iff w inside u _ := (component.2 w inside u).trans mutual_successors_iff.symm

/-- A component with several blocks or with one that feeds itself has a feedback edge. -/
theorem feedsBack_iff {c : List Nat}
    (isClass : IsClass (ofBlocks blocks).successors blocks.length c) :
    (1 < c.length ∨ c.headD 0 ∈ (ofBlocks blocks).successors (c.headD 0)) ↔
      ∃ e ∈ (ofBlocks blocks).edges, e.kind = .feedback ∧ e.source ∈ c ∧ e.target ∈ c := by
  have component := (isComponent_of_isClass isClass).2
  constructor
  · intro back
    have cycle : Relation.TransGen (Feeds blocks) (c.headD 0) (c.headD 0) := by
      rcases back with several | itself
      · obtain ⟨x, y, rest, rfl⟩ : ∃ x y rest, c = x :: y :: rest := by
          match c, several with
          | x :: y :: rest, _ => exact ⟨x, y, rest, rfl⟩
        have differ : x ≠ y := fun same => (List.nodup_cons.mp isClass.nodup).1 (by simp [same])
        obtain ⟨there, again⟩ := (component x List.mem_cons_self y).mp (by simp)
        rcases Relation.reflTransGen_iff_eq_or_transGen.mp there with same | path
        · exact absurd same.symm differ
        · exact path.trans_left again
      · exact .single (mem_successors_iff.mp itself)
    obtain ⟨a, b, listed, path⟩ := exists_feedback_of_cycle cycle
    obtain ⟨feeds, against⟩ := feedback_mem_edges_iff.mp listed
    obtain ⟨onward, -⟩ := (rank_le_iff_of_feeds feeds).mp against
    have inside {u : Nat} (path : Mutual (successorsOf blocks) (c.headD 0) u) : u ∈ c := by
      unfold Mutual at path
      rw [reaches_eq_feeds] at path
      exact (component _ isClass.headD_mem u).mpr path
    exact ⟨_, listed, rfl, inside path, inside (path.trans onward)⟩
  · rintro ⟨e, listed, -, source, target⟩
    have feeds := (mem_edges_iff_feeds.mp listed).1
    refine or_iff_not_imp_left.mpr fun few => ?_
    obtain ⟨x, rfl⟩ : ∃ x, c = [x] := by
      have some := List.length_pos_iff.mpr isClass.nonempty
      exact List.length_eq_one_iff.mp (by omega)
    rw [List.mem_singleton] at source target
    rw [source, target] at feeds
    exact mem_successors_iff.mpr feeds

/-- The cycles are the components with a feedback edge, each in evaluation order. -/
theorem mem_cycles_iff {c : List Nat} :
    c ∈ (ofBlocks blocks).cycles ↔ IsComponent blocks c ∧
      (c.Pairwise fun v w => (ofBlocks blocks).rank v < (ofBlocks blocks).rank w) ∧
      ∃ e ∈ (ofBlocks blocks).edges, e.kind = .feedback ∧ e.source ∈ c ∧ e.target ∈ c := by
  obtain ⟨classes, covered⟩ := components_classes (bounded_successors blocks)
  have ranked {d : List Nat} (listed : d ∈ components (ofBlocks blocks).successors blocks.length) :=
    pairwise_rank_mergeSort (classes.isClass d listed).nodup (classes.isClass d listed).below
  have size : (ofBlocks blocks).size = blocks.length := rfl
  simp only [cycles, size, List.mem_map, List.mem_filter, Bool.or_eq_true, decide_eq_true_eq]
  constructor
  · rintro ⟨d, ⟨listed, back⟩, rfl⟩
    have isClass := classes.isClass d listed
    have perm := List.mergeSort_perm d fun v w =>
      (ofBlocks blocks).rank v ≤ (ofBlocks blocks).rank w
    have isComponent := isComponent_of_isClass (isClass.of_perm perm)
    refine ⟨isComponent, ranked listed, ?_⟩
    simpa only [perm.mem_iff] using (feedsBack_iff isClass).mp back
  · rintro ⟨component, sorted, e, listed, kind, source, target⟩
    have nodup : c.Nodup := by
      refine sorted.imp ?_
      rintro v _ less rfl
      exact Nat.lt_irrefl _ less
    have below := (mem_edges_iff_feeds.mp listed).1.lt.1
    have isClass := component.isClass nodup source below
    obtain ⟨d, member, inD⟩ := covered e.source below
    have perm := (classes.isClass d member).perm isClass inD source
    refine ⟨d, ⟨member, (feedsBack_iff (classes.isClass d member)).mpr ?_⟩, ?_⟩
    · exact ⟨e, listed, kind, inD, perm.mem_iff.mpr target⟩
    · refine List.Perm.eq_of_pairwise
        (fun v w _ _ less more => absurd less (Nat.not_lt.mpr more.le)) (ranked member) sorted ?_
      exact (List.mergeSort_perm d _).trans perm

theorem nodup_cycles (blocks : List Block) : (ofBlocks blocks).cycles.Nodup := by
  obtain ⟨classes, -⟩ := components_classes (bounded_successors blocks)
  have byRank {d : List Nat} := List.mergeSort_perm d fun v w =>
    (ofBlocks blocks).rank v ≤ (ofBlocks blocks).rank w
  have sorted : Classes (ofBlocks blocks).successors blocks.length (ofBlocks blocks).cycles := by
    constructor
    · intro c listed
      obtain ⟨d, kept, rfl⟩ := List.mem_map.mp listed
      exact (classes.isClass d (List.mem_filter.mp kept).1).of_perm byRank
    · refine List.pairwise_map.mpr ((classes.disjoint.filter _).imp ?_)
      intro c d apart v first second
      exact apart (byRank.mem_iff.mp first) (byRank.mem_iff.mp second)
  exact sorted.nodup

/-- **The kind of each edge says whether it closes a cycle.** There is one edge from a block to another
exactly if it produces a register that overlaps one the other watches. An edge is a feedback edge if it
leads back to a block declared no later in the same strongly connected component; the other edges are
forward edges, and these have no cycle. So there is a feedback edge exactly if blocks feed each other in
a cycle, and the cycles listed are the components with a feedback edge, each once and in evaluation
order. -/
theorem edge_kinds_exact (blocks : List Block) :
    let g := ofBlocks blocks
    (∀ v w, (∃ e ∈ g.edges, e.source = v ∧ e.target = w) ↔ Feeds blocks v w) ∧
      (g.edges.map fun e => (e.source, e.target)).Nodup ∧
      (∀ e ∈ g.edges, e.kind = .feedback ↔
        (Relation.ReflTransGen (Feeds blocks) e.source e.target ∧
          Relation.ReflTransGen (Feeds blocks) e.target e.source) ∧ e.target ≤ e.source) ∧
      (∀ v, ¬ Relation.TransGen (fun v w => ⟨v, w, .forward⟩ ∈ g.edges) v v) ∧
      ((∀ e ∈ g.edges, e.kind ≠ .feedback) ↔ ∀ v, ¬ Relation.TransGen (Feeds blocks) v v) ∧
      g.cycles.Nodup ∧
      ∀ c, c ∈ g.cycles ↔ IsComponent blocks c ∧
        (c.Pairwise fun v w => g.rank v < g.rank w) ∧
        ∃ e ∈ g.edges, e.kind = .feedback ∧ e.source ∈ c ∧ e.target ∈ c := by
  refine ⟨fun v w => ?_, nodup_edges blocks, fun e listed => ?_, fun v cycle => ?_, ?_,
    nodup_cycles blocks, fun c => mem_cycles_iff⟩
  · rw [← mem_successors_iff, successors, List.mem_map]
    simp only [List.mem_filter, decide_eq_true_eq, and_assoc]
  · obtain ⟨feeds, kind⟩ := mem_edges_iff_feeds.mp listed
    rw [kind, rank_le_iff_of_feeds feeds, ← reaches_eq_feeds]
    rfl
  · exact Nat.lt_irrefl _ (rank_lt_of_forward cycle)
  · constructor
    · intro forward v cycle
      obtain ⟨a, b, listed, -⟩ := exists_feedback_of_cycle cycle
      exact forward _ listed rfl
    · intro acyclic e listed back
      obtain ⟨feeds, kind⟩ := mem_edges_iff_feeds.mp listed
      obtain ⟨⟨-, path⟩, -⟩ := (rank_le_iff_of_feeds feeds).mp (kind.mp back)
      rw [reaches_eq_feeds] at path
      exact acyclic _ (.head' feeds path)

end Ripple.Graph
