import Ripple.Graph
import Ripple.Proofs.EvaluationOrder

/-!
The graph of a list of blocks, read back as facts about the blocks. The evaluation order holds every
block once and the ranks follow it, so that `ordered` goes through all blocks by ascending rank. The
watch index answers what `Block.watches` says.
-/

namespace Ripple.Graph

variable {blocks : List Block} {block : Block} {i : Nat}

/-! ## The order -/

theorem successorsOf_lt {v w : Nat} (edge : w ∈ successorsOf blocks v) : w < blocks.length := by
  unfold successorsOf at edge
  split at edge
  · cases edge
  · exact List.mem_range.mp (List.mem_filter.mp edge).1

theorem bounded_successorsOf (blocks : List Block) :
    Bounded (successorsOf blocks) blocks.length :=
  fun _ _ _ edge => successorsOf_lt edge

theorem getD_successorsOf (blocks : List Block) (v : Nat) :
    ((List.range blocks.length).map (successorsOf blocks)).getD v [] = successorsOf blocks v := by
  rw [List.getD_eq_getElem?_getD, List.getElem?_map]
  by_cases below : v < blocks.length
  · rw [List.getElem?_range below]
    rfl
  · have beyond : (List.range blocks.length)[v]? = none := by simpa using below
    have absent : blocks[v]? = none := by simpa using below
    rw [beyond, successorsOf, absent]
    rfl

theorem order_eq (blocks : List Block) :
    (ofBlocks blocks).order = evaluationOrder (successorsOf blocks) blocks.length :=
  congrArg (evaluationOrder · blocks.length) (funext (getD_successorsOf blocks))

/-- Every block is in the order once. -/
theorem order_perm (blocks : List Block) :
    (ofBlocks blocks).order.Perm (List.range blocks.length) :=
  order_eq blocks ▸ evaluationOrder_perm (bounded_successorsOf blocks)

theorem nodup_order (blocks : List Block) : (ofBlocks blocks).order.Nodup :=
  (order_perm blocks).nodup_iff.mpr List.nodup_range

theorem mem_order_iff : i ∈ (ofBlocks blocks).order ↔ i < blocks.length := by
  rw [(order_perm blocks).mem_iff, List.mem_range]

/-- The rank of a block is its position in the order. -/
theorem rank_eq_idxOf (below : i < blocks.length) :
    (ofBlocks blocks).rank i = (ofBlocks blocks).order.idxOf i := by
  simp only [rank, ofBlocks, List.getD_eq_getElem?_getD, List.getElem?_map,
    List.getElem?_range below, Option.map_some, Option.getD_some]

theorem getElem?_order_iff {k : Nat} :
    (ofBlocks blocks).order[k]? = some i ↔ i < blocks.length ∧ (ofBlocks blocks).rank i = k := by
  constructor
  · intro there
    obtain ⟨inside, here⟩ := List.getElem?_eq_some_iff.mp there
    have below := mem_order_iff.mp (List.mem_of_getElem? there)
    refine ⟨below, ?_⟩
    rw [rank_eq_idxOf below, ← here, (nodup_order blocks).idxOf_getElem]
  · rintro ⟨below, rfl⟩
    rw [rank_eq_idxOf below]
    exact List.getElem?_idxOf (mem_order_iff.mpr below)

theorem rank_inj {v w : Nat} (belowV : v < blocks.length) (belowW : w < blocks.length)
    (same : (ofBlocks blocks).rank v = (ofBlocks blocks).rank w) : v = w := by
  have there := getElem?_order_iff.mpr ⟨belowV, same⟩
  exact Option.some.inj (there.symm.trans (getElem?_order_iff.mpr ⟨belowW, rfl⟩))

/-- What holds along the order holds between blocks of which one has the smaller rank. -/
theorem of_rank_lt {R : Nat → Nat → Prop} (along : (ofBlocks blocks).order.Pairwise R) {v w : Nat}
    (belowV : v < blocks.length) (belowW : w < blocks.length)
    (ahead : (ofBlocks blocks).rank v < (ofBlocks blocks).rank w) : R v w := by
  obtain ⟨inV, atV⟩ := List.getElem?_eq_some_iff.mp (getElem?_order_iff.mpr ⟨belowV, rfl⟩)
  obtain ⟨inW, atW⟩ := List.getElem?_eq_some_iff.mp (getElem?_order_iff.mpr ⟨belowW, rfl⟩)
  have found := List.pairwise_iff_getElem.mp along _ _ inV inW ahead
  rwa [atV, atW] at found

theorem pairwise_rank (blocks : List Block) :
    (ofBlocks blocks).order.Pairwise fun v w =>
      (ofBlocks blocks).rank v < (ofBlocks blocks).rank w := by
  have once := nodup_order blocks
  refine List.pairwise_iff_getElem.mpr ?_
  intro j k first second ahead
  have inside (n : Nat) (there : n < (ofBlocks blocks).order.length) :
      (ofBlocks blocks).rank (ofBlocks blocks).order[n] = n := by
    rw [rank_eq_idxOf (mem_order_iff.mp (List.getElem_mem there)), once.idxOf_getElem]
  rw [inside j first, inside k second]
  exact ahead

/-- The blocks are gone through by ascending rank. -/
theorem pairwise_ordered (blocks : List Block) :
    (ofBlocks blocks).ordered.Pairwise fun a b =>
      (ofBlocks blocks).rank a.1 < (ofBlocks blocks).rank b.1 := by
  refine List.pairwise_filterMap.mpr ((pairwise_rank blocks).imp ?_)
  intro j k ahead
  rintro ⟨v, a⟩ first ⟨w, b⟩ second
  obtain ⟨_, -, same⟩ := Option.map_eq_some_iff.mp first
  obtain ⟨_, -, other⟩ := Option.map_eq_some_iff.mp second
  cases same
  cases other
  exact ahead

/-- No block is left out. -/
theorem mem_ordered_iff : (i, block) ∈ (ofBlocks blocks).ordered ↔ blocks[i]? = some block := by
  simp only [ordered, List.mem_filterMap, mem_order_iff, Option.map_eq_some_iff, Prod.mk.injEq]
  constructor
  · rintro ⟨j, -, b, there, rfl, rfl⟩
    exact there
  · intro there
    exact ⟨i, (List.getElem?_eq_some_iff.mp there).1, block, there, rfl, rfl⟩

theorem filterMap_range_getElem? {α : Type} (l : List α) :
    (List.range l.length).filterMap (l[·]?) = l := by
  induction l with
  | nil => rfl
  | cons x l ih => simpa [List.range_succ_eq_map, List.filterMap_map, Function.comp_def] using ih

/-- In their order, the blocks are those of the list. -/
theorem ordered_perm (blocks : List Block) :
    ((ofBlocks blocks).ordered.map Prod.snd).Perm blocks := by
  have listed : (ofBlocks blocks).ordered.map Prod.snd =
      (ofBlocks blocks).order.filterMap (blocks[·]?) := by
    rw [ordered, List.map_filterMap]
    refine List.filterMap_congr fun i _ => ?_
    rw [Option.map_map]
    exact Option.map_id'
  have placed := (order_perm blocks).filterMap (blocks[·]?)
  rwa [← listed, filterMap_range_getElem?] at placed

/-- Asking every block a question finds the blocks for which the answer is yes. -/
theorem mem_filter_any_iff {l : List Nat} {p : Block → Bool} (all : ∀ j, j ∈ l ↔ j < blocks.length) :
    i ∈ l.filter (fun j => (blocks[j]?).any p) ↔ ∃ b, blocks[i]? = some b ∧ p b := by
  rw [List.mem_filter, all, Option.any_eq_true]
  constructor
  · intro there
    exact there.2
  · rintro ⟨b, there, yes⟩
    exact ⟨(List.getElem?_eq_some_iff.mp there).1, b, there, yes⟩

theorem mem_onLoad_iff :
    i ∈ (ofBlocks blocks).onLoad ↔ ∃ b, blocks[i]? = some b ∧ b.activation = .onLoad := by
  refine (mem_filter_any_iff fun _ => mem_order_iff).trans ?_
  simp only [decide_eq_true_eq]
  rfl

/-- A graph has the order that follows from the successors of its blocks. -/
theorem ofBlocks_eq_of_order {successors : List (List Nat)} {order ranks : List Nat}
    (listed : (List.range blocks.length).map (successorsOf blocks) = successors)
    (ordered : evaluationOrder (fun v => successors.getD v []) blocks.length = order)
    (ranked : (List.range blocks.length).map order.idxOf = ranks) :
    ofBlocks blocks = { ofBlocks blocks with order, ranks } := by
  subst listed ordered ranked
  rfl

/-! ## The edges -/

/-- The successors of a block are the blocks that it feeds. -/
theorem mem_successorsOf_iff {v w : Nat} :
    w ∈ successorsOf blocks v ↔
      ∃ b c, blocks[v]? = some b ∧ blocks[w]? = some c ∧ b.feeds c := by
  unfold successorsOf
  cases there : blocks[v]? with
  | none => simp
  | some b =>
    simp only [Option.some.injEq, exists_and_left, exists_eq_left']
    exact mem_filter_any_iff fun _ => List.mem_range

/-- The block produces a register that the other block watches. -/
def Feeds (blocks : List Block) (v w : Nat) : Prop :=
  ∃ b c, blocks[v]? = some b ∧ blocks[w]? = some c ∧ ∃ p ∈ b.produce, ∃ q ∈ c.watch, p.overlaps q

theorem mem_successorsOf_iff_feeds {v w : Nat} : w ∈ successorsOf blocks v ↔ Feeds blocks v w := by
  simp [mem_successorsOf_iff, Feeds, Block.feeds, Block.watches]

theorem mem_successorsOf_eq_feeds (blocks : List Block) :
    (fun v w => w ∈ successorsOf blocks v) = Feeds blocks :=
  funext₂ fun _ _ => propext mem_successorsOf_iff_feeds

theorem reaches_eq_feeds (blocks : List Block) :
    Reaches (successorsOf blocks) = Relation.ReflTransGen (Feeds blocks) :=
  congrArg Relation.ReflTransGen (mem_successorsOf_eq_feeds blocks)

theorem Feeds.lt {v w : Nat} (feeds : Feeds blocks v w) : v < blocks.length ∧ w < blocks.length := by
  obtain ⟨b, c, source, target, -⟩ := feeds
  exact ⟨(List.getElem?_eq_some_iff.mp source).1, (List.getElem?_eq_some_iff.mp target).1⟩

/-- The edges go from a block to its successors, and their kind says how the ranks are. -/
theorem mem_edges_iff {e : Edge} :
    e ∈ (ofBlocks blocks).edges ↔ e.target ∈ successorsOf blocks e.source ∧
      e.kind = if (ofBlocks blocks).rank e.source < (ofBlocks blocks).rank e.target
        then .forward else .feedback := by
  obtain ⟨source, target, kind⟩ := e
  simp only [ofBlocks, rank, List.mem_flatMap, List.mem_map, List.mem_range, Edge.mk.injEq,
    List.getD_eq_getElem?_getD, List.getElem?_map]
  constructor
  · rintro ⟨v, below, w, edge, rfl, rfl, rfl⟩
    rw [List.getElem?_range below] at edge
    exact ⟨edge, rfl⟩
  · rintro ⟨edge, rfl⟩
    obtain ⟨b, -, there, -⟩ := mem_successorsOf_iff.mp edge
    have below := (List.getElem?_eq_some_iff.mp there).1
    refine ⟨source, below, target, ?_, rfl, rfl, rfl⟩
    rw [List.getElem?_range below]
    exact edge

/-- There are no feedback edges if every block comes before its successors. -/
theorem feedbackCount_eq_zero_iff :
    (ofBlocks blocks).feedbackCount = 0 ↔
      ∀ v w, w ∈ successorsOf blocks v → (ofBlocks blocks).rank v < (ofBlocks blocks).rank w := by
  rw [feedbackCount, List.countP_eq_zero]
  constructor
  · intro forward v w edge
    by_contra against
    have listed : ⟨v, w, .feedback⟩ ∈ (ofBlocks blocks).edges :=
      mem_edges_iff.mpr ⟨edge, (if_neg against).symm⟩
    simpa using forward _ listed
  · intro ahead e listed
    obtain ⟨edge, kind⟩ := mem_edges_iff.mp listed
    rw [if_pos (ahead _ _ edge)] at kind
    simp [kind]

/-- Whether there are feedback edges can be seen from the successors and the ranks. -/
theorem feedbackCount_of_order {successors : List (List Nat)} {order ranks : List Nat}
    (listed : (List.range blocks.length).map (successorsOf blocks) = successors)
    (ordered : evaluationOrder (fun v => successors.getD v []) blocks.length = order)
    (ranked : (List.range blocks.length).map order.idxOf = ranks)
    (ahead : ∀ v < blocks.length, ∀ w ∈ successors.getD v [], ranks.getD v 0 < ranks.getD w 0) :
    (ofBlocks blocks).feedbackCount = 0 := by
  refine feedbackCount_eq_zero_iff.mpr fun v w edge => ?_
  obtain ⟨b, -, there, -⟩ := mem_successorsOf_iff.mp edge
  have below := (List.getElem?_eq_some_iff.mp there).1
  rw [ofBlocks_eq_of_order listed ordered ranked]
  refine ahead v below w ?_
  subst listed
  simpa [below] using edge

/-- Without feedback edges a block comes before the blocks that it feeds. -/
theorem rank_lt_of_feeds (forward : (ofBlocks blocks).feedbackCount = 0) {v w : Nat} {b c : Block}
    (there : blocks[v]? = some b) (here : blocks[w]? = some c) (feeds : b.feeds c) :
    (ofBlocks blocks).rank v < (ofBlocks blocks).rank w :=
  feedbackCount_eq_zero_iff.mp forward v w (mem_successorsOf_iff.mpr ⟨b, c, there, here, feeds⟩)

/-- The ranks follow an edge that is not part of a cycle. -/
theorem rank_lt_of_edge {v w : Nat} (edge : w ∈ successorsOf blocks v)
    (oneWay : ¬ Reaches (successorsOf blocks) w v) :
    (ofBlocks blocks).rank v < (ofBlocks blocks).rank w := by
  obtain ⟨belowV, belowW⟩ := (mem_successorsOf_iff_feeds.mp edge).lt
  have back := pairwise_evaluationOrder (bounded_successorsOf blocks)
  rw [← order_eq] at back
  rcases Nat.lt_trichotomy ((ofBlocks blocks).rank v) ((ofBlocks blocks).rank w) with
    ahead | same | behind
  · exact ahead
  · obtain rfl := rank_inj belowV belowW same
    exact absurd .refl oneWay
  · exact absurd (of_rank_lt back belowW belowV behind edge) oneWay

/-- Along edges between blocks that another list holds as well, the ranks there ascend. -/
theorem rank_lt_of_path {others : List Block} (forward : (ofBlocks blocks).feedbackCount = 0)
    (known : ∀ b ∈ others, b ∈ blocks) {v w : Nat}
    (path : Relation.TransGen (fun v w => w ∈ successorsOf others v) v w) {b c : Block} {i j : Nat}
    (first : others[v]? = some b) (last : others[w]? = some c) (there : blocks[i]? = some b)
    (here : blocks[j]? = some c) : (ofBlocks blocks).rank i < (ofBlocks blocks).rank j := by
  induction path generalizing c j with
  | single edge =>
    obtain ⟨b', c', source, target, feeds⟩ := mem_successorsOf_iff.mp edge
    obtain rfl := Option.some.inj (first.symm.trans source)
    obtain rfl := Option.some.inj (last.symm.trans target)
    exact rank_lt_of_feeds forward there here feeds
  | tail _ edge ih =>
    obtain ⟨d, c', source, target, feeds⟩ := mem_successorsOf_iff.mp edge
    obtain rfl := Option.some.inj (last.symm.trans target)
    obtain ⟨k, between⟩ := List.getElem?_of_mem (known d (List.mem_of_getElem? source))
    exact Nat.lt_trans (ih source between) (rank_lt_of_feeds forward between here feeds)

/-- Whether there are feedback edges is not a matter of the order in which blocks are declared. -/
theorem feedbackCount_of_mem {others : List Block} (forward : (ofBlocks blocks).feedbackCount = 0)
    (known : ∀ b ∈ others, b ∈ blocks) : (ofBlocks others).feedbackCount = 0 := by
  refine feedbackCount_eq_zero_iff.mpr fun v w edge => rank_lt_of_edge edge fun back => ?_
  obtain ⟨b, -, source, -⟩ := mem_successorsOf_iff.mp edge
  obtain ⟨i, there⟩ := List.getElem?_of_mem (known b (List.mem_of_getElem? source))
  have cycle := rank_lt_of_path forward known (.head' edge back) source source there there
  exact Nat.lt_irrefl _ cycle

/-! ## The watch index -/

/-- The watchers that the index lists for a table. -/
def listed (index : List (Ident × List Watcher)) (table : Ident) : List Watcher :=
  ((index.find? (·.1 = table)).map Prod.snd).getD []

theorem listed_nil (key : Ident) : listed [] key = [] := rfl

theorem listed_cons (first : Ident) (watchers : List Watcher) (rest : List (Ident × List Watcher))
    (key : Ident) :
    listed ((first, watchers) :: rest) key = if first = key then watchers else listed rest key := by
  by_cases same : first = key <;> simp [listed, same]

theorem listed_addWatcher (index : List (Ident × List Watcher)) (table key : Ident)
    (watcher : Watcher) :
    listed (addWatcher index table watcher) key =
      listed index key ++ if key = table then [watcher] else [] := by
  induction index with
  | nil => simp only [addWatcher, listed_cons, listed_nil, List.nil_append, eq_comm]
  | cons head rest ih =>
    obtain ⟨first, watchers⟩ := head
    rw [addWatcher, listed_cons]
    split
    · next here =>
      subst here
      by_cases same : first = key <;> simp [listed_cons, same, Ne.symm]
    · next apart =>
      rw [listed_cons, ih]
      by_cases same : first = key
      · subst same
        simp [apart]
      · simp [same]

theorem listed_foldl (watch : List Register) (i : Nat) (index : List (Ident × List Watcher))
    (key : Ident) :
    listed (watch.foldl (fun index r => addWatcher index r.table ⟨r.column, i⟩) index) key =
      listed index key ++ (watch.filter (·.table = key)).map fun r => ⟨r.column, i⟩ := by
  induction watch generalizing index with
  | nil => simp
  | cons r watch ih =>
    rw [List.foldl_cons, ih, listed_addWatcher]
    by_cases same : r.table = key
    · simp [same]
    · simp [same, Ne.symm same]

/-- The index lists what the blocks watch in a table, block after block. -/
theorem listed_indexWatchers (blocks : List Block) (key : Ident) :
    listed (indexWatchers blocks) key =
      blocks.zipIdx.flatMap fun (b, i) =>
        (b.watch.filter (·.table = key)).map fun r => ⟨r.column, i⟩ := by
  have all (items : List (Block × Nat)) (index : List (Ident × List Watcher)) :
      listed (items.foldl (fun index (b, i) =>
        b.watch.foldl (fun index r => addWatcher index r.table ⟨r.column, i⟩) index) index) key =
        listed index key ++ items.flatMap fun (b, i) =>
          (b.watch.filter (·.table = key)).map fun r => ⟨r.column, i⟩ := by
    induction items generalizing index with
    | nil => simp
    | cons item items ih => rw [List.foldl_cons, ih, listed_foldl, List.flatMap_cons, List.append_assoc]
  exact all blocks.zipIdx []

/-- A watcher is listed for every register that a block watches in the table. -/
theorem mem_listed_iff {table : Ident} {w : Watcher} :
    w ∈ listed (indexWatchers blocks) table ↔
      ∃ b, blocks[w.block]? = some b ∧ ⟨table, w.column⟩ ∈ b.watch := by
  rw [listed_indexWatchers]
  simp only [List.mem_flatMap, List.mem_map, List.mem_filter, decide_eq_true_eq]
  constructor
  · rintro ⟨⟨b, i⟩, member, q, ⟨watched, rfl⟩, rfl⟩
    exact ⟨b, List.mem_zipIdx_iff_getElem?.mp member, watched⟩
  · rintro ⟨b, there, watched⟩
    exact ⟨(b, w.block), List.mem_zipIdx_iff_getElem?.mpr there, _, ⟨watched, rfl⟩, rfl⟩

/-! ## Looking watchers up -/

/-- In one table, columns are matched as registers overlap. -/
theorem sees_iff_overlaps {w : Watcher} {r : Register} :
    w.sees r.column ↔ r.overlaps ⟨r.table, w.column⟩ := by
  rw [Watcher.sees_iff, overlaps_iff]
  exact (and_iff_right rfl).symm

theorem mem_dropRepeats {x : Nat} : ∀ {l : List Nat}, x ∈ dropRepeats l ↔ x ∈ l
  | [] => Iff.rfl
  | [_] => Iff.rfl
  | y :: z :: rest => by
    unfold dropRepeats
    split
    · next same =>
      rw [mem_dropRepeats, same]
      simp
    · rw [List.mem_cons, mem_dropRepeats, List.mem_cons (a := x) (b := y)]

/-- In an ascending list repetitions stand side by side, so that none is left. -/
theorem pairwise_dropRepeats :
    ∀ {l : List Nat}, l.Pairwise (· ≤ ·) → (dropRepeats l).Pairwise (· < ·)
  | [], _ => .nil
  | [x], _ => List.pairwise_singleton _ x
  | x :: y :: rest, sorted => by
    obtain ⟨least, above⟩ := List.pairwise_cons.mp sorted
    unfold dropRepeats
    split
    · exact pairwise_dropRepeats above
    · next differ =>
      refine List.pairwise_cons.mpr ⟨fun z member => ?_, pairwise_dropRepeats above⟩
      have less : x < y := Nat.lt_of_le_of_ne (least y List.mem_cons_self) differ
      rcases List.mem_cons.mp (mem_dropRepeats.mp member) with rfl | later
      · exact less
      · exact Nat.lt_of_lt_of_le less ((List.pairwise_cons.mp above).1 z later)

theorem watchers_eq (blocks : List Block) (r : Register) :
    (ofBlocks blocks).watchers r =
      dropRepeats (((listed (indexWatchers blocks) r.table).filter
        (·.sees r.column)).map Watcher.block).mergeSort := by
  have own : (ofBlocks blocks).watchIndex = indexWatchers blocks := rfl
  unfold watchers listed
  rw [own]
  cases (indexWatchers blocks).find? (·.1 = r.table) with
  | none => simp [dropRepeats]
  | some entries => rfl

/-- The watchers of a register are the blocks that watch it. -/
theorem mem_watchers_iff {r : Register} :
    i ∈ (ofBlocks blocks).watchers r ↔ ∃ b, blocks[i]? = some b ∧ b.watches r := by
  rw [watchers_eq, mem_dropRepeats, List.mem_mergeSort, List.mem_map]
  simp only [List.mem_filter, mem_listed_iff, Block.watches, List.any_eq_true]
  constructor
  · rintro ⟨w, ⟨⟨b, there, watched⟩, sees⟩, rfl⟩
    exact ⟨b, there, _, watched, sees_iff_overlaps.mp sees⟩
  · rintro ⟨b, there, ⟨table, column⟩, watched, seen⟩
    -- Registers of different tables do not overlap, so this one is listed for the table looked up.
    obtain ⟨rfl, -⟩ := overlaps_iff.mp seen
    exact ⟨⟨column, i⟩, ⟨⟨b, there, watched⟩, sees_iff_overlaps.mpr seen⟩, rfl⟩

/-- They are listed in the order of declaration, each once. -/
theorem pairwise_watchers (blocks : List Block) (r : Register) :
    ((ofBlocks blocks).watchers r).Pairwise (· < ·) :=
  watchers_eq blocks r ▸ pairwise_dropRepeats (pairwise_mergeSort_key id _)

end Ripple.Graph
