import Mathlib.Data.List.Sort
import Ripple.Proofs.EdgeKinds
import Ripple.Proofs.Schedule

/-!
Two ways to the blocks that watch a register. Edges are found by asking every block whether it watches what
another one produces. What was written in a transaction is looked up in an index by tables, which compares
columns on its own. The index gives what asking gives (`watchers_eq_filter`). Hence the edges of a block lead
to what it wakes when it writes all that it produces: the forward edges to what becomes due in the same round,
the feedback edges to what becomes due in the next one (`forward_iff_due`, `feedback_iff_later`).
-/

namespace Ripple.Graph

variable {blocks : List Block} {v w : Nat}

/-- Looking a register up in the index is asking each block in turn. -/
theorem watchers_eq_filter (blocks : List Block) (r : Register) :
    (ofBlocks blocks).watchers r =
      (List.range blocks.length).filter fun i => (blocks[i]?).any fun b => b.watches r := by
  have asked : ((List.range blocks.length).filter fun i =>
      (blocks[i]?).any fun b => b.watches r).Pairwise (· < ·) :=
    List.pairwise_lt_range.filter _
  refine (pairwise_watchers blocks r).eq_of_mem_iff asked fun i => ?_
  rw [mem_watchers_iff, mem_filter_any_iff fun _ => List.mem_range]

/-- A block that watches a column, its whole table and the column again is looked up once. -/
example :
    (ofBlocks [⟨"thrice", .onWatch, [⟨⟨1⟩, some ⟨2⟩⟩, .any ⟨1⟩, ⟨⟨1⟩, some ⟨2⟩⟩], [], fun _ => .ok []⟩,
      ⟨"other", .onWatch, [⟨⟨1⟩, some ⟨3⟩⟩], [], fun _ => .ok []⟩,
      ⟨"whole", .onWatch, [.any ⟨1⟩], [], fun _ => .ok []⟩]).watchers ⟨⟨1⟩, some ⟨2⟩⟩ = [0, 2] := by
  cbv

/-! ## Edges and wakeups -/

/-- A block feeds the watchers of what it produces. -/
theorem feeds_iff_mem_watchersOf :
    Feeds blocks v w ↔
      ∃ b, blocks[v]? = some b ∧ w ∈ (ofBlocks blocks).watchersOf b.produce := by
  unfold Feeds
  refine exists_congr fun b => ?_
  rw [(faithful_ofBlocks blocks).mem_watchersOf]
  constructor
  · rintro ⟨c, there, here, p, produced, watched⟩
    exact ⟨there, c, p, here, produced, List.any_eq_true.mpr watched⟩
  · rintro ⟨there, c, p, here, produced, watches⟩
    exact ⟨c, there, here, p, produced, List.any_eq_true.mp watches⟩

/-- Forward edges lead to what a block makes due in the round under way. -/
theorem forward_iff_due (run : Run) :
    ⟨v, w, .forward⟩ ∈ (ofBlocks blocks).edges ↔
      ∃ b, blocks[v]? = some b ∧
        w ∈ ((ofBlocks blocks).schedule v b.produce ⟨run, [], []⟩).due := by
  rw [forward_mem_edges_iff, feeds_iff_mem_watchersOf, ← exists_and_right]
  refine exists_congr fun b => ?_
  rw [mem_ahead_iff, and_assoc, and_comm (b := _ < _)]
  simp only [List.not_mem_nil, false_or]

/-- Feedback edges lead to what it makes due in the next round. -/
theorem feedback_iff_later (run : Run) :
    ⟨v, w, .feedback⟩ ∈ (ofBlocks blocks).edges ↔
      ∃ b, blocks[v]? = some b ∧
        w ∈ ((ofBlocks blocks).schedule v b.produce ⟨run, [], []⟩).later := by
  rw [feedback_mem_edges_iff, feeds_iff_mem_watchersOf, ← exists_and_right]
  refine exists_congr fun b => ?_
  rw [mem_behind_iff, and_assoc, and_comm (b := _ ≤ _)]
  simp only [List.not_mem_nil, false_or]

/-- **The index and the blocks agree on who watches what.** The watchers looked up for a register are the
indices of the blocks that watch it, in ascending order and without repetition, whatever registers the
blocks list and how often. So the blocks that become due in a transaction and the edges follow from one
relation: there is an edge from one block to another exactly if the other one is looked up for something
that the first one produces. It is a forward edge if writing all of that makes the other block due in the
same round, and a feedback edge if it makes it due in the next one. -/
theorem watchers_exact (blocks : List Block) :
    let g := ofBlocks blocks
    (∀ r, g.watchers r =
        (List.range blocks.length).filter fun i => (blocks[i]?).any fun b => b.watches r) ∧
      (∀ r, (g.watchers r).Pairwise (· < ·)) ∧
      (∀ touched w, w ∈ g.watchersOf touched ↔
        ∃ b r, blocks[w]? = some b ∧ r ∈ touched ∧ b.watches r) ∧
      (∀ v w, (∃ e ∈ g.edges, e.source = v ∧ e.target = w) ↔
        ∃ b, blocks[v]? = some b ∧ w ∈ g.watchersOf b.produce) ∧
      ∀ run v w,
        (⟨v, w, .forward⟩ ∈ g.edges ↔ ∃ b, blocks[v]? = some b ∧
          w ∈ (g.schedule v b.produce ⟨run, [], []⟩).due) ∧
        (⟨v, w, .feedback⟩ ∈ g.edges ↔ ∃ b, blocks[v]? = some b ∧
          w ∈ (g.schedule v b.produce ⟨run, [], []⟩).later) := by
  refine ⟨watchers_eq_filter blocks, pairwise_watchers blocks, ?_, ?_, ?_⟩
  · intro touched w
    exact (faithful_ofBlocks blocks).mem_watchersOf
  · intro v w
    exact exists_edge_iff_feeds.trans feeds_iff_mem_watchersOf
  · intro run v w
    exact ⟨forward_iff_due run, feedback_iff_later run⟩

end Ripple.Graph
