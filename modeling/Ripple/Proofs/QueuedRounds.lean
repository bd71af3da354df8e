import Ripple.Proofs.RoundCap
import Ripple.Propagation.RankQueue

/-!
Rounds by queues of ranks are the rounds of `Graph.settle`. Draining a queue runs the same blocks as
going through all blocks in evaluation order: what is in the queue is what is due among the blocks that
are still to come (`Alongside`), so that the least rank is that of the next one to run. No position is
out of range, and a transaction by queues gives the same store and the same answer as
`Propagator.commit` and `Propagator.bootstrap` (`queued_transactions`).
-/

namespace Ripple

variable {blocks : List Block} {g : Graph} {round : Round} {queued : QueuedRound} {i rank : Nat}
  {block : Block} {rest : List (Nat × Block)} {watchers : List Nat}

/-- The queue holds the ranks of these blocks, and no others. -/
def RankQueue.Holds (g : Graph) (queue : RankQueue) (due : Nat → Prop) : Prop :=
  ∀ k, k ∈ queue ↔ ∃ i, due i ∧ g.rank i = k

namespace Graph

theorem getElem?_ranks (below : i < blocks.length) :
    (ofBlocks blocks).ranks[i]? = some ((ofBlocks blocks).rank i) := by
  have listed : i < (ofBlocks blocks).ranks.length := by simpa [ofBlocks] using below
  rw [Graph.rank, List.getD_eq_getElem?_getD, List.getElem?_eq_getElem listed, Option.getD_some]

theorem lt_of_mem_watchersOf {touched : List Register}
    (member : i ∈ (ofBlocks blocks).watchersOf touched) : i < blocks.length := by
  obtain ⟨b, r, there, -⟩ := (faithful_ofBlocks blocks).mem_watchersOf.mp member
  exact (List.getElem?_eq_some_iff.mp there).1

theorem lt_of_mem_onLoad (member : i ∈ (ofBlocks blocks).onLoad) : i < blocks.length := by
  obtain ⟨b, there, -⟩ := mem_onLoad_iff.mp member
  exact (List.getElem?_eq_some_iff.mp there).1

/-! ## Filling the queues -/

/-- A block that has a property is accounted for when its rank is put into the queue. -/
theorem mem_insert_or_iff {queue : RankQueue} {w k : Nat} {P : Nat → Prop} (own : P w) :
    (k ∈ queue.insert (g.rank w) ∨ ∃ v ∈ watchers, P v ∧ g.rank v = k) ↔
      k ∈ queue ∨ ∃ v ∈ w :: watchers, P v ∧ g.rank v = k := by
  rw [RankQueue.mem_insert, List.exists_mem_cons_iff, or_assoc, @eq_comm _ k]
  simp only [own, true_and]
  exact or_left_comm

/-- A block that does not have it adds no rank. -/
theorem exists_rank_cons_iff {w k : Nat} {P : Nat → Prop} (other : ¬ P w) :
    (∃ v ∈ watchers, P v ∧ g.rank v = k) ↔ ∃ v ∈ w :: watchers, P v ∧ g.rank v = k := by
  simp only [List.exists_mem_cons_iff, other, false_and, false_or]

/-- Every rank that is added is found, and is in the queue afterwards. -/
theorem foldlM_insert {due : List Nat} (known : ∀ i ∈ due, i < blocks.length) (first : RankQueue) :
    ∃ queue,
      due.foldlM (fun queue i => ((ofBlocks blocks).ranks[i]?).map queue.insert) first = some queue ∧
      ∀ k, k ∈ queue ↔ k ∈ first ∨ ∃ i ∈ due, (ofBlocks blocks).rank i = k := by
  induction due generalizing first with
  | nil => exact ⟨first, rfl, by simp⟩
  | cons i due ih =>
    obtain ⟨below, others⟩ := List.forall_mem_cons.mp known
    obtain ⟨queue, done, mem_iff⟩ := ih others (first.insert ((ofBlocks blocks).rank i))
    refine ⟨queue, ?_, ?_⟩
    · rw [List.foldlM_cons, getElem?_ranks below]
      exact done
    · intro k
      rw [mem_iff]
      simpa only [true_and] using @mem_insert_or_iff _ due first i k (fun _ => True) trivial

theorem queueOf_holds {due : List Nat} (known : ∀ i ∈ due, i < blocks.length) :
    ∃ queue, (ofBlocks blocks).queueOf due = some queue ∧
      queue.Holds (ofBlocks blocks) (· ∈ due) := by
  obtain ⟨queue, done, mem_iff⟩ := foldlM_insert known .empty
  exact ⟨queue, done, fun k => by simpa using mem_iff k⟩

/-- Where watchers of what a block wrote are put. -/
structure Queued (g : Graph) (rank : Nat) (watchers : List Nat) (before after : QueuedRound) :
    Prop where
  run : after.run = before.run
  fired : after.fired = before.fired
  mem_current_iff : ∀ k, k ∈ after.current ↔
    k ∈ before.current ∨ ∃ w ∈ watchers, rank < g.rank w ∧ g.rank w = k
  mem_next_iff : ∀ k, k ∈ after.next ↔
    k ∈ before.next ∨ ∃ w ∈ watchers, g.rank w ≤ rank ∧ g.rank w = k

/-- What did not run yet is put into the queue of this round if it ranks higher. -/
theorem queueWatchers_queued (known : ∀ w ∈ watchers, w < blocks.length)
    (passed : ∀ w ∈ queued.fired, (ofBlocks blocks).rank w ≤ rank) :
    ∃ after, watchers.foldlM ((ofBlocks blocks).queueWatcher rank) queued = some after ∧
      Queued (ofBlocks blocks) rank watchers queued after := by
  induction watchers generalizing queued with
  | nil => exact ⟨queued, rfl, rfl, rfl, by simp, by simp⟩
  | cons w watchers ih =>
    obtain ⟨below, others⟩ := List.forall_mem_cons.mp known
    rw [List.foldlM_cons, queueWatcher, getElem?_ranks below]
    by_cases ahead : rank < (ofBlocks blocks).rank w
    · have fresh : w ∉ queued.fired := fun ran => Nat.not_lt.mpr (passed w ran) ahead
      let placed := { queued with current := queued.current.insert ((ofBlocks blocks).rank w) }
      obtain ⟨after, done, follows⟩ := @ih placed others passed
      refine ⟨after, ?_, follows.run, follows.fired, ?_, ?_⟩
      · simpa [ahead, fresh] using done
      · intro k
        exact (follows.mem_current_iff k).trans (mem_insert_or_iff ahead)
      · intro k
        exact (follows.mem_next_iff k).trans (or_congr_right (exists_rank_cons_iff (Nat.not_le.mpr ahead)))
    · let placed := { queued with next := queued.next.insert ((ofBlocks blocks).rank w) }
      obtain ⟨after, done, follows⟩ := @ih placed others passed
      refine ⟨after, ?_, follows.run, follows.fired, ?_, ?_⟩
      · simpa [ahead] using done
      · intro k
        exact (follows.mem_current_iff k).trans (or_congr_right (exists_rank_cons_iff ahead))
      · intro k
        exact (follows.mem_next_iff k).trans (mem_insert_or_iff (Nat.not_lt.mp ahead))

/-! ## Draining a queue -/

/-- Where a pass over the blocks and the queues stand together: in the queue of the round are the ranks
of those that are due among the blocks still to come, in the next queue those that are due in the next
round, and what ran ranks lower than what is still to come. -/
structure Alongside (g : Graph) (rest : List (Nat × Block)) (round : Round)
    (queued : QueuedRound) : Prop where
  run : queued.run = round.run
  current : queued.current.Holds g fun i => i ∈ rest.map Prod.fst ∧ i ∈ round.due
  next : queued.next.Holds g (· ∈ round.later)
  passed : ∀ i ∈ queued.fired, ∀ x ∈ rest, g.rank i < g.rank x.1
  later_lt : ∀ i ∈ round.later, i < g.blocks.length

/-- A block that is not due has no rank in the queue. -/
theorem Alongside.skip (along : Alongside g ((i, block) :: rest) round queued) (idle : i ∉ round.due) :
    Alongside g rest round queued where
  run := along.run
  current k := by
    refine (along.current k).trans ?_
    constructor
    · rintro ⟨j, ⟨among, due⟩, own⟩
      rcases List.mem_cons.mp among with rfl | later
      · exact absurd due idle
      · exact ⟨j, ⟨later, due⟩, own⟩
    · rintro ⟨j, ⟨among, due⟩, own⟩
      exact ⟨j, ⟨List.mem_cons_of_mem _ among, due⟩, own⟩
  next := along.next
  passed j ran x member := along.passed j ran x (List.mem_cons_of_mem _ member)
  later_lt := along.later_lt

/-- The next block to run has the least rank in the queue. -/
theorem Alongside.popFirst? (along : Alongside g ((i, block) :: rest) round queued)
    (due : i ∈ round.due) (behind : ∀ x ∈ rest, g.rank i < g.rank x.1) :
    ∃ left, queued.current.popFirst? = some (g.rank i, left) := by
  apply RankQueue.popFirst?_eq_some
  · exact (along.current _).mpr ⟨i, ⟨List.mem_cons_self, due⟩, rfl⟩
  · intro k member
    obtain ⟨j, ⟨among, -⟩, rfl⟩ := (along.current k).mp member
    rcases List.mem_cons.mp among with rfl | later
    · exact Nat.le_refl _
    · obtain ⟨x, there, rfl⟩ := List.mem_map.mp later
      exact Nat.le_of_lt (behind x there)

theorem runRank_eq (there : blocks[i]? = some block) :
    (ofBlocks blocks).runRank ((ofBlocks blocks).rank i) queued =
      match queued.run.fire block with
      | .error failure => some (.error failure)
      | .ok (run, touched) =>
        (((ofBlocks blocks).watchersOf touched).foldlM
          ((ofBlocks blocks).queueWatcher ((ofBlocks blocks).rank i))
          { queued with run, fired := i :: queued.fired }).map .ok := by
  have below := (List.getElem?_eq_some_iff.mp there).1
  have placed := getElem?_order_iff.mpr ⟨below, rfl⟩
  have found : (ofBlocks blocks).blocks[i]? = some block := there
  simp only [runRank, placed, found, Option.bind_eq_bind, Option.bind_some]
  cases queued.run.fire block with
  | error failure => rfl
  | ok reached => exact Option.map_eq_bind.symm

/-- Apart from it, the ranks of the blocks that are due among those behind it are left in the queue. -/
theorem Alongside.holds_left (along : Alongside g ((i, block) :: rest) round queued)
    (behind : ∀ x ∈ rest, g.rank i < g.rank x.1) {left : RankQueue}
    (taken : queued.current.popFirst? = some (g.rank i, left)) :
    left.Holds g fun j => j ∈ rest.map Prod.fst ∧ j ∈ round.due := by
  intro k
  constructor
  · intro member
    have higher := RankQueue.lt_of_popFirst? taken member
    have listed := (RankQueue.mem_of_popFirst? taken).mpr (.inr member)
    obtain ⟨j, ⟨among, due⟩, rfl⟩ := (along.current k).mp listed
    rcases List.mem_cons.mp among with rfl | later
    · exact absurd higher (Nat.lt_irrefl _)
    · exact ⟨j, ⟨later, due⟩, rfl⟩
  · rintro ⟨j, ⟨later, due⟩, rfl⟩
    have listed := (along.current _).mpr ⟨j, ⟨List.mem_cons_of_mem _ later, due⟩, rfl⟩
    rcases (RankQueue.mem_of_popFirst? taken).mp listed with same | member
    · obtain ⟨x, there, rfl⟩ := List.mem_map.mp later
      exact absurd same (Nat.ne_of_gt (behind x there))
    · exact member

variable {front : List (Nat × Block)} {left : RankQueue} {run : Run} {touched : List Register}

theorem rank_lt_of_split (split : (ofBlocks blocks).ordered = front ++ (i, block) :: rest) :
    ∀ x ∈ rest, (ofBlocks blocks).rank i < (ofBlocks blocks).rank x.1 := by
  have ascending := pairwise_ordered blocks
  rw [split] at ascending
  exact (List.pairwise_cons.mp (List.pairwise_append.mp ascending).2.1).1

/-- A block of a higher rank is still to come. -/
theorem mem_rest_of_rank_lt (split : (ofBlocks blocks).ordered = front ++ (i, block) :: rest)
    {w : Nat} (below : w < blocks.length)
    (ahead : (ofBlocks blocks).rank i < (ofBlocks blocks).rank w) : w ∈ rest.map Prod.fst := by
  have listed : (w, blocks[w]) ∈ (ofBlocks blocks).ordered :=
    mem_ordered_iff.mpr (List.getElem?_eq_getElem below)
  have ascending := pairwise_ordered blocks
  rw [split] at listed ascending
  rcases List.mem_append.mp listed with before | here
  · have lower := (List.pairwise_append.mp ascending).2.2 _ before _ List.mem_cons_self
    exact absurd lower (Nat.lt_asymm ahead)
  · rcases List.mem_cons.mp here with same | later
    · cases same
      exact absurd ahead (Nat.lt_irrefl _)
    · exact List.mem_map_of_mem later

/-- A block that is due runs, and what it wakes is put where it is due. -/
theorem Alongside.fire (split : (ofBlocks blocks).ordered = front ++ (i, block) :: rest)
    (along : Alongside (ofBlocks blocks) ((i, block) :: rest) round queued)
    (taken : queued.current.popFirst? = some ((ofBlocks blocks).rank i, left))
    (fired : round.run.fire block = .ok (run, touched)) :
    ∃ after, (ofBlocks blocks).runRank ((ofBlocks blocks).rank i) { queued with current := left } =
        some (.ok after) ∧
      Alongside (ofBlocks blocks) rest ((ofBlocks blocks).schedule i touched { round with run })
        after := by
  have there : blocks[i]? = some block := mem_ordered_iff.mp (by simp [split])
  have behind := rank_lt_of_split split
  have passed : ∀ j ∈ i :: queued.fired, (ofBlocks blocks).rank j ≤ (ofBlocks blocks).rank i := by
    intro j member
    rcases List.mem_cons.mp member with rfl | ran
    · exact Nat.le_refl _
    · exact Nat.le_of_lt (along.passed j ran _ List.mem_cons_self)
  let current : QueuedRound := ⟨run, left, queued.next, i :: queued.fired⟩
  have known : ∀ w ∈ (ofBlocks blocks).watchersOf touched, w < blocks.length :=
    fun _ => lt_of_mem_watchersOf
  obtain ⟨after, done, placed⟩ := @queueWatchers_queued blocks current _ _ known passed
  refine ⟨after, ?_, placed.run, ?_, ?_, ?_, ?_⟩
  · rw [runRank_eq there]
    simp only [along.run, fired]
    exact congrArg (Option.map Except.ok) done
  · intro k
    rw [placed.mem_current_iff, along.holds_left behind taken]
    simp only [mem_ahead_iff]
    constructor
    · rintro (⟨j, ⟨later, due⟩, own⟩ | ⟨w, member, ahead, own⟩)
      · exact ⟨j, ⟨later, .inl due⟩, own⟩
      · exact ⟨w, ⟨mem_rest_of_rank_lt split (lt_of_mem_watchersOf member) ahead,
          .inr ⟨ahead, member⟩⟩, own⟩
    · rintro ⟨j, ⟨later, due | ⟨ahead, member⟩⟩, own⟩
      · exact .inl ⟨j, ⟨later, due⟩, own⟩
      · exact .inr ⟨j, member, ahead, own⟩
  · intro k
    rw [placed.mem_next_iff, along.next]
    simp only [mem_behind_iff]
    constructor
    · rintro (⟨j, later, own⟩ | ⟨w, member, behind, own⟩)
      · exact ⟨j, .inl later, own⟩
      · exact ⟨w, .inr ⟨behind, member⟩, own⟩
    · rintro ⟨j, later | ⟨behind, member⟩, own⟩
      · exact .inl ⟨j, later, own⟩
      · exact .inr ⟨j, member, behind, own⟩
  · intro j ran x member
    rw [placed.fired] at ran
    exact Nat.lt_of_le_of_lt (passed j ran) (behind x member)
  · intro j later
    rcases mem_behind_iff.mp later with before | ⟨-, member⟩
    · exact along.later_lt j before
    · exact lt_of_mem_watchersOf member

/-- The pass and the queue stop for the same failure, or both come to their end. -/
inductive StopsAlike (g : Graph) : Except Failure Round → Except Failure QueuedRound → Prop
  | failed (failure : Failure) : StopsAlike g (.error failure) (.error failure)
  | ended {round : Round} {queued : QueuedRound} (along : Alongside g [] round queued) :
      StopsAlike g (.ok round) (.ok queued)

/-- Draining the queue runs what a pass over the blocks runs. -/
theorem drain_stopsAlike (split : (ofBlocks blocks).ordered = front ++ rest)
    (along : Alongside (ofBlocks blocks) rest round queued) :
    ∃ result, (ofBlocks blocks).drain queued = some result ∧
      StopsAlike (ofBlocks blocks) ((ofBlocks blocks).sweep round rest) result := by
  induction rest generalizing front round queued with
  | nil =>
    have none : queued.current.popFirst? = none := by
      apply RankQueue.popFirst?_eq_none_iff.mpr
      intro k member
      obtain ⟨j, ⟨among, -⟩, -⟩ := (along.current k).mp member
      cases among
    exact ⟨.ok queued, drain_of_none none, .ended along⟩
  | cons head rest ih =>
    obtain ⟨i, block⟩ := head
    have onward : (ofBlocks blocks).ordered = (front ++ [(i, block)]) ++ rest := by simp [split]
    unfold sweep
    split
    · next due =>
      have there : blocks[i]? = some block := mem_ordered_iff.mp (by simp [split])
      obtain ⟨left, taken⟩ := along.popFirst? due (rank_lt_of_split split)
      rw [drain_of_some taken]
      cases fired : round.run.fire block with
      | error failure =>
        refine ⟨.error failure, ?_, .failed failure⟩
        rw [runRank_eq there]
        simp only [along.run, fired]
        rfl
      | ok reached =>
        obtain ⟨run, touched⟩ := reached
        obtain ⟨after, ran, follows⟩ := along.fire split taken fired
        rw [ran]
        exact ih onward follows
    · next idle => exact ih onward (along.skip idle)

/-! ## Rounds -/

/-- At the beginning of a round all blocks are still to come. -/
theorem alongside_nextRound {queue : RankQueue} {due : List Nat}
    (known : ∀ i ∈ due, i < blocks.length) (holds : queue.Holds (ofBlocks blocks) (· ∈ due)) :
    Alongside (ofBlocks blocks) (ofBlocks blocks).ordered (run.nextRound due)
      ⟨{ run with rounds := run.rounds + 1 }, queue, .empty, []⟩ where
  run := rfl
  current k := by
    refine (holds k).trans ?_
    constructor
    · rintro ⟨i, member, own⟩
      have here := known i member
      have listed : (i, blocks[i]) ∈ (ofBlocks blocks).ordered :=
        mem_ordered_iff.mpr (List.getElem?_eq_getElem here)
      exact ⟨i, ⟨List.mem_map_of_mem listed, member⟩, own⟩
    · rintro ⟨i, ⟨-, member⟩, own⟩
      exact ⟨i, member, own⟩
  next k := by simp [Run.nextRound]
  passed i ran := absurd ran List.not_mem_nil
  later_lt i later := absurd later List.not_mem_nil

theorem isEmpty_iff_of_holds {queue : RankQueue} {due : List Nat} (holds : queue.Holds g (· ∈ due)) :
    queue.isEmpty ↔ due = [] := by
  rw [RankQueue.isEmpty_iff, List.eq_nil_iff_forall_not_mem]
  constructor
  · intro none i member
    exact none _ ((holds _).mpr ⟨i, member, rfl⟩)
  · intro none k member
    obtain ⟨i, due, -⟩ := (holds k).mp member
    exact none i due

/-- The rounds by queues are those of the lists. -/
theorem propagate_eq_settle {cap left : Nat} {due : List Nat} {queue : RankQueue}
    (within : run.rounds ≤ cap) (known : ∀ i ∈ due, i < blocks.length)
    (holds : queue.Holds (ofBlocks blocks) (· ∈ due)) (remaining : run.rounds + left = cap) :
    (ofBlocks blocks).propagate cap queue run within =
      some ((ofBlocks blocks).settle cap left due run) := by
  induction left generalizing due run queue with
  | zero =>
    by_cases none : due = []
    · rw [propagate_of_empty within ((isEmpty_iff_of_holds holds).mpr none), none, settle_nil]
    · have waiting : ¬ queue.isEmpty := mt (isEmpty_iff_of_holds holds).mp none
      rw [propagate_of_full within waiting remaining, settle_zero none]
  | succ left ih =>
    by_cases none : due = []
    · rw [propagate_of_empty within ((isEmpty_iff_of_holds holds).mpr none), none, settle_nil]
    · have waiting : ¬ queue.isEmpty := mt (isEmpty_iff_of_holds holds).mp none
      have below : run.rounds < cap := by omega
      have along := @alongside_nextRound _ run _ _ known holds
      obtain ⟨result, drained, alike⟩ := drain_stopsAlike (List.nil_append _).symm along
      rw [settle_succ none]
      generalize (ofBlocks blocks).sweep (run.nextRound due) (ofBlocks blocks).ordered = swept at alike
      cases alike with
      | failed failure => exact propagate_of_failed below waiting drained
      | @ended round queued along =>
        have begun : queued.run.rounds = run.rounds + 1 := drain_rounds drained
        have enough : queued.run.rounds ≤ cap := by omega
        have fewer : queued.run.rounds + left = cap := by omega
        rw [propagate_of_drained below waiting drained, ih enough along.later_lt along.next fewer,
          along.run]
        rfl

end Graph

/-! ## Transactions -/

namespace Propagator

theorem finish_eq (p : Propagator) {submitted : Nat} {due : List Nat} {run : Run}
    (known : ∀ i ∈ due, i < blocks.length) (fresh : run.rounds = 0) (within : run.rounds ≤ p.cap) :
    p.finish (.ofBlocks blocks) submitted due run within =
      some (conclude submitted ((Graph.ofBlocks blocks).settle p.cap p.cap due run)) := by
  obtain ⟨queue, initial, holds⟩ := Graph.queueOf_holds known
  have remaining : run.rounds + p.cap = p.cap := by omega
  rw [finish, initial, Option.bind_eq_bind, Option.bind_some,
    Graph.propagate_eq_settle within known holds remaining]
  rfl

/-- **Queues of ranks make no difference.** Whatever the blocks are, a commit by queues finds everything
that it looks up, and gives the same store and the same answer as going through the blocks in their
order; so does loading. -/
theorem queued_transactions (p : Propagator) (blocks : List Block) (s : Store) :
    (∀ changes, p.commitQueued (.ofBlocks blocks) s changes =
      some (p.commit (.ofBlocks blocks) s changes)) ∧
    p.bootstrapQueued (.ofBlocks blocks) s = some (p.bootstrap (.ofBlocks blocks) s) := by
  constructor
  · intro changes
    by_cases nothing : changes = []
    · subst nothing
      rfl
    · have some : ¬ changes.isEmpty := by simpa using nothing
      rw [commitQueued, if_neg some, p.commit_eq_conclude _ s nothing]
      split
      · next failure stopped =>
        rw [transact, stopped]
        rfl
      · next run touched submitted =>
        rw [p.finish_eq (fun _ member => Graph.lt_of_mem_watchersOf member)
          (rounds_of_submit submitted), transact, submitted]
        rfl
  · exact p.finish_eq (fun _ member => Graph.lt_of_mem_onLoad member) rfl _

end Propagator

end Ripple
