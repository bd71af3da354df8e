import Ripple.Propagation

/-!
# Rounds by queues of ranks

`Executor::propagate` step by step. The blocks that are due wait in a queue, by their ranks. The
least rank is taken out and its block runs; a watcher of what the block wrote goes into the queue of
the same round if it ranks higher and did not run in this round yet, and into the queue of the next
round otherwise. A round is over when its queue is empty, and the last one when the next queue is
empty as well.

Blocks, ranks and the evaluation order are looked up by position. A position that is out of range
has no result.
-/

namespace Ripple

/-! ## Queues -/

/-- Ranks in ascending order, each once. -/
structure RankQueue where
  ranks : List Nat
  ascending : ranks.Pairwise (· < ·)

namespace RankQueue

instance : Membership Nat RankQueue := ⟨fun queue rank => rank ∈ queue.ranks⟩

def empty : RankQueue := ⟨[], .nil⟩

def isEmpty (queue : RankQueue) : Bool := queue.ranks.isEmpty

/-- Puts a rank into its place, unless it is there. -/
def insertRank (rank : Nat) : List Nat → List Nat
  | [] => [rank]
  | other :: rest =>
    if rank < other then rank :: other :: rest
    else if rank = other then other :: rest
    else other :: insertRank rank rest

theorem mem_insertRank {rank k : Nat} {ranks : List Nat} :
    k ∈ insertRank rank ranks ↔ k = rank ∨ k ∈ ranks := by
  induction ranks with
  | nil => simp [insertRank]
  | cons other rest ih =>
    unfold insertRank
    split
    · simp
    · split
      · next same => simp [same]
      · rw [List.mem_cons, List.mem_cons, ih]
        exact or_left_comm

theorem ascending_insertRank {rank : Nat} {ranks : List Nat} (ascending : ranks.Pairwise (· < ·)) :
    (insertRank rank ranks).Pairwise (· < ·) := by
  induction ranks with
  | nil => exact List.pairwise_singleton ..
  | cons other rest ih =>
    obtain ⟨above, sorted⟩ := List.pairwise_cons.mp ascending
    unfold insertRank
    split
    · next below =>
      apply List.pairwise_cons.mpr
      refine ⟨?_, ascending⟩
      intro k member
      rcases List.mem_cons.mp member with rfl | later
      · exact below
      · exact Nat.lt_trans below (above k later)
    · split
      · exact ascending
      · apply List.pairwise_cons.mpr
        refine ⟨?_, ih sorted⟩
        intro k member
        rcases mem_insertRank.mp member with rfl | later
        · omega
        · exact above k later

/-- Adds a rank, unless it is there. -/
def insert (queue : RankQueue) (rank : Nat) : RankQueue :=
  ⟨insertRank rank queue.ranks, ascending_insertRank queue.ascending⟩

/-- Takes out the least rank. -/
def popFirst? : RankQueue → Option (Nat × RankQueue)
  | ⟨[], _⟩ => none
  | ⟨rank :: rest, ascending⟩ => some (rank, ⟨rest, (List.pairwise_cons.mp ascending).2⟩)

variable {queue rest : RankQueue} {rank k count : Nat}

@[simp] theorem not_mem_empty : ¬ k ∈ empty := List.not_mem_nil

@[simp] theorem mem_insert : k ∈ queue.insert rank ↔ k = rank ∨ k ∈ queue := mem_insertRank

theorem isEmpty_iff : queue.isEmpty ↔ ∀ k, ¬ k ∈ queue :=
  List.isEmpty_iff.trans List.eq_nil_iff_forall_not_mem

theorem popFirst?_eq_none_iff : queue.popFirst? = none ↔ ∀ k, ¬ k ∈ queue := by
  obtain ⟨ranks, ascending⟩ := queue
  cases ranks with
  | nil => exact iff_of_true rfl fun _ => List.not_mem_nil
  | cons rank rest => exact iff_of_false nofun fun none => none rank List.mem_cons_self

theorem mem_of_popFirst? (taken : queue.popFirst? = some (rank, rest)) :
    k ∈ queue ↔ k = rank ∨ k ∈ rest := by
  obtain ⟨ranks, ascending⟩ := queue
  cases ranks with
  | nil => cases taken
  | cons least others =>
    cases taken
    exact List.mem_cons

theorem lt_of_popFirst? (taken : queue.popFirst? = some (rank, rest)) (member : k ∈ rest) :
    rank < k := by
  obtain ⟨ranks, ascending⟩ := queue
  cases ranks with
  | nil => cases taken
  | cons least others =>
    cases taken
    exact (List.pairwise_cons.mp ascending).1 k member

theorem popFirst?_eq_some (member : rank ∈ queue) (least : ∀ k ∈ queue, rank ≤ k) :
    ∃ rest, queue.popFirst? = some (rank, rest) := by
  cases taken : queue.popFirst? with
  | none => exact absurd member (popFirst?_eq_none_iff.mp taken rank)
  | some popped =>
    obtain ⟨first, rest⟩ := popped
    have below := least first ((mem_of_popFirst? taken).mpr (.inl rfl))
    rcases (mem_of_popFirst? taken).mp member with rfl | later
    · exact ⟨rest, rfl⟩
    · have above := lt_of_popFirst? taken later
      omega

/-- The positions from the least rank of the queue up to a count. -/
def room (queue : RankQueue) (count : Nat) : Nat :=
  match queue.popFirst? with
  | none => 0
  | some (rank, _) => count - rank

theorem room_lt (above : ∀ k ∈ queue, rank < k) (inside : rank < count) :
    queue.room count < count - rank := by
  unfold room
  split
  · omega
  · next least rest taken =>
    have higher := above least ((mem_of_popFirst? taken).mpr (.inl rfl))
    omega

end RankQueue

/-! ## One round -/

/-- A round under way, with its queues. -/
structure QueuedRound where
  run : Run
  /-- The ranks of the blocks that run in this round. -/
  current : RankQueue
  /-- The ranks of the blocks that run in the next round. -/
  next : RankQueue
  /-- The blocks that ran in this round. -/
  fired : List Nat

namespace Graph

variable {g : Graph} {rank : Nat} {round after : QueuedRound} {watchers : List Nat}

/-- Puts a watcher of what a block of the given rank wrote into one of the queues. -/
def queueWatcher (g : Graph) (rank : Nat) (round : QueuedRound) (watcher : Nat) :
    Option QueuedRound := do
  let own ← g.ranks[watcher]?
  if rank < own ∧ watcher ∉ round.fired then
    return { round with current := round.current.insert own }
  else
    return { round with next := round.next.insert own }

/-- Runs the block of a rank, and puts the watchers of what it wrote into the queues. -/
def runRank (g : Graph) (rank : Nat) (round : QueuedRound) :
    Option (Except Failure QueuedRound) := do
  let index ← g.order[rank]?
  let block ← g.blocks[index]?
  match round.run.fire block with
  | .error failure => return .error failure
  | .ok (run, touched) =>
    let fired := { round with run, fired := index :: round.fired }
    let queued ← (g.watchersOf touched).foldlM (g.queueWatcher rank) fired
    return .ok queued

/-- Putting a watcher into a queue is no part of the run, and does not put anything into the queue of
this round that ranks as low as the block. -/
theorem queueWatcher_above {watcher : Nat} (queued : g.queueWatcher rank round watcher = some after)
    (above : ∀ k ∈ round.current, rank < k) :
    after.run = round.run ∧ ∀ k ∈ after.current, rank < k := by
  obtain ⟨own, -, placed⟩ := Option.bind_eq_some_iff.mp queued
  split at placed
  · next ahead =>
    cases placed
    refine ⟨rfl, ?_⟩
    intro k member
    rcases RankQueue.mem_insert.mp member with rfl | there
    · exact ahead.1
    · exact above k there
  · cases placed
    exact ⟨rfl, above⟩

theorem queueWatchers_above (queued : watchers.foldlM (g.queueWatcher rank) round = some after)
    (above : ∀ k ∈ round.current, rank < k) :
    after.run = round.run ∧ ∀ k ∈ after.current, rank < k := by
  induction watchers generalizing round with
  | nil =>
    cases queued
    exact ⟨rfl, above⟩
  | cons watcher watchers ih =>
    obtain ⟨middle, first, others⟩ := Option.bind_eq_some_iff.mp queued
    obtain ⟨same, higher⟩ := queueWatcher_above first above
    obtain ⟨own, rest⟩ := ih others higher
    exact ⟨own.trans same, rest⟩

/-- After a block only blocks of higher ranks are left in the queue of this round. -/
theorem runRank_above (ran : g.runRank rank round = some (.ok after))
    (above : ∀ k ∈ round.current, rank < k) :
    rank < g.order.length ∧ after.run.rounds = round.run.rounds ∧ ∀ k ∈ after.current, rank < k := by
  obtain ⟨index, placed, found⟩ := Option.bind_eq_some_iff.mp ran
  obtain ⟨block, -, result⟩ := Option.bind_eq_some_iff.mp found
  have rounds := fire_rounds round.run block
  split at result
  · cases result
  · next run touched fired =>
    obtain ⟨queued, routed, same⟩ := Option.bind_eq_some_iff.mp result
    cases same
    obtain ⟨own, higher⟩ := queueWatchers_above routed above
    rw [fired] at rounds
    refine ⟨(List.getElem?_eq_some_iff.mp placed).1, ?_, higher⟩
    rw [own]
    exact rounds

/-- The inner loop of `Executor::propagate`: runs the block of the least rank until the queue of the
round is empty. -/
def drain (g : Graph) (round : QueuedRound) : Option (Except Failure QueuedRound) :=
  match _taken : round.current.popFirst? with
  | none => some (.ok round)
  | some (rank, rest) =>
    match _ran : g.runRank rank { round with current := rest } with
    | none => none
    | some (.error failure) => some (.error failure)
    | some (.ok after) => drain g after
termination_by round.current.room g.order.length
decreasing_by
  have above : ∀ k ∈ rest, rank < k := fun k member => RankQueue.lt_of_popFirst? _taken member
  obtain ⟨inside, -, higher⟩ := runRank_above _ran above
  have fewer := RankQueue.room_lt higher inside
  rw [RankQueue.room.eq_1 round.current, _taken]
  exact fewer

theorem drain_of_none (none : round.current.popFirst? = none) :
    g.drain round = some (.ok round) := by
  unfold drain
  split
  · rfl
  · next taken => cases none.symm.trans taken

theorem drain_of_some {rest : RankQueue} (taken : round.current.popFirst? = some (rank, rest)) :
    g.drain round = (g.runRank rank { round with current := rest }).bind fun
      | .error failure => some (.error failure)
      | .ok after => g.drain after := by
  rw [drain]
  split
  · next none => cases taken.symm.trans none
  · next found =>
    cases taken.symm.trans found
    split <;> next ran => rw [ran]; rfl

theorem drain_rounds (drained : g.drain round = some (.ok after)) :
    after.run.rounds = round.run.rounds := by
  fun_induction drain g round with
  | case1 round =>
    cases drained
    rfl
  | case2 => cases drained
  | case3 => cases drained
  | case4 round rank rest taken next ran ih =>
    have above : ∀ k ∈ rest, rank < k := fun k member => RankQueue.lt_of_popFirst? taken member
    obtain ⟨-, same, -⟩ := runRank_above ran above
    exact (ih drained).trans same

/-! ## Rounds -/

/-- `Executor::propagate`: runs rounds until no block is due, at most so many. -/
def propagate (g : Graph) (cap : Nat) (current : RankQueue) (run : Run)
    (within : run.rounds ≤ cap) : Option (Except Failure Run) :=
  if current.isEmpty then some (.ok run)
  else if full : run.rounds = cap then some (.error ⟨.divergent cap, run⟩)
  else
    match drained : g.drain ⟨{ run with rounds := run.rounds + 1 }, current, .empty, []⟩ with
    | none => none
    | some (.error failure) => some (.error failure)
    | some (.ok round) =>
      have begun : round.run.rounds = run.rounds + 1 := drain_rounds drained
      propagate g cap round.next round.run (by omega)
termination_by cap - run.rounds

variable {cap : Nat} {current : RankQueue} {run : Run}

theorem propagate_of_empty (within : run.rounds ≤ cap) (empty : current.isEmpty) :
    g.propagate cap current run within = some (.ok run) := by
  rw [propagate, if_pos empty]

theorem propagate_of_full (within : run.rounds ≤ cap) (nonempty : ¬ current.isEmpty)
    (full : run.rounds = cap) :
    g.propagate cap current run within = some (.error ⟨.divergent cap, run⟩) := by
  rw [propagate, if_neg nonempty, dif_pos full]

theorem propagate_of_failed (within : run.rounds < cap) (nonempty : ¬ current.isEmpty)
    {failure : Failure}
    (drained : g.drain ⟨{ run with rounds := run.rounds + 1 }, current, .empty, []⟩ =
      some (.error failure)) :
    g.propagate cap current run (Nat.le_of_lt within) = some (.error failure) := by
  rw [propagate, if_neg nonempty, dif_neg (Nat.ne_of_lt within)]
  split
  · next lost => cases drained.symm.trans lost
  · next found =>
    cases drained.symm.trans found
    rfl
  · next found => cases drained.symm.trans found

theorem propagate_of_drained (within : run.rounds < cap) (nonempty : ¬ current.isEmpty)
    (drained : g.drain ⟨{ run with rounds := run.rounds + 1 }, current, .empty, []⟩ =
      some (.ok round)) :
    g.propagate cap current run (Nat.le_of_lt within) =
      g.propagate cap round.next round.run (drain_rounds drained ▸ within) := by
  rw [propagate, if_neg nonempty, dif_neg (Nat.ne_of_lt within)]
  split
  · next lost => cases drained.symm.trans lost
  · next found => cases drained.symm.trans found
  · next found =>
    cases drained.symm.trans found
    rfl

/-- The ranks of blocks in a queue. -/
def queueOf (g : Graph) (blocks : List Nat) : Option RankQueue :=
  blocks.foldlM (fun queue block => (g.ranks[block]?).map queue.insert) .empty

end Graph

/-! ## Transactions -/

namespace Propagator

/-- `Executor::finish`: with these blocks due first, runs rounds and concludes. -/
def finish (p : Propagator) (g : Graph) (submitted : Nat) (due : List Nat) (run : Run)
    (within : run.rounds ≤ p.cap) : Option (Store × Except Fault Entry) := do
  let initial ← g.queueOf due
  let result ← g.propagate p.cap initial run within
  return conclude submitted result

theorem rounds_of_submit {s : Store} {changes : List Change} {run : Run} {touched : List Register}
    (submitted : submit (.start s) [] 0 changes = .ok (run, touched)) : run.rounds = 0 := by
  have rounds := submit_rounds (.start s) [] 0 changes
  rw [submitted] at rounds
  exact rounds

/-- `Executor::commit`: the watchers of what the submitted changes wrote are due first. -/
def commitQueued (p : Propagator) (g : Graph) (s : Store) (changes : List Change) :
    Option (Store × Except Fault Entry) :=
  if changes.isEmpty then some (s, .error .nothingQueued)
  else
    match submitted : submit (.start s) [] 0 changes with
    | .error failure => some (conclude changes.length (.error failure))
    | .ok (run, touched) =>
      p.finish g changes.length (g.watchersOf touched) run
        (rounds_of_submit submitted ▸ Nat.zero_le p.cap)

/-- `Executor::bootstrap`: the blocks that run on load are due first. -/
def bootstrapQueued (p : Propagator) (g : Graph) (s : Store) :
    Option (Store × Except Fault Entry) :=
  p.finish g 0 g.onLoad (.start s) (Nat.zero_le p.cap)

end Propagator

end Ripple
