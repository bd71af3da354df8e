import Mathlib.Data.List.Permutation
import Ripple.Proofs.Atomicity
import Ripple.Proofs.BlockGraph
import Ripple.Proofs.Touches

/-!
Exact scheduling. `Rounds` says which blocks fire, in which order and in which stores, given only the
blocks that are due at first: a block fires in a round if it is due or if one that fired before it in
that round touched what it watches, and it is due in the next round if that was done by one that fired
after it or by itself. Every successful transaction is such a sequence of rounds (`exact_schedule`).
-/

namespace Ripple

/-- A block that ran, and the store before and after. -/
structure Firing where
  block : Nat
  before : Store
  after : Store
  deriving DecidableEq, Repr

namespace Firing

/-- The block asks for the changes. -/
def Asks (blocks : List Block) (f : Firing) (changes : List Change) : Prop :=
  ∃ b, blocks[f.block]? = some b ∧ b.routine f.before = .ok changes

/-- The store after is what the changes of the block lead to. -/
def Genuine (blocks : List Block) (f : Firing) : Prop :=
  ∃ changes, f.Asks blocks changes ∧ carryOut f.before changes = .ok f.after

/-- The changes of the block touch the register. -/
def Touches (blocks : List Block) (f : Firing) (r : Register) : Prop :=
  ∃ changes, f.Asks blocks changes ∧ TouchedBy f.before changes r

/-- Some block watches a register that is touched. -/
def Wakes (blocks : List Block) (f : Firing) (i : Nat) : Prop :=
  ∃ b r, blocks[i]? = some b ∧ f.Touches blocks r ∧ b.watches r

def name? (blocks : List Block) (f : Firing) : Option String :=
  (blocks[f.block]?).map Block.name

end Firing

/-- Each firing begins in the store in which the one before it ended. -/
inductive Chained : Store → List Firing → Store → Prop
  | nil (s : Store) : Chained s [] s
  | cons {f : Firing} {rest : List Firing} {r : Store} (chained : Chained f.after rest r) :
      Chained f.before (f :: rest) r

/-- The blocks that are left for the next round: those that watch what a firing at the same or a
later place touched. -/
def LeftOver (g : Graph) (firings : List Firing) (i : Nat) : Prop :=
  ∃ f ∈ firings, g.rank i ≤ g.rank f.block ∧ f.Wakes g.blocks i

/-- One round from a store to another, with the blocks that are due at its start. -/
structure IsRound (g : Graph) (due : Nat → Prop) (s : Store) (firings : List Firing) (r : Store) :
    Prop where
  nonempty : firings ≠ []
  chained : Chained s firings r
  genuine : ∀ f ∈ firings, f.Genuine g.blocks
  ascending : firings.Pairwise fun f g' => g.rank f.block < g.rank g'.block
  fires_iff : ∀ i, (∃ f ∈ firings, f.block = i) ↔
    due i ∨ ∃ f ∈ firings, g.rank f.block < g.rank i ∧ f.Wakes g.blocks i

/-- Round after round, until no block is due. -/
inductive Rounds (g : Graph) : (Nat → Prop) → Store → List (List Firing) → Store → Prop
  | settled {due : Nat → Prop} {s : Store} (none : ∀ i, ¬ due i) : Rounds g due s [] s
  | round {due : Nat → Prop} {s middle r : Store} {firings : List Firing}
      {rest : List (List Firing)} (first : IsRound g due s firings middle)
      (others : Rounds g (LeftOver g firings) middle rest r) : Rounds g due s (firings :: rest) r

variable {g : Graph} {s r : Store} {firings : List Firing} {i : Nat}

/-! ## What follows from the rounds -/

/-- In a round, whatever comes later in the order than one that wakes it fires after it. -/
theorem IsRound.fires_after {due : Nat → Prop} (round : IsRound g due s firings r)
    {earlier later : List Firing} {f : Firing} (split : firings = earlier ++ f :: later)
    (ahead : g.rank f.block < g.rank i) (wakes : f.Wakes g.blocks i) :
    ∃ f' ∈ later, f'.block = i := by
  have member : f ∈ firings := by simp [split]
  obtain ⟨f', there, own⟩ := (round.fires_iff i).mpr (.inr ⟨f, member, ahead, wakes⟩)
  have ascending := round.ascending
  rw [split] at there ascending
  obtain ⟨-, -, across⟩ := List.pairwise_append.mp ascending
  rcases List.mem_append.mp there with before | here
  · have behind := across f' before f List.mem_cons_self
    rw [own] at behind
    omega
  · rcases List.mem_cons.mp here with rfl | after
    · rw [own] at ahead
      omega
    · exact ⟨f', after, own⟩

namespace Rounds

variable {due : Nat → Prop} {rounds : List (List Firing)}

/-- What is due fires. -/
theorem fires_due (all : Rounds g due s rounds r) (here : due i) :
    ∃ f ∈ rounds.flatten, f.block = i := by
  cases all with
  | settled none => exact absurd here (none i)
  | round first others =>
    obtain ⟨f, member, own⟩ := (first.fires_iff i).mpr (.inl here)
    exact ⟨f, List.mem_append_left _ member, own⟩

/-- What a firing wakes fires after it, in the same round or in the next one. -/
theorem fires_after (all : Rounds g due s rounds r) {earlier later : List Firing} {f : Firing}
    (split : rounds.flatten = earlier ++ f :: later) (wakes : f.Wakes g.blocks i) :
    ∃ f' ∈ later, f'.block = i := by
  induction all generalizing earlier with
  | settled none => simp at split
  | @round due s middle r firings rest first others ih =>
    rw [List.flatten_cons] at split
    rcases split_of_append split with ⟨_, -, inRest⟩ | ⟨after, here, rfl⟩
    · exact ih inRest
    · by_cases ahead : g.rank f.block < g.rank i
      · obtain ⟨f', member, own⟩ := first.fires_after here ahead wakes
        exact ⟨f', List.mem_append_left _ member, own⟩
      · have member : f ∈ firings := by simp [here]
        have left : LeftOver g firings i := ⟨f, member, Nat.not_lt.mp ahead, wakes⟩
        obtain ⟨f', member, own⟩ := others.fires_due left
        exact ⟨f', List.mem_append_right _ member, own⟩

end Rounds

/-- The firings of all rounds follow one another. -/
theorem Chained.append {middle : Store} {later : List Firing} (first : Chained s firings middle)
    (second : Chained middle later r) : Chained s (firings ++ later) r := by
  induction first with
  | nil => exact second
  | cons _ ih => exact .cons (ih second)

theorem Rounds.chained {due : Nat → Prop} {rounds : List (List Firing)}
    (all : Rounds g due s rounds r) :
    Chained s rounds.flatten r ∧ ∀ f ∈ rounds.flatten, f.Genuine g.blocks := by
  induction all with
  | settled => exact ⟨.nil _, by simp⟩
  | round first others ih =>
    obtain ⟨chained, genuine⟩ := ih
    refine ⟨first.chained.append chained, ?_⟩
    intro f member
    rcases List.mem_append.mp member with here | later
    · exact first.genuine f here
    · exact genuine f later

/-- A chain from one of its firings on. -/
theorem Chained.split {f : Firing} {earlier later : List Firing}
    (chained : Chained s (earlier ++ f :: later) r) :
    Chained s earlier f.before ∧ Chained f.after later r := by
  induction earlier generalizing s with
  | nil =>
    cases chained with
    | cons rest => exact ⟨.nil _, rest⟩
  | cons g earlier ih =>
    cases chained with
    | cons rest =>
      obtain ⟨first, second⟩ := ih rest
      exact ⟨.cons first, second⟩

/-! ## A sweep is a round -/

/-- What the lists of a graph say about its blocks. -/
structure Faithful (g : Graph) : Prop where
  mem_ordered : ∀ i b, (i, b) ∈ g.ordered ↔ g.blocks[i]? = some b
  ascending : g.ordered.Pairwise fun a b => g.rank a.1 < g.rank b.1
  mem_watchers : ∀ i r, i ∈ g.watchers r ↔ ∃ b, g.blocks[i]? = some b ∧ b.watches r
  mem_onLoad : ∀ i, i ∈ g.onLoad ↔ ∃ b, g.blocks[i]? = some b ∧ b.activation = .onLoad

theorem faithful_ofBlocks (blocks : List Block) : Faithful (.ofBlocks blocks) where
  mem_ordered _ _ := Graph.mem_ordered_iff
  ascending := Graph.pairwise_ordered blocks
  mem_watchers _ _ := Graph.mem_watchers_iff
  mem_onLoad _ := Graph.mem_onLoad_iff

/-- The watchers of some registers are the blocks that watch one of them. -/
theorem Faithful.mem_watchersOf (faithful : Faithful g) {registers : List Register} :
    i ∈ g.watchersOf registers ↔ ∃ b r, g.blocks[i]? = some b ∧ r ∈ registers ∧ b.watches r := by
  simp only [Graph.watchersOf, List.mem_flatMap, faithful.mem_watchers]
  constructor
  · rintro ⟨r, member, b, there, watches⟩
    exact ⟨b, r, there, member, watches⟩
  · rintro ⟨b, r, there, member, watches⟩
    exact ⟨r, member, b, there, watches⟩

/-- What going through some of the blocks did: which of them fired, and who is due later. -/
structure Swept (g : Graph) (before : Round) (blocks : List (Nat × Block)) (firings : List Firing)
    (after : Round) : Prop where
  chained : Chained before.run.store firings after.run.store
  genuine : ∀ f ∈ firings, f.Genuine g.blocks
  among : (firings.map Firing.block).Sublist (blocks.map Prod.fst)
  fires_iff : ∀ i ∈ blocks.map Prod.fst, (∃ f ∈ firings, f.block = i) ↔
    i ∈ before.due ∨ ∃ f ∈ firings, g.rank f.block < g.rank i ∧ f.Wakes g.blocks i
  later_iff : ∀ i, i ∈ after.later ↔ i ∈ before.later ∨ LeftOver g firings i
  rounds : after.run.rounds = before.run.rounds
  fired : after.run.fired = before.run.fired ++ firings.filterMap (·.name? g.blocks)

theorem mem_ahead_iff {block : Nat} {touched : List Register} {round : Round} :
    i ∈ (g.schedule block touched round).due ↔
      i ∈ round.due ∨ g.rank block < g.rank i ∧ i ∈ g.watchersOf touched := by
  simp [Graph.schedule, List.partition_eq_filter_filter, and_comm]

theorem mem_behind_iff {block : Nat} {touched : List Register} {round : Round} :
    i ∈ (g.schedule block touched round).later ↔
      i ∈ round.later ∨ g.rank i ≤ g.rank block ∧ i ∈ g.watchersOf touched := by
  simp [Graph.schedule, List.partition_eq_filter_filter, and_comm]

/-- A block that runs gives a firing that wakes exactly the watchers of what it touched. -/
theorem firing_of_fire (faithful : Faithful g) {run after : Run} {block : Block}
    {touched : List Register} (there : g.blocks[i]? = some block)
    (fired : run.fire block = .ok (after, touched)) :
    Firing.Genuine g.blocks ⟨i, run.store, after.store⟩ ∧
      (∀ w, w ∈ g.watchersOf touched ↔ Firing.Wakes g.blocks ⟨i, run.store, after.store⟩ w) ∧
      after.rounds = run.rounds ∧ after.fired = run.fired ++ [block.name] := by
  unfold Run.fire at fired
  dsimp only at fired
  split at fired
  · cases fired
  · next changes asked =>
    have carried := applyAll_carried fired
    have asks : Firing.Asks g.blocks ⟨i, run.store, after.store⟩ changes := ⟨block, there, asked⟩
    refine ⟨⟨changes, asks, carried.store⟩, ?_, carried.rounds, carried.fired⟩
    intro w
    rw [faithful.mem_watchersOf]
    refine exists_congr fun b => exists_congr fun r => and_congr_right fun _ => ?_
    refine and_congr_left fun _ => ?_
    rw [carried.touched]
    constructor
    · rintro (none | touched)
      · cases none
      · exact ⟨changes, asks, touched⟩
    · rintro ⟨others, ⟨b, same, asked'⟩, touched⟩
      obtain rfl := Option.some.inj (there.symm.trans same)
      cases asked.symm.trans asked'
      exact .inr touched

namespace Swept

variable {before after : Round} {block : Block} {rest : List (Nat × Block)}

/-- What fires among later blocks has a higher rank. -/
theorem rank_lt (swept : Swept g before rest firings after)
    (behind : ∀ x ∈ rest, g.rank i < g.rank x.1) {f : Firing} (member : f ∈ firings) :
    g.rank i < g.rank f.block := by
  obtain ⟨x, there, same⟩ :=
    List.mem_map.mp (swept.among.subset (List.mem_map_of_mem (f := Firing.block) member))
  exact same ▸ behind x there

/-- A block that is not due is passed over. -/
theorem skip (idle : i ∉ before.due) (behind : ∀ x ∈ rest, g.rank i < g.rank x.1)
    (swept : Swept g before rest firings after) :
    Swept g before ((i, block) :: rest) firings after where
  chained := swept.chained
  genuine := swept.genuine
  among := swept.among.cons i
  fires_iff j member := by
    rcases List.mem_cons.mp member with rfl | member
    · refine iff_of_false ?_ ?_
      · rintro ⟨f, there, own⟩
        exact absurd (swept.rank_lt behind there) (own ▸ Nat.lt_irrefl _)
      · rintro (due | ⟨f, there, ahead, -⟩)
        · exact idle due
        · exact absurd (swept.rank_lt behind there) (Nat.lt_asymm ahead)
    · exact swept.fires_iff j member
  later_iff := swept.later_iff
  rounds := swept.rounds
  fired := swept.fired

/-- A block that is due fires; what it wakes is due in this round or in the next one. -/
theorem fire (faithful : Faithful g) {run : Run} {touched : List Register} (due : i ∈ before.due)
    (there : g.blocks[i]? = some block) (behind : ∀ x ∈ rest, g.rank i < g.rank x.1)
    (fired : before.run.fire block = .ok (run, touched))
    (swept : Swept g (g.schedule i touched { before with run }) rest firings after) :
    Swept g before ((i, block) :: rest) (⟨i, before.run.store, run.store⟩ :: firings) after := by
  obtain ⟨genuine, wakes, rounds, names⟩ := firing_of_fire faithful there fired
  constructor
  · exact .cons (f := ⟨i, before.run.store, run.store⟩) swept.chained
  · exact List.forall_mem_cons.mpr ⟨genuine, swept.genuine⟩
  · exact swept.among.cons_cons i
  · intro j member
    rcases List.mem_cons.mp member with rfl | member
    · exact iff_of_true ⟨_, List.mem_cons_self, rfl⟩ (.inl due)
    · obtain ⟨x, inRest, rfl⟩ := List.mem_map.mp member
      have other : i ≠ x.1 := fun same => absurd (behind x inRest) (same ▸ Nat.lt_irrefl _)
      have later := swept.fires_iff x.1 member
      rw [mem_ahead_iff, wakes] at later
      simp only [List.mem_cons, exists_eq_or_imp, other, false_or, later, or_assoc]
  · intro j
    rw [swept.later_iff, mem_behind_iff, wakes]
    simp only [LeftOver, List.mem_cons, exists_eq_or_imp, or_assoc]
  · exact swept.rounds.trans rounds
  · rw [swept.fired]
    have own : Firing.name? g.blocks ⟨i, before.run.store, run.store⟩ = some block.name := by
      rw [Firing.name?, there]
      rfl
    rw [List.filterMap_cons_some own, ← List.singleton_append, ← List.append_assoc]
    exact congrArg (· ++ _) names

end Swept

/-- Going through blocks by ascending rank fires those that are due or become so on the way. -/
theorem sweep_swept (faithful : Faithful g) {blocks : List (Nat × Block)} {before after : Round}
    (named : ∀ x ∈ blocks, g.blocks[x.1]? = some x.2)
    (ascending : blocks.Pairwise fun a b => g.rank a.1 < g.rank b.1)
    (done : g.sweep before blocks = .ok after) : ∃ firings, Swept g before blocks firings after := by
  induction blocks generalizing before with
  | nil =>
    cases done
    exact ⟨[], .nil _, by simp, .slnil, by simp, by simp [LeftOver], rfl, by simp⟩
  | cons head rest ih =>
    obtain ⟨i, block⟩ := head
    obtain ⟨behind, sorted⟩ := List.pairwise_cons.mp ascending
    have others : ∀ x ∈ rest, g.blocks[x.1]? = some x.2 :=
      fun x member => named x (List.mem_cons_of_mem _ member)
    unfold Graph.sweep at done
    split at done
    · next due =>
      split at done
      · cases done
      · next run touched fired =>
        obtain ⟨firings, swept⟩ := ih others sorted done
        exact ⟨_, swept.fire faithful due (named _ List.mem_cons_self) behind fired⟩
    · next idle =>
      obtain ⟨firings, swept⟩ := ih others sorted done
      exact ⟨firings, swept.skip idle behind⟩

/-- Going through all blocks is a round. -/
theorem Swept.isRound (faithful : Faithful g) {before after : Round}
    (swept : Swept g before g.ordered firings after) (due : before.due ≠ [])
    (valid : ∀ i ∈ before.due, ∃ b, g.blocks[i]? = some b) :
    IsRound g (· ∈ before.due) before.run.store firings after.run.store := by
  have all (i : Nat) : (∃ b, g.blocks[i]? = some b) → i ∈ g.ordered.map Prod.fst := by
    rintro ⟨b, there⟩
    exact List.mem_map_of_mem (f := Prod.fst) ((faithful.mem_ordered i b).mpr there)
  constructor
  · obtain ⟨i, member⟩ := List.exists_mem_of_ne_nil _ due
    obtain ⟨f, there, -⟩ := (swept.fires_iff i (all i (valid i member))).mpr (.inl member)
    exact List.ne_nil_of_mem there
  · exact swept.chained
  · exact swept.genuine
  · have ranks : (g.ordered.map Prod.fst).Pairwise fun v w => g.rank v < g.rank w :=
      List.pairwise_map.mpr faithful.ascending
    simpa only [List.pairwise_map] using ranks.sublist swept.among
  · intro i
    by_cases known : ∃ b, g.blocks[i]? = some b
    · exact swept.fires_iff i (all i known)
    · refine iff_of_false ?_ ?_
      · rintro ⟨f, member, rfl⟩
        obtain ⟨_, ⟨b, there, -⟩, -⟩ := swept.genuine f member
        exact known ⟨b, there⟩
      · rintro (due | ⟨f, -, -, b, r, there, -⟩)
        · exact known (valid i due)
        · exact known ⟨b, there⟩

/-! ## A transaction is a sequence of rounds -/

theorem Rounds.congr {due others : Nat → Prop} {rounds : List (List Firing)}
    (all : Rounds g due s rounds r) (same : ∀ i, due i ↔ others i) : Rounds g others s rounds r := by
  obtain rfl : due = others := funext fun i => propext (same i)
  exact all

theorem Graph.settle_nil (g : Graph) (cap left : Nat) (run : Run) :
    g.settle cap left [] run = .ok run := by
  unfold Graph.settle
  rfl

theorem settle_rounds (faithful : Faithful g) {cap left : Nat} {due : List Nat} {run after : Run}
    (valid : ∀ i ∈ due, ∃ b, g.blocks[i]? = some b)
    (done : g.settle cap left due run = .ok after) :
    ∃ rounds, Rounds g (· ∈ due) run.store rounds after.store ∧
      after.rounds = run.rounds + rounds.length ∧
      after.fired = run.fired ++ rounds.flatten.filterMap (·.name? g.blocks) := by
  induction left generalizing due run with
  | zero =>
    unfold Graph.settle at done
    split at done
    · next none =>
      cases done
      obtain rfl := List.isEmpty_iff.mp none
      exact ⟨[], .settled (by simp), rfl, by simp⟩
    · cases done
  | succ left ih =>
    unfold Graph.settle at done
    split at done
    · next none =>
      cases done
      obtain rfl := List.isEmpty_iff.mp none
      exact ⟨[], .settled (by simp), rfl, by simp⟩
    · next some =>
      dsimp only at done
      split at done
      · cases done
      · next round result =>
        obtain ⟨firings, swept⟩ := sweep_swept faithful
          (fun x member => (faithful.mem_ordered x.1 x.2).mp member) faithful.ascending result
        have later (i : Nat) : i ∈ round.later ↔ LeftOver g firings i := by
          simpa using swept.later_iff i
        have first := swept.isRound faithful (by simpa using some) valid
        obtain ⟨rest, others, count, names⟩ := ih (fun i member => by
          obtain ⟨f, -, -, b, r, there, -⟩ := (later i).mp member
          exact ⟨b, there⟩) done
        refine ⟨firings :: rest, .round first (others.congr later), ?_, ?_⟩
        · have began : round.run.rounds = run.rounds + 1 := swept.rounds
          rw [count, began, List.length_cons, Nat.add_assoc, Nat.add_comm 1]
        · rw [names, swept.fired, List.flatten_cons, List.filterMap_append, List.append_assoc]

/-- The rounds of a completed transaction: the entry counts them and names the blocks in the order in
which they fired, and every block that is woken fires after what woke it. -/
structure Scheduled (g : Graph) (due : Nat → Prop) (first last : Store) (entry : Entry)
    (rounds : List (List Firing)) : Prop where
  sequence : Rounds g due first rounds last
  count : entry.rounds = rounds.length
  fired : entry.fired = rounds.flatten.filterMap (·.name? g.blocks)
  due_fires : ∀ i, due i → ∃ f ∈ rounds.flatten, f.block = i
  woken_fires : ∀ earlier f later, rounds.flatten = earlier ++ f :: later →
    ∀ i, f.Wakes g.blocks i → ∃ f' ∈ later, f'.block = i

theorem scheduled_of_settle (faithful : Faithful g) (submitted : Nat) {cap : Nat} {due : List Nat}
    (start : Nat → Prop) {run after : Run} (started : ∀ i, i ∈ due ↔ start i)
    (valid : ∀ i, start i → ∃ b, g.blocks[i]? = some b) (fresh : run.rounds = 0)
    (none : run.fired = []) (done : g.settle cap cap due run = .ok after) :
    ∃ rounds, Scheduled g start run.store after.store (after.entry submitted) rounds := by
  obtain ⟨rounds, all, count, names⟩ := settle_rounds faithful
    (fun i member => valid i ((started i).mp member)) done
  have scheduled := all.congr started
  refine ⟨rounds, scheduled, ?_, ?_, fun i here => scheduled.fires_due here,
    fun earlier f later split i wakes => scheduled.fires_after split wakes⟩
  · rw [Run.entry, count, fresh, Nat.zero_add]
  · rw [Run.entry, names, none, List.nil_append]

theorem conclude_eq_ok {submitted : Nat} {result : Except Failure Run} {entry : Entry}
    (done : Propagator.conclude submitted result = (r, .ok entry)) :
    ∃ run, result = .ok run ∧ r = run.store ∧ entry = run.entry submitted := by
  cases result with
  | error failure => cases done
  | ok run =>
    cases done
    exact ⟨run, rfl, rfl, rfl⟩

/-- A commit succeeds if something is submitted, the changes are accepted and the blocks settle. -/
theorem commit_eq_ok_iff {p : Propagator} {entry : Entry} {changes : List Change} :
    p.commit g s changes = (r, .ok entry) ↔ changes ≠ [] ∧ ∃ run touched after,
      Propagator.submit (.start s) [] 0 changes = .ok (run, touched) ∧
      g.settle p.cap p.cap (g.watchersOf touched) run = .ok after ∧ r = after.store ∧
      entry = after.entry changes.length := by
  by_cases nonempty : changes = []
  · subst nonempty
    refine iff_of_false ?_ fun found => found.1 rfl
    rintro ⟨⟩
  · rw [p.commit_eq_conclude _ s nonempty]
    constructor
    · intro done
      obtain ⟨after, result, store, own⟩ := conclude_eq_ok done
      obtain ⟨⟨run, touched⟩, submitted, settled⟩ := bind_eq_ok_iff.mp result
      exact ⟨nonempty, run, touched, after, submitted, settled, store, own⟩
    · rintro ⟨-, run, touched, after, submitted, settled, rfl, rfl⟩
      have result : p.transact g s changes = .ok after :=
        bind_eq_ok_iff.mpr ⟨(run, touched), submitted, settled⟩
      rw [result]
      rfl

/-- A successful commit goes through rounds from the store that its changes lead to, and first due are
the watchers of what they touched. -/
theorem scheduled_of_commit {p : Propagator} {blocks : List Block} {entry : Entry}
    {changes : List Change} (done : p.commit (.ofBlocks blocks) s changes = (r, .ok entry)) :
    ∃ first rounds, carryOut s changes = .ok first ∧
      Scheduled (.ofBlocks blocks)
        (fun i => ∃ b q, blocks[i]? = some b ∧ TouchedBy s changes q ∧ b.watches q)
        first r entry rounds := by
  have faithful := faithful_ofBlocks blocks
  obtain ⟨-, run, touched, after, submitted, settled, rfl, rfl⟩ := commit_eq_ok_iff.mp done
  have carried := submit_carried submitted
  obtain ⟨rounds, scheduled⟩ := scheduled_of_settle faithful changes.length
    (fun i => ∃ b q, blocks[i]? = some b ∧ TouchedBy s changes q ∧ b.watches q)
    (fun i => by
      rw [faithful.mem_watchersOf]
      simp only [carried.touched, List.not_mem_nil, false_or]
      rfl)
    (fun i => by
      rintro ⟨b, q, there, -⟩
      exact ⟨b, there⟩) carried.rounds carried.fired settled
  exact ⟨run.store, rounds, carried.store, scheduled⟩

/-- Successful loading goes through rounds from the store as it is, and first due are the blocks that
run on load. -/
theorem scheduled_of_bootstrap {p : Propagator} {blocks : List Block} {entry : Entry}
    (done : p.bootstrap (.ofBlocks blocks) s = (r, .ok entry)) :
    ∃ rounds, Scheduled (.ofBlocks blocks)
      (fun i => ∃ b, blocks[i]? = some b ∧ b.activation = .onLoad) s r entry rounds := by
  rw [p.bootstrap_eq_conclude] at done
  obtain ⟨after, result, rfl, rfl⟩ := conclude_eq_ok done
  have faithful := faithful_ofBlocks blocks
  exact scheduled_of_settle faithful 0 _ faithful.mem_onLoad
    (fun i => by
      rintro ⟨b, there, -⟩
      exact ⟨b, there⟩) rfl rfl result

/-- **Exact scheduling.** Where a commit succeeds, the submitted changes lead to some store, and from
there the blocks that watch what they touched are the first that are due. Where loading succeeds,
those that run on load are. From then on blocks fire round after round exactly as `Rounds` says. -/
theorem exact_schedule (p : Propagator) (blocks : List Block) (s r : Store) (entry : Entry) :
    (∀ changes, p.commit (.ofBlocks blocks) s changes = (r, .ok entry) →
      ∃ first rounds, carryOut s changes = .ok first ∧
        Scheduled (.ofBlocks blocks)
          (fun i => ∃ b q, blocks[i]? = some b ∧ TouchedBy s changes q ∧ b.watches q)
          first r entry rounds) ∧
    (p.bootstrap (.ofBlocks blocks) s = (r, .ok entry) →
      ∃ rounds, Scheduled (.ofBlocks blocks)
        (fun i => ∃ b, blocks[i]? = some b ∧ b.activation = .onLoad) s r entry rounds) := by
  constructor
  · intro changes done
    exact scheduled_of_commit done
  · intro done
    exact scheduled_of_bootstrap done

/-- A block that answers to a log of its own, declared before the one that writes the log. -/
def answering : List Block :=
  [⟨"answer", .onWatch, [.any ⟨3⟩], [], fun _ => .ok []⟩,
    ⟨"log", .onWatch, [.any ⟨1⟩], [.any ⟨3⟩], fun _ => .ok
      [.define ⟨3⟩ "log" [⟨"m", ⟨4⟩, .text⟩], .set ⟨1⟩ 0 (.position 1) (.number .one)]⟩]

/-- The log is due twice, as it touches what it watches itself. -/
theorem exact_schedule_feedback :
    ∃ r entry, (Propagator.ofCap 4).commit (.ofBlocks answering) oneCell
        [.append ⟨1⟩ [[.number .zero]]] = (r, .ok entry) ∧
      entry.rounds = 2 ∧ entry.fired = ["log", "answer", "log"] ∧
      ∃ first rounds, carryOut oneCell [.append ⟨1⟩ [[.number .zero]]] = .ok first ∧
        Scheduled (.ofBlocks answering)
          (fun i => ∃ b q, answering[i]? = some b ∧
            TouchedBy oneCell [.append ⟨1⟩ [[.number .zero]]] q ∧ b.watches q)
          first r entry rounds := by
  have done : (Propagator.ofCap 4).commit (.ofBlocks answering) oneCell
      [.append ⟨1⟩ [[.number .zero]]] =
        (⟨[⟨⟨1⟩, "t", [⟨⟨"a", ⟨2⟩, .number⟩, [.number .one, .number .zero]⟩], 2⟩,
            ⟨⟨3⟩, "log", [⟨⟨"m", ⟨4⟩, .text⟩, []⟩], 0⟩]⟩,
          .ok ⟨0, 1, [.cell ⟨1⟩ 1 0 none (.number .zero),
            .created ⟨3⟩ "log" [⟨"m", ⟨4⟩, .text⟩],
            .cell ⟨1⟩ 0 0 (some (.number .zero)) (.number .one)], 2, ["log", "answer", "log"]⟩) := by
    cbv
  exact ⟨_, _, done, rfl, rfl, (exact_schedule _ answering oneCell _ _).1 _ done⟩

end Ripple
