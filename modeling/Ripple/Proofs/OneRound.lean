import Ripple.Proofs.Schedule

/-!
A graph without feedback edges settles in one round. If the blocks touch no more than they produce, a
block wakes only blocks that come later in the order (`rank_lt_of_wakes`). So nothing is left over for
a second round, and a block that fires comes after all that it answers to (`settles_in_one_round`).
-/

namespace Ripple

/-- The block produces the register, or any column of its table. -/
def Block.Covers (b : Block) (r : Register) : Prop := r ∈ b.produce ∨ .any r.table ∈ b.produce

/-- What the block touches when it runs on the store, it produces. -/
def Block.CoversOn (b : Block) (s : Store) : Prop :=
  ∀ changes r, b.routine s = .ok changes → TouchedBy s changes r → b.Covers r

/-- Blocks that fire one after the other lead from one store to the other. -/
def FiresTo (blocks : List Block) : Store → Store → Prop :=
  Relation.ReflTransGen fun q r => ∃ i, Firing.Genuine blocks ⟨i, q, r⟩

/-- What happens in a transaction of one round: the blocks that are due or woken fire, each of them
once and after all those that wake it. -/
structure OneRound (blocks : List Block) (due : Nat → Prop) (first last : Store) (entry : Entry)
    (firings : List Firing) : Prop where
  chained : Chained first firings last
  genuine : ∀ f ∈ firings, f.Genuine blocks
  fires_iff : ∀ i, (∃ f ∈ firings, f.block = i) ↔ due i ∨ ∃ f ∈ firings, f.Wakes blocks i
  once : (firings.map Firing.block).Nodup
  after_wakers : ∀ earlier f later, firings = earlier ++ f :: later →
    ∀ f' ∈ firings, f'.Wakes blocks f.block → f' ∈ earlier
  rounds : entry.rounds = if firings = [] then 0 else 1
  fired : entry.fired = firings.filterMap (·.name? blocks)

/-- The commit is not given up for want of rounds, and where it succeeds it takes one round at most, with
the watchers of what the submitted changes touched due in it. -/
def Propagator.CommitsInOneRound (p : Propagator) (blocks : List Block) (s : Store)
    (changes : List Change) : Prop :=
  (∀ r n, p.commit (.ofBlocks blocks) s changes ≠ (r, .error (.divergent n))) ∧
    ∀ r entry, p.commit (.ofBlocks blocks) s changes = (r, .ok entry) →
      ∃ first firings, carryOut s changes = .ok first ∧
        OneRound blocks (fun i => ∃ b q, blocks[i]? = some b ∧ TouchedBy s changes q ∧ b.watches q)
          first r entry firings

/-- So it is with loading, where the blocks are due that run on load. -/
def Propagator.LoadsInOneRound (p : Propagator) (blocks : List Block) (s : Store) : Prop :=
  (∀ r n, p.bootstrap (.ofBlocks blocks) s ≠ (r, .error (.divergent n))) ∧
    ∀ r entry, p.bootstrap (.ofBlocks blocks) s = (r, .ok entry) →
      ∃ firings, OneRound blocks (fun i => ∃ b, blocks[i]? = some b ∧ b.activation = .onLoad)
        s r entry firings

variable {blocks : List Block} {b c : Block} {s r first : Store} {firings : List Firing} {f : Firing}
  {i : Nat}

/-! ## Blocks wake later blocks only -/

/-- A block feeds those that watch a register that it covers. -/
theorem Block.feeds_of_covers {q : Register} (covers : b.Covers q) (watches : c.watches q) :
    b.feeds c := by
  obtain ⟨w, watched, seen⟩ := List.any_eq_true.mp watches
  rcases covers with own | any
  · exact List.any_eq_true.mpr ⟨q, own, watches⟩
  · refine List.any_eq_true.mpr ⟨_, any, List.any_eq_true.mpr ⟨w, watched, ?_⟩⟩
    exact overlaps_iff.mpr ⟨(overlaps_iff.mp seen).1, .inl rfl⟩

theorem rank_lt_of_wakes (forward : (Graph.ofBlocks blocks).feedbackCount = 0)
    (covers : ∀ b ∈ blocks, b.CoversOn f.before)
    (wakes : f.Wakes blocks i) :
    (Graph.ofBlocks blocks).rank f.block < (Graph.ofBlocks blocks).rank i := by
  obtain ⟨c, q, here, ⟨changes, ⟨b, there, asked⟩, touched⟩, watches⟩ := wakes
  have covered := covers b (List.mem_of_getElem? there) changes q asked touched
  exact Graph.rank_lt_of_feeds forward there here (Block.feeds_of_covers covered watches)

/-- Every firing of a chain begins in a store that firings lead to. -/
theorem Chained.firesTo (chained : Chained s firings r) (genuine : ∀ f ∈ firings, f.Genuine blocks)
    (member : f ∈ firings) : FiresTo blocks s f.before := by
  induction chained with
  | nil => cases member
  | @cons f' rest r chained ih =>
    rcases List.mem_cons.mp member with rfl | member
    · exact .refl
    · have others := ih (fun g inside => genuine g (List.mem_cons_of_mem _ inside)) member
      exact .head ⟨f'.block, genuine f' List.mem_cons_self⟩ others

theorem FiresTo.carryOut (leads : FiresTo blocks s r) : ∃ past, carryOut s past = .ok r := by
  induction leads with
  | refl => exact ⟨[], rfl⟩
  | tail _ fires ih =>
    obtain ⟨past, before⟩ := ih
    obtain ⟨i, changes, -, after⟩ := fires
    exact ⟨past ++ changes, (carryOut_append before).trans after⟩

section

variable (forward : (Graph.ofBlocks blocks).feedbackCount = 0)
  (covers : ∀ q, FiresTo blocks first q → ∀ b ∈ blocks, b.CoversOn q)

include forward covers

/-- Along a chain blocks wake later blocks only. -/
theorem Chained.rank_lt (chained : Chained first firings r)
    (genuine : ∀ f ∈ firings, f.Genuine blocks) (member : f ∈ firings)
    (wakes : f.Wakes blocks i) :
    (Graph.ofBlocks blocks).rank f.block < (Graph.ofBlocks blocks).rank i :=
  rank_lt_of_wakes forward (covers _ (chained.firesTo genuine member)) wakes

theorem Chained.not_leftOver (chained : Chained first firings r)
    (genuine : ∀ f ∈ firings, f.Genuine blocks) : ¬ LeftOver (.ofBlocks blocks) firings i := by
  rintro ⟨f, member, behind, wakes⟩
  exact Nat.not_lt.mpr behind (chained.rank_lt forward covers genuine member wakes)

end

/-! ## There is no second round -/

section

variable {g : Graph}

/-- The first block of a round is due, as no block fires before it. -/
theorem IsRound.exists_due {due : Nat → Prop} (round : IsRound g due s firings r) :
    ∃ i, due i := by
  obtain ⟨f, rest, rfl⟩ := List.exists_cons_of_ne_nil round.nonempty
  rcases (round.fires_iff f.block).mp ⟨f, List.mem_cons_self, rfl⟩ with due | ⟨f', member, ahead, -⟩
  · exact ⟨_, due⟩
  · obtain ⟨least, -⟩ := List.pairwise_cons.mp round.ascending
    rcases List.mem_cons.mp member with rfl | member
    · exact absurd ahead (Nat.lt_irrefl _)
    · exact absurd ahead (Nat.lt_asymm (least f' member))

theorem Run.applyAll_ne_divergent {block : String} {run : Run} {listed : List Register}
    {changes : List Change} {failure : Failure} {n : Nat}
    (failed : run.applyAll block listed changes = .error failure) : failure.fault ≠ .divergent n := by
  induction changes generalizing run listed with
  | nil => cases failed
  | cons change rest ih =>
    unfold Run.applyAll at failed
    split at failed
    · cases failed
      rintro ⟨⟩
    · exact ih failed

theorem Run.fire_ne_divergent {run : Run} {block : Block} {failure : Failure} {n : Nat}
    (failed : run.fire block = .error failure) : failure.fault ≠ .divergent n := by
  unfold Run.fire at failed
  dsimp only at failed
  split at failed
  · cases failed
    rintro ⟨⟩
  · exact applyAll_ne_divergent failed

theorem Graph.sweep_ne_divergent {round : Round} {visited : List (Nat × Block)} {failure : Failure}
    {n : Nat} (failed : g.sweep round visited = .error failure) : failure.fault ≠ .divergent n := by
  induction visited generalizing round with
  | nil => cases failed
  | cons head rest ih =>
    unfold Graph.sweep at failed
    split at failed
    · split at failed
      · next stopped =>
        cases failed
        exact Run.fire_ne_divergent stopped
      · exact ih failed
    · exact ih failed

theorem Propagator.submit_ne_divergent {run : Run} {listed : List Register} {index : Nat}
    {changes : List Change} {failure : Failure} {n : Nat}
    (failed : submit run listed index changes = .error failure) : failure.fault ≠ .divergent n := by
  induction changes generalizing run listed index with
  | nil => cases failed
  | cons change rest ih =>
    unfold Propagator.submit at failed
    split at failed
    · cases failed
      rintro ⟨⟩
    · exact ih failed

end

section

variable (forward : (Graph.ofBlocks blocks).feedbackCount = 0)

include forward

/-- If one round is allowed, blocks settle or fail for another reason than that. -/
theorem settle_ne_divergent {cap left n : Nat} {due : List Nat} {run : Run} {failure : Failure}
    (allowed : 1 ≤ left) (covers : ∀ q, FiresTo blocks run.store q → ∀ b ∈ blocks, b.CoversOn q)
    (failed : (Graph.ofBlocks blocks).settle cap left due run = .error failure) :
    failure.fault ≠ .divergent n := by
  have faithful := faithful_ofBlocks blocks
  obtain ⟨left, rfl⟩ : ∃ others, left = others + 1 := ⟨left - 1, by omega⟩
  unfold Graph.settle at failed
  split at failed
  · cases failed
  · dsimp only at failed
    split at failed
    · next stopped =>
      cases failed
      exact Graph.sweep_ne_divergent stopped
    · next round result =>
      obtain ⟨firings, swept⟩ := sweep_swept faithful
        (fun x member => (faithful.mem_ordered x.1 x.2).mp member) faithful.ascending result
      have none : round.later = [] := by
        refine List.eq_nil_iff_forall_not_mem.mpr fun i member => ?_
        rcases (swept.later_iff i).mp member with before | left
        · cases before
        · exact swept.chained.not_leftOver forward covers swept.genuine left
      rw [none] at failed
      unfold Graph.settle at failed
      cases failed

/-- A completed transaction went through one round if any block was due. -/
theorem Scheduled.oneRound {due : Nat → Prop} {last : Store} {entry : Entry}
    {rounds : List (List Firing)} (covers : ∀ q, FiresTo blocks first q → ∀ b ∈ blocks, b.CoversOn q)
    (scheduled : Scheduled (.ofBlocks blocks) due first last entry rounds) :
    ∃ firings, OneRound blocks due first last entry firings := by
  obtain ⟨sequence, count, fired, -, -⟩ := scheduled
  cases sequence with
  | settled none =>
    exact ⟨[], .nil _, by simp, by simpa using none, by simp, by simp, count, fired⟩
  | @round _ _ middle _ firings rest round others =>
    obtain rfl : rest = [] := by
      cases others with
      | settled => rfl
      | round second =>
        obtain ⟨i, left⟩ := second.exists_due
        exact absurd left (round.chained.not_leftOver forward covers round.genuine)
    have later {f : Firing} {i : Nat} (member : f ∈ firings) (wakes : f.Wakes blocks i) :
        (Graph.ofBlocks blocks).rank f.block < (Graph.ofBlocks blocks).rank i :=
      round.chained.rank_lt forward covers round.genuine member wakes
    obtain rfl : middle = last := by
      cases others
      rfl
    refine ⟨firings, round.chained, round.genuine, ?_, ?_, ?_, ?_, ?_⟩
    · intro i
      rw [round.fires_iff i]
      refine or_congr_right (exists_congr fun f => and_congr_right fun member => ?_)
      exact ⟨And.right, fun wakes => ⟨later member wakes, wakes⟩⟩
    · refine List.pairwise_map.mpr (round.ascending.imp ?_)
      intro f f' ahead same
      exact Nat.ne_of_lt ahead (congrArg _ same)
    · intro earlier f behind split f' member wakes
      have ahead := later member wakes
      have ascending := round.ascending
      rw [split] at member ascending
      rcases List.mem_append.mp member with before | after
      · exact before
      · obtain ⟨-, least, -⟩ := List.pairwise_append.mp ascending
        rcases List.mem_cons.mp after with rfl | after
        · exact absurd ahead (Nat.lt_irrefl _)
        · exact absurd ahead (Nat.lt_asymm ((List.pairwise_cons.mp least).1 f' after))
    · rw [count, if_neg round.nonempty]
      rfl
    · rw [List.flatten_singleton] at fired
      exact fired

theorem commit_ne_divergent {p : Propagator} (allowed : 1 ≤ p.cap) {changes : List Change} {n : Nat}
    (covers : ∀ first, carryOut s changes = .ok first →
      ∀ q, FiresTo blocks first q → ∀ b ∈ blocks, b.CoversOn q) :
    p.commit (.ofBlocks blocks) s changes ≠ (r, .error (.divergent n)) := by
  by_cases nonempty : changes = []
  · subst nonempty
    rintro ⟨⟩
  · rw [p.commit_eq_conclude _ s nonempty, Propagator.transact]
    cases submitted : Propagator.submit (.start s) [] 0 changes with
    | error failure =>
      intro failed
      exact Propagator.submit_ne_divergent submitted (Except.error.inj (congrArg Prod.snd failed))
    | ok reached =>
      have carried := (submit_carried submitted).store
      cases settled : (Graph.ofBlocks blocks).settle p.cap p.cap
          ((Graph.ofBlocks blocks).watchersOf reached.2) reached.1 with
      | error failure =>
        intro failed
        simp only [bind, Except.bind, settled] at failed
        exact settle_ne_divergent forward allowed (covers _ carried) settled
          (Except.error.inj (congrArg Prod.snd failed))
      | ok run =>
        simp only [bind, Except.bind, settled]
        rintro ⟨⟩

theorem bootstrap_ne_divergent {p : Propagator} (allowed : 1 ≤ p.cap) {n : Nat}
    (covers : ∀ q, FiresTo blocks s q → ∀ b ∈ blocks, b.CoversOn q) :
    p.bootstrap (.ofBlocks blocks) s ≠ (r, .error (.divergent n)) := by
  rw [p.bootstrap_eq_conclude, Propagator.launch]
  cases settled : (Graph.ofBlocks blocks).settle p.cap p.cap (Graph.ofBlocks blocks).onLoad
      (.start s) with
  | error failure =>
    intro failed
    exact settle_ne_divergent forward allowed covers settled
      (Except.error.inj (congrArg Prod.snd failed))
  | ok run => rintro ⟨⟩

end

/-! ## Commits and loading -/

section

variable {p : Propagator} {changes : List Change}

theorem commitsInOneRound (allowed : 1 ≤ p.cap) (forward : (Graph.ofBlocks blocks).feedbackCount = 0)
    (covers : ∀ first, carryOut s changes = .ok first →
      ∀ q, FiresTo blocks first q → ∀ b ∈ blocks, b.CoversOn q) :
    p.CommitsInOneRound blocks s changes := by
  refine ⟨fun r n => commit_ne_divergent forward allowed covers, ?_⟩
  intro r entry done
  obtain ⟨first, rounds, carried, scheduled⟩ := scheduled_of_commit done
  obtain ⟨firings, round⟩ := scheduled.oneRound forward (covers first carried)
  exact ⟨first, firings, carried, round⟩

theorem loadsInOneRound (allowed : 1 ≤ p.cap) (forward : (Graph.ofBlocks blocks).feedbackCount = 0)
    (covers : ∀ q, FiresTo blocks s q → ∀ b ∈ blocks, b.CoversOn q) :
    p.LoadsInOneRound blocks s := by
  refine ⟨fun r n => bootstrap_ne_divergent forward allowed covers, ?_⟩
  intro r entry done
  obtain ⟨rounds, scheduled⟩ := scheduled_of_bootstrap done
  exact scheduled.oneRound forward covers

end

/-- **Without feedback edges one round is enough.** Let the graph have no feedback edge, let one round
be allowed, and let the blocks touch no more than they produce on any store that changes lead to. Then
neither a commit nor loading is given up for want of rounds. Where one succeeds there is at most one
round, in which the blocks that are due or woken fire, each of them once and after all blocks that
touched something it watches. -/
theorem settles_in_one_round (p : Propagator) (allowed : 1 ≤ p.cap) (blocks : List Block)
    (forward : (Graph.ofBlocks blocks).feedbackCount = 0) (s : Store)
    (covers : ∀ past q, carryOut s past = .ok q → ∀ b ∈ blocks, b.CoversOn q) :
    (∀ changes, p.CommitsInOneRound blocks s changes) ∧ p.LoadsInOneRound blocks s := by
  have later : ∀ changes first, carryOut s changes = .ok first →
      ∀ q, FiresTo blocks first q → ∀ b ∈ blocks, b.CoversOn q := by
    intro changes first before q leads
    obtain ⟨past, after⟩ := leads.carryOut
    exact covers (changes ++ past) q ((carryOut_append before).trans after)
  constructor
  · intro changes
    exact commitsInOneRound allowed forward (later changes)
  · exact loadsInOneRound allowed forward (later [] s rfl)

/-- A block that writes one to a column of table 1 when others of its columns are written. -/
def marking (name : String) (watched : List Ident) (target : Ident) : Block where
  name := name
  activation := .onWatch
  watch := watched.map fun key => ⟨⟨1⟩, some key⟩
  produce := [⟨⟨1⟩, some target⟩]
  routine _ := .ok [.set ⟨1⟩ 0 (.id target) (.number .one)]

theorem coversOn_marking (name : String) (watched : List Ident) (target : Ident) (s : Store) :
    (marking name watched target).CoversOn s := by
  intro changes r asked touched
  cases asked
  obtain ⟨change, member, own⟩ := touched.register (by simp [Change.register?])
  obtain rfl := List.mem_singleton.mp member
  cases own
  exact .inl List.mem_cons_self

/-- Two ways from column 1 to column 4, declared from their end. -/
def diamond : List Block :=
  [marking "join" [⟨2⟩, ⟨3⟩] ⟨4⟩, marking "left" [⟨1⟩] ⟨2⟩, marking "right" [⟨1⟩] ⟨3⟩]

/-- A row of zeros. -/
def fourCells : Store :=
  ⟨[⟨⟨1⟩, "t", [⟨⟨"a", ⟨1⟩, .number⟩, [.number .zero]⟩, ⟨⟨"b", ⟨2⟩, .number⟩, [.number .zero]⟩,
    ⟨⟨"c", ⟨3⟩, .number⟩, [.number .zero]⟩, ⟨⟨"d", ⟨4⟩, .number⟩, [.number .zero]⟩], 1⟩]⟩

/-- Where the ways meet the block fires once, after both. -/
theorem settles_in_one_round_diamond :
    (Graph.ofBlocks diamond).feedbackCount = 0 ∧
      (∃ r entry, (Propagator.ofCap 1).commit (.ofBlocks diamond) fourCells
          [.set ⟨1⟩ 0 (.position 1) (.number .one)] = (r, .ok entry) ∧
        entry.rounds = 1 ∧ entry.fired = ["left", "right", "join"]) ∧
      (Propagator.ofCap 1).CommitsInOneRound diamond fourCells
        [.set ⟨1⟩ 0 (.position 1) (.number .one)] := by
  have forward : (Graph.ofBlocks diamond).feedbackCount = 0 := by cbv
  have covers : ∀ past q, carryOut fourCells past = .ok q → ∀ b ∈ diamond, b.CoversOn q := by
    intro past q carried b member
    simp only [diamond, List.mem_cons, List.not_mem_nil, or_false] at member
    obtain rfl | rfl | rfl := member
    all_goals exact coversOn_marking _ _ _ q
  have done : ∃ r entry, (Propagator.ofCap 1).commit (.ofBlocks diamond) fourCells
      [.set ⟨1⟩ 0 (.position 1) (.number .one)] = (r, .ok entry) ∧
        entry.rounds = 1 ∧ entry.fired = ["left", "right", "join"] := by
    exact ⟨_, _, by cbv, rfl, rfl⟩
  exact ⟨forward, done,
    (settles_in_one_round (.ofCap 1) (by decide) diamond forward fourCells covers).1 _⟩

end Ripple
