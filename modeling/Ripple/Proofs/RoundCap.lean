import Ripple.Proofs.OneRound

/-!
How many rounds are allowed. `Settles` goes from round to round without a limit, up to the round after
which no block is due or in which one fails. A limit of so many rounds or more makes no difference to
what this comes to, and with a smaller one the blocks are given up as not settling
(`Settles.settle_of_le`, `Settles.settle_of_lt`). So the limit decides whether a transaction is given
up, and nothing else (`limit_decides_divergence_only`).
-/

namespace Ripple

/-- The beginning of the next round. -/
def Run.nextRound (run : Run) (due : List Nat) : Round :=
  ⟨{ run with rounds := run.rounds + 1 }, due, []⟩

/-- Round after round, as many as it takes, until no block is due or one of them fails. -/
inductive Settles (g : Graph) : List Nat → Run → Nat → Except Failure Run → Prop
  | settled {run : Run} : Settles g [] run 0 (.ok run)
  | failed {due : List Nat} {run : Run} {failure : Failure} (some : due ≠ [])
      (stopped : g.sweep (run.nextRound due) g.ordered = .error failure) :
      Settles g due run 1 (.error failure)
  | round {due : List Nat} {run : Run} {round : Round} {count : Nat} {result : Except Failure Run}
      (some : due ≠ []) (swept : g.sweep (run.nextRound due) g.ordered = .ok round)
      (others : Settles g round.later round.run count result) : Settles g due run (count + 1) result

/-- The computation did not stop for want of rounds. -/
def Decided {α : Type} (result : Except Failure α) : Prop :=
  ∀ failure n, result = .error failure → failure.fault ≠ .divergent n

/-- Where `count` rounds are allowed, or more, the answer is this one. Where fewer are allowed the blocks
do not settle, and the store is as before. -/
structure TakesRounds (answer : Propagator → Store × Except Fault Entry) (s : Store) (count : Nat)
    (result : Store × Except Fault Entry) : Prop where
  enough : ∀ q : Propagator, count ≤ q.cap → answer q = result
  short : ∀ q : Propagator, q.cap < count →
    (answer q).2 = .error (.divergent q.cap) ∧ (s.Sound → (answer q).1 = s)

variable {g : Graph} {s : Store} {due : List Nat} {run : Run} {count cap left : Nat}
  {result : Except Failure Run}

/-! ## Counting rounds -/

theorem sweep_rounds (round : Round) (blocks : List (Nat × Block)) :
    roundsBegun Round.run (g.sweep round blocks) = round.run.rounds := by
  induction blocks generalizing round with
  | nil => rfl
  | cons head rest ih =>
    unfold Graph.sweep
    split
    · have fired := fire_rounds round.run head.2
      split
      · next stopped => rwa [stopped] at fired
      · next run touched done =>
        rw [done] at fired
        exact (ih _).trans fired
    · exact ih round

theorem Settles.rounds (settles : Settles g due run count result) :
    roundsBegun id result = run.rounds + count := by
  induction settles with
  | settled => rfl
  | @failed due run failure _ stopped =>
    have begun := sweep_rounds (g := g) (run.nextRound due) g.ordered
    rwa [stopped] at begun
  | @round due run round count _ _ swept _ ih =>
    have begun := sweep_rounds (g := g) (run.nextRound due) g.ordered
    rw [swept] at begun
    have first : round.run.rounds = run.rounds + 1 := begun
    rw [ih, first, Nat.add_assoc, Nat.add_comm 1]

/-! ## With a limit and without -/

theorem settle_zero (some : due ≠ []) :
    g.settle cap 0 due run = .error ⟨.divergent cap, run⟩ := by
  unfold Graph.settle
  rw [if_neg (by simpa using some)]

theorem settle_succ (some : due ≠ []) :
    g.settle cap (left + 1) due run =
      g.sweep (run.nextRound due) g.ordered >>= fun round =>
        g.settle cap left round.later round.run := by
  rw [Graph.settle, if_neg (by simpa using some), ← Run.nextRound]
  cases g.sweep (run.nextRound due) g.ordered <;> rfl

/-- With enough rounds the limit makes no difference. -/
theorem Settles.settle_of_le (settles : Settles g due run count result) (enough : count ≤ left) :
    g.settle cap left due run = result := by
  induction settles generalizing left with
  | settled => exact g.settle_nil ..
  | failed some stopped =>
    obtain ⟨left, rfl⟩ := Nat.exists_eq_add_of_le' enough
    rw [settle_succ some, stopped]
    rfl
  | @round _ _ _ count _ some swept _ ih =>
    obtain ⟨left, rfl⟩ := Nat.exists_eq_add_of_le' (Nat.le_trans (Nat.le_add_left 1 count) enough)
    rw [settle_succ some, swept]
    exact ih (Nat.le_of_succ_le_succ enough)

/-- With fewer rounds the blocks are given up. -/
theorem Settles.settle_of_lt (settles : Settles g due run count result) (short : left < count) :
    ∃ stopped, g.settle cap left due run = .error ⟨.divergent cap, stopped⟩ := by
  induction settles generalizing left with
  | settled => exact absurd short (Nat.not_lt_zero left)
  | failed some _ =>
    obtain rfl := Nat.lt_one_iff.mp short
    exact ⟨_, settle_zero some⟩
  | round some swept _ ih =>
    cases left with
    | zero => exact ⟨_, settle_zero some⟩
    | succ left =>
      rw [settle_succ some, swept]
      exact ih (Nat.lt_of_succ_lt_succ short)

/-- What does not come from the limit comes from so many rounds without it. -/
theorem settles_of_settle (decided : Decided (g.settle cap left due run)) :
    ∃ count, Settles g due run count (g.settle cap left due run) := by
  induction left generalizing due run with
  | zero =>
    by_cases none : due = []
    · subst none
      rw [g.settle_nil]
      exact ⟨0, .settled⟩
    · rw [settle_zero none] at decided
      exact absurd rfl (decided _ cap rfl)
  | succ left ih =>
    by_cases none : due = []
    · subst none
      rw [g.settle_nil]
      exact ⟨0, .settled⟩
    · rw [settle_succ none] at decided ⊢
      cases swept : g.sweep (run.nextRound due) g.ordered with
      | error failure => exact ⟨1, .failed none swept⟩
      | ok round =>
        rw [swept] at decided
        obtain ⟨count, others⟩ := ih decided
        exact ⟨count + 1, .round none swept others⟩

/-! ## Transactions -/

/-- The same of a transaction up to its conclusion. -/
structure RunTakesRounds (transaction : Propagator → Except Failure Run) (count : Nat)
    (result : Except Failure Run) : Prop where
  enough : ∀ q : Propagator, count ≤ q.cap → transaction q = result
  short : ∀ q : Propagator, q.cap < count →
    ∃ stopped, transaction q = .error ⟨.divergent q.cap, stopped⟩

/-- A run in which no round was begun yet settles as its rounds say. -/
theorem runTakesRounds_settle {p : Propagator} (fresh : run.rounds = 0)
    (stops : g.settle p.cap p.cap due run = result) (decided : Decided result) :
    RunTakesRounds (fun q => g.settle q.cap q.cap due run) (roundsBegun id result) result := by
  subst stops
  obtain ⟨count, settles⟩ := settles_of_settle decided
  have begun := settles.rounds
  rw [fresh, Nat.zero_add] at begun
  rw [begun]
  exact ⟨fun q enough => settles.settle_of_le enough, fun q short => settles.settle_of_lt short⟩

theorem Propagator.transact_takesRounds {p : Propagator} {changes : List Change}
    (stops : p.transact g s changes = result) (decided : Decided result) :
    RunTakesRounds (·.transact g s changes) (roundsBegun id result) result := by
  have begun := submit_rounds (.start s) [] 0 changes
  unfold transact at stops ⊢
  cases submitted : submit (.start s) [] 0 changes with
  | error failure =>
    rw [submitted] at begun
    obtain rfl : .error failure = result := by rw [← stops, submitted]; rfl
    rw [show roundsBegun id (.error failure) = 0 from begun]
    exact ⟨fun _ _ => rfl, fun q short => absurd short (Nat.not_lt_zero _)⟩
  | ok reached =>
    rw [submitted] at stops begun
    exact runTakesRounds_settle begun stops decided

theorem Propagator.launch_takesRounds {p : Propagator} (stops : p.launch g s = result)
    (decided : Decided result) : RunTakesRounds (·.launch g s) (roundsBegun id result) result :=
  runTakesRounds_settle rfl stops decided

/-- What is concluded from a transaction takes as many rounds as the transaction. -/
theorem RunTakesRounds.conclude {transaction : Propagator → Except Failure Run} (submitted : Nat)
    (takes : RunTakesRounds transaction count result)
    (tracks : s.Sound → ∀ q, Ends (Tracks s) id (transaction q)) :
    TakesRounds (fun q => Propagator.conclude submitted (transaction q)) s count
      (Propagator.conclude submitted result) where
  enough q many := congrArg (Propagator.conclude submitted) (takes.enough q many)
  short q few := by
    obtain ⟨stopped, diverged⟩ := takes.short q few
    have given : (Propagator.conclude submitted (transaction q)).2 = .error (.divergent q.cap) := by
      rw [diverged]
      rfl
    exact ⟨given, fun sound => conclude_of_tracks (tracks sound q) given⟩

theorem Propagator.commit_takesRounds {p : Propagator} {changes : List Change}
    (nonempty : changes ≠ []) (stops : p.transact g s changes = result) (decided : Decided result) :
    TakesRounds (·.commit g s changes) s (roundsBegun id result)
      (conclude changes.length result) := by
  have same : (fun q : Propagator => q.commit g s changes) =
      fun q => conclude changes.length (q.transact g s changes) :=
    funext fun q => q.commit_eq_conclude g s nonempty
  rw [same]
  exact (transact_takesRounds stops decided).conclude changes.length
    fun sound _ => transact_tracks sound changes

theorem Propagator.bootstrap_takesRounds {p : Propagator} (stops : p.launch g s = result)
    (decided : Decided result) :
    TakesRounds (·.bootstrap g s) s (roundsBegun id result) (conclude 0 result) :=
  (launch_takesRounds stops decided).conclude 0 fun sound _ => launch_tracks sound

theorem decided_ok {α : Type} (a : α) : Decided (.ok a) := by
  rintro failure n ⟨⟩

theorem decided_error {α : Type} {failure : Failure} (other : ∀ n, failure.fault ≠ .divergent n) :
    Decided (.error failure : Except Failure α) := by
  rintro failure n ⟨⟩
  exact other n

/-- **The limit on rounds decides nothing but whether a transaction is given up.** Where a commit
succeeds after some number of rounds, it does so with the same entry and the same store wherever as many
rounds are allowed, and wherever fewer are allowed it is given up. Where it fails for another reason,
with some number of rounds begun, it fails for this reason wherever as many rounds are allowed, and
wherever fewer are allowed it is given up. So it is with loading. -/
theorem limit_decides_divergence_only (p : Propagator) (g : Graph) (s : Store) :
    (∀ changes r entry, p.commit g s changes = (r, .ok entry) →
      TakesRounds (·.commit g s changes) s entry.rounds (r, .ok entry)) ∧
    (∀ changes failure, p.transact g s changes = .error failure →
      (∀ n, failure.fault ≠ .divergent n) →
      TakesRounds (·.commit g s changes) s failure.run.rounds
        (failure.run.rollback, .error failure.fault)) ∧
    (∀ r entry, p.bootstrap g s = (r, .ok entry) →
      TakesRounds (·.bootstrap g s) s entry.rounds (r, .ok entry)) ∧
    (∀ failure, p.launch g s = .error failure → (∀ n, failure.fault ≠ .divergent n) →
      TakesRounds (·.bootstrap g s) s failure.run.rounds
        (failure.run.rollback, .error failure.fault)) := by
  refine ⟨?_, ?_, ?_, ?_⟩
  · intro changes r entry done
    have nonempty : changes ≠ [] := (commit_eq_ok_iff.mp done).1
    rw [p.commit_eq_conclude g s nonempty] at done
    obtain ⟨run, stops, rfl, rfl⟩ := conclude_eq_ok done
    exact p.commit_takesRounds nonempty stops (decided_ok run)
  · intro changes failure stops other
    have nonempty : changes ≠ [] := by
      rintro rfl
      rw [Propagator.transact, Propagator.submit] at stops
      cases (g.settle_nil ..).symm.trans stops
    exact p.commit_takesRounds nonempty stops (decided_error other)
  · intro r entry done
    rw [p.bootstrap_eq_conclude] at done
    obtain ⟨run, stops, rfl, rfl⟩ := conclude_eq_ok done
    exact p.bootstrap_takesRounds stops (decided_ok run)
  · intro failure stops other
    exact p.bootstrap_takesRounds stops (decided_error other)

/-- A block that goes on from zero to one and is content there, and from infinity to what it fails on. -/
def climbing : List Block :=
  [⟨"climb", .onLoad, [.any ⟨1⟩], [.any ⟨1⟩], fun s =>
    if s.cell? ⟨1⟩ 0 0 = some (.number .zero) then
      .ok [.set ⟨1⟩ 0 (.position 1) (.number .one)]
    else if s.cell? ⟨1⟩ 0 0 = some (.number .infinity) then
      .ok [.set ⟨1⟩ 0 (.position 1) (.number .notANumber)]
    else if s.cell? ⟨1⟩ 0 0 = some (.number .one) then .ok []
    else .error "no number"⟩]

/-- The store from which the block fails. -/
def infiniteCell : Store := ⟨[⟨⟨1⟩, "t", [⟨⟨"a", ⟨2⟩, .number⟩, [.number .infinity]⟩], 1⟩]⟩

/-- The block takes two rounds either way: where two are allowed it is as with four, and where one is
allowed it is given up. -/
theorem limit_decides_divergence_only_climb :
    let g := Graph.ofBlocks climbing
    let added := [Change.append ⟨1⟩ [[.number .one]]]
    (∃ r entry, (Propagator.ofCap 4).commit g oneCell added = (r, .ok entry) ∧ entry.rounds = 2 ∧
      (Propagator.ofCap 2).commit g oneCell added = (r, .ok entry) ∧
      ((Propagator.ofCap 1).commit g oneCell added).2 = .error (.divergent 1)) ∧
    (∃ failure, (Propagator.ofCap 4).transact g infiniteCell added = .error failure ∧
      failure.fault = .blockFailed "climb" "no number" ∧
      ((Propagator.ofCap 2).commit g infiniteCell added).2 = .error failure.fault ∧
      ((Propagator.ofCap 1).commit g infiniteCell added).2 = .error (.divergent 1)) ∧
    (∃ r entry, (Propagator.ofCap 4).bootstrap g oneCell = (r, .ok entry) ∧ entry.rounds = 2 ∧
      (Propagator.ofCap 2).bootstrap g oneCell = (r, .ok entry) ∧
      ((Propagator.ofCap 1).bootstrap g oneCell).2 = .error (.divergent 1)) ∧
    ∃ failure, (Propagator.ofCap 4).launch g infiniteCell = .error failure ∧
      failure.fault = .blockFailed "climb" "no number" ∧
      ((Propagator.ofCap 2).bootstrap g infiniteCell).2 = .error failure.fault ∧
      ((Propagator.ofCap 1).bootstrap g infiniteCell).2 = .error (.divergent 1) := by
  intro g added
  obtain ⟨commits, -, loads, -⟩ := limit_decides_divergence_only (.ofCap 4) g oneCell
  obtain ⟨-, rejects, -, fails⟩ := limit_decides_divergence_only (.ofCap 4) g infiniteCell
  have committed : ∃ r entry, (Propagator.ofCap 4).commit g oneCell added = (r, .ok entry) ∧
      entry.rounds = 2 := by
    exact ⟨_, _, by cbv, rfl⟩
  have rejected : ∃ failure, (Propagator.ofCap 4).transact g infiniteCell added = .error failure ∧
      failure.fault = .blockFailed "climb" "no number" ∧ failure.run.rounds = 2 := by
    exact ⟨_, by cbv, rfl, rfl⟩
  have loaded : ∃ r entry, (Propagator.ofCap 4).bootstrap g oneCell = (r, .ok entry) ∧
      entry.rounds = 2 := by
    exact ⟨_, _, by cbv, rfl⟩
  have failed : ∃ failure, (Propagator.ofCap 4).launch g infiniteCell = .error failure ∧
      failure.fault = .blockFailed "climb" "no number" ∧ failure.run.rounds = 2 := by
    exact ⟨_, by cbv, rfl, rfl⟩
  have two (n : Nat) (same : n = 2) : n ≤ (Propagator.ofCap 2).cap := by
    rw [same]
    exact Nat.le_refl 2
  have one (n : Nat) (same : n = 2) : (Propagator.ofCap 1).cap < n := by
    rw [same]
    exact Nat.lt_succ_self 1
  refine ⟨?_, ?_, ?_, ?_⟩
  · obtain ⟨r, entry, done, rounds⟩ := committed
    have takes := commits _ _ _ done
    exact ⟨r, entry, done, rounds, takes.enough _ (two _ rounds), (takes.short _ (one _ rounds)).1⟩
  · obtain ⟨failure, stopped, fault, rounds⟩ := rejected
    have takes := rejects _ _ stopped (by simp [fault])
    refine ⟨failure, stopped, fault, ?_, (takes.short _ (one _ rounds)).1⟩
    rw [takes.enough _ (two _ rounds)]
  · obtain ⟨r, entry, done, rounds⟩ := loaded
    have takes := loads _ _ done
    exact ⟨r, entry, done, rounds, takes.enough _ (two _ rounds), (takes.short _ (one _ rounds)).1⟩
  · obtain ⟨failure, stopped, fault, rounds⟩ := failed
    have takes := fails _ stopped (by simp [fault])
    refine ⟨failure, stopped, fault, ?_, (takes.short _ (one _ rounds)).1⟩
    rw [takes.enough _ (two _ rounds)]

end Ripple
