import Ripple.Propagation
import Ripple.Proofs.Diff

/-!
A transaction that fails leaves the store as it was. A transaction touches the store only through
changes, so whatever every successful change keeps (`Kept`) holds wherever a transaction stops, be
it at its end or at a fault (`Ends`). Kept in this way is that the store is sound and that the
effects listed so far lie exactly between the store before the transaction and the present one:
undoing them from the end then leads back, one effect after the other.
-/

namespace Ripple

/-- A property of a store and the effects that led to it that every change keeps. -/
def Kept (holds : Store → List Effect → Prop) : Prop :=
  ∀ s effects change outcome, holds s effects → Change.apply change s = .ok outcome →
    holds outcome.store (effects ++ outcome.effects)

/-- The property holds where a computation stops, whether it succeeds or fails. -/
def Ends {α : Type} (holds : Store → List Effect → Prop) (run : α → Run) : Except Failure α → Prop
  | .ok a => holds (run a).store (run a).effects
  | .error failure => holds failure.run.store failure.run.effects

variable {holds : Store → List Effect → Prop} {s : Store} {g : Graph} {p : Propagator}

/-! ## Every state of a transaction -/

theorem applyAll_keeps (kept : Kept holds) (block : String) {run : Run} (touched : List Register)
    (changes : List Change) (before : holds run.store run.effects) :
    Ends holds Prod.fst (run.applyAll block touched changes) := by
  induction changes generalizing run touched with
  | nil => exact before
  | cons change changes ih =>
    unfold Run.applyAll
    cases applied : change.apply run.store with
    | error reason => exact before
    | ok outcome => exact ih _ (kept _ _ _ _ before applied)

theorem fire_keeps (kept : Kept holds) {run : Run} (block : Block)
    (before : holds run.store run.effects) : Ends holds Prod.fst (run.fire block) := by
  unfold Run.fire
  dsimp only
  split
  · exact before
  · exact applyAll_keeps kept _ _ _ before

theorem sweep_keeps (kept : Kept holds) (blocks : List (Nat × Block)) {round : Round}
    (before : holds round.run.store round.run.effects) :
    Ends holds Round.run (g.sweep round blocks) := by
  induction blocks generalizing round with
  | nil => exact before
  | cons head blocks ih =>
    obtain ⟨index, block⟩ := head
    unfold Graph.sweep
    split
    · have fired := fire_keeps kept block before
      cases result : round.run.fire block with
      | error failure => exact (result ▸ fired : Ends holds Prod.fst (.error failure))
      | ok reached =>
        have after : Ends holds Prod.fst (.ok reached) := result ▸ fired
        exact ih after
    · exact ih before

theorem settle_keeps (kept : Kept holds) (cap left : Nat) (due : List Nat) {run : Run}
    (before : holds run.store run.effects) : Ends holds id (g.settle cap left due run) := by
  induction left generalizing due run with
  | zero =>
    unfold Graph.settle
    split <;> exact before
  | succ left ih =>
    unfold Graph.settle
    split
    · exact before
    · have swept : Ends holds Round.run
          (g.sweep ⟨{ run with rounds := run.rounds + 1 }, due, []⟩ g.ordered) :=
        sweep_keeps kept g.ordered before
      dsimp only
      split
      · next failure result => exact (result ▸ swept : Ends holds Round.run (.error failure))
      · next round result =>
        have after : Ends holds Round.run (.ok round) := result ▸ swept
        exact ih _ after

theorem submit_keeps (kept : Kept holds) {run : Run} (touched : List Register) (index : Nat)
    (changes : List Change) (before : holds run.store run.effects) :
    Ends holds Prod.fst (Propagator.submit run touched index changes) := by
  induction changes generalizing run touched index with
  | nil => exact before
  | cons change changes ih =>
    unfold Propagator.submit
    cases applied : change.apply run.store with
    | error reason => exact before
    | ok outcome => exact ih _ _ (kept _ _ _ _ before applied)

namespace Propagator

/-- A transaction of submitted changes up to its conclusion. -/
def transact (p : Propagator) (g : Graph) (s : Store) (changes : List Change) :
    Except Failure Run := do
  let (run, touched) ← submit (.start s) [] 0 changes
  g.settle p.cap p.cap (g.watchersOf touched) run

/-- The blocks that run on load, up to the conclusion. -/
def launch (p : Propagator) (g : Graph) (s : Store) : Except Failure Run :=
  g.settle p.cap p.cap g.onLoad (.start s)

theorem commit_eq_conclude (p : Propagator) (g : Graph) (s : Store) {changes : List Change}
    (nonempty : changes ≠ []) :
    p.commit g s changes = conclude changes.length (p.transact g s changes) := by
  rw [commit, if_neg (by simpa using nonempty)]
  rfl

theorem bootstrap_eq_conclude (p : Propagator) (g : Graph) (s : Store) :
    p.bootstrap g s = conclude 0 (p.launch g s) := rfl

theorem transact_keeps (kept : Kept holds) (before : holds s []) (changes : List Change) :
    Ends holds id (p.transact g s changes) := by
  have submitted : Ends holds Prod.fst (submit (.start s) [] 0 changes) :=
    submit_keeps kept [] 0 changes before
  unfold transact
  cases result : submit (.start s) [] 0 changes with
  | error failure => exact (result ▸ submitted : Ends holds Prod.fst (.error failure))
  | ok reached =>
    have after : Ends holds Prod.fst (.ok reached) := result ▸ submitted
    exact settle_keeps kept _ _ _ after

theorem launch_keeps (kept : Kept holds) (before : holds s []) :
    Ends holds id (p.launch g s) :=
  settle_keeps kept _ _ _ before

theorem ends_of_conclude {result : Except Failure Run} {submitted : Nat} {r : Store} {entry : Entry}
    (ends : Ends holds id result) (done : conclude submitted result = (r, .ok entry)) :
    holds r entry.effects := by
  cases result with
  | error failure => cases done
  | ok run =>
    cases done
    exact ends

/-- What changes keep holds of the store after a successful commit and of its entry. -/
theorem commit_keeps (kept : Kept holds) (before : holds s []) {changes : List Change} {r : Store}
    {entry : Entry} (done : p.commit g s changes = (r, .ok entry)) : holds r entry.effects := by
  by_cases nonempty : changes = []
  · subst nonempty
    cases done
  · rw [p.commit_eq_conclude g s nonempty] at done
    exact ends_of_conclude (p.transact_keeps kept before changes) done

theorem bootstrap_keeps (kept : Kept holds) (before : holds s []) {r : Store} {entry : Entry}
    (done : p.bootstrap g s = (r, .ok entry)) : holds r entry.effects :=
  ends_of_conclude (p.launch_keeps kept before) (p.bootstrap_eq_conclude g s ▸ done)

end Propagator

/-! ## The effects so far -/

/-- The present store is sound, and the effects lie exactly between it and the store `s`. -/
def Tracks (s present : Store) (effects : List Effect) : Prop :=
  present.Sound ∧ Diff s effects present

theorem kept_tracks (s : Store) : Kept (Tracks s) := by
  intro present effects change outcome tracks applied
  have leads := (Change.apply_eq_ok_iff tracks.1 change).mp applied
  obtain ⟨sound, diff⟩ := leads.sound_diff tracks.1
  exact ⟨sound, tracks.2.trans diff⟩

theorem tracks_nil (sound : s.Sound) : Tracks s s [] := ⟨sound, .refl s⟩

theorem transact_tracks (sound : s.Sound) (changes : List Change) :
    Ends (Tracks s) id (p.transact g s changes) :=
  p.transact_keeps (kept_tracks s) (tracks_nil sound) changes

theorem launch_tracks (sound : s.Sound) : Ends (Tracks s) id (p.launch g s) :=
  p.launch_keeps (kept_tracks s) (tracks_nil sound)

/-- The entry of a successful commit lies exactly between the store before and the store after. -/
theorem tracks_of_commit {changes : List Change} {r : Store} {entry : Entry} (sound : s.Sound)
    (done : p.commit g s changes = (r, .ok entry)) : Tracks s r entry.effects :=
  p.commit_keeps (kept_tracks s) (tracks_nil sound) done

/-- Loading keeps to the same. -/
theorem tracks_of_bootstrap {r : Store} {entry : Entry} (sound : s.Sound)
    (done : p.bootstrap g s = (r, .ok entry)) : Tracks s r entry.effects :=
  p.bootstrap_keeps (kept_tracks s) (tracks_nil sound) done

/-! ## Rolling back -/

/-- Undoing is stepping through the effects from the end, where no step is refused. -/
theorem undo_of_runSteps {effects : List Effect} {present : Store}
    (back : History.runSteps Effect.revert present effects.reverse = (s, .ok ())) :
    Run.undo effects present = s := by
  rw [Run.undo, ← List.foldl_reverse]
  generalize effects.reverse = steps at back
  induction steps generalizing present with
  | nil =>
    cases back
    rfl
  | cons effect steps ih =>
    obtain ⟨earlier, undone, rest⟩ := runSteps_cons_eq_ok_iff.mp back
    simpa only [List.foldl_cons, undone] using ih rest

theorem runSteps_split {step : Effect → Store → Except Refusal Store} {first rest : List Effect}
    {present last : Store}
    (done : History.runSteps step present (first ++ rest) = (last, .ok ())) :
    ∃ middle, History.runSteps step present first = (middle, .ok ()) ∧
      History.runSteps step middle rest = (last, .ok ()) := by
  induction first generalizing present with
  | nil => exact ⟨present, rfl, done⟩
  | cons effect first ih =>
    obtain ⟨next, reached, others⟩ := runSteps_cons_eq_ok_iff.mp done
    obtain ⟨middle, here, there⟩ := ih others
    exact ⟨middle, runSteps_cons_eq_ok_iff.mpr ⟨next, reached, here⟩, there⟩

/-- Each effect is undone without a refusal in the store that undoing the later ones led to. -/
def UndoneOneByOne (effects : List Effect) (present : Store) : Prop :=
  ∀ earlier effect later, effects = earlier ++ effect :: later →
    ∃ r, effect.revert (Run.undo later present) = .ok r

theorem Diff.undoneOneByOne {effects : List Effect} {present : Store}
    (diff : Diff s effects present) : UndoneOneByOne effects present := by
  rintro earlier effect later rfl
  have back := diff.back
  rw [List.reverse_append, List.reverse_cons, List.append_assoc] at back
  obtain ⟨middle, lately, rest⟩ := runSteps_split back
  rw [undo_of_runSteps lately]
  obtain ⟨r, undone, -⟩ := runSteps_cons_eq_ok_iff.mp rest
  exact ⟨r, undone⟩

theorem conclude_of_tracks {result : Except Failure Run} {submitted : Nat} {fault : Fault}
    (tracks : Ends (Tracks s) id result)
    (failed : (Propagator.conclude submitted result).2 = .error fault) :
    (Propagator.conclude submitted result).1 = s := by
  cases result with
  | ok run => cases failed
  | error failure => exact undo_of_runSteps tracks.2.back

/-- The store after a commit that fails is the one before. -/
theorem store_of_failed_commit (sound : s.Sound) {changes : List Change} {fault : Fault}
    (failed : (p.commit g s changes).2 = .error fault) : (p.commit g s changes).1 = s := by
  by_cases nonempty : changes = []
  · subst nonempty
    rfl
  · rw [p.commit_eq_conclude g s nonempty] at failed ⊢
    exact conclude_of_tracks (transact_tracks sound changes) failed

/-- **Failed transactions leave no trace.** Whatever the blocks do, however many rounds are
allowed and whatever is submitted: where committing or loading fails on a sound store, for any
reason and after any part of the work, the store afterwards equals the store before, and on the
way back no effect is one that cannot be undone. -/
theorem failed_transaction_restores (p : Propagator) (g : Graph) (s : Store) (sound : s.Sound) :
    (∀ changes fault, (p.commit g s changes).2 = .error fault → (p.commit g s changes).1 = s) ∧
    (∀ fault, (p.bootstrap g s).2 = .error fault → (p.bootstrap g s).1 = s) ∧
    (∀ changes failure, p.transact g s changes = .error failure →
      UndoneOneByOne failure.run.effects failure.run.store) ∧
    (∀ failure, p.launch g s = .error failure →
      UndoneOneByOne failure.run.effects failure.run.store) := by
  have transacted (changes : List Change) := transact_tracks (p := p) (g := g) sound changes
  have launched := launch_tracks (p := p) (g := g) sound
  refine ⟨?_, ?_, ?_, ?_⟩
  · intro changes fault failed
    exact store_of_failed_commit sound failed
  · intro fault failed
    exact conclude_of_tracks launched failed
  · intro changes failure failed
    have tracks := transacted changes
    rw [failed] at tracks
    exact tracks.2.undoneOneByOne
  · intro failure failed
    rw [failed] at launched
    exact launched.2.undoneOneByOne

/-- A store with one table of one number. -/
def oneCell : Store := ⟨[⟨⟨1⟩, "t", [⟨⟨"a", ⟨2⟩, .number⟩, [.number .zero]⟩], 1⟩]⟩

theorem sound_oneCell : oneCell.Sound := by
  refine Store.sound_single ?_
  intro c member
  obtain rfl := List.mem_singleton.mp member
  exact ⟨rfl, by decide⟩

/-- A graph whose only block makes a table, adds rows, writes into them and fails at last. -/
def failsLate : Graph where
  blocks := [⟨"late", .onWatch, [.any ⟨1⟩], [], fun _ => .ok
    [.define ⟨3⟩ "log" [⟨"m", ⟨4⟩, .text⟩], .append ⟨3⟩ [[.text "x"]],
      .append ⟨1⟩ [[.number .one], [.number .zero]],
      .set ⟨1⟩ 1 (.position 1) (.number .negativeZero),
      .set ⟨1⟩ 7 (.position 1) (.number .one)]⟩]
  order := [0]
  ranks := [0]
  edges := []
  watchIndex := [(⟨1⟩, [⟨none, 0⟩])]

/-- A commit that fails after six effects in the first round. -/
theorem failed_transaction_restores_late :
    oneCell.Sound ∧
      ((Propagator.ofCap 4).commit failsLate oneCell
        [.set ⟨1⟩ 0 (.position 1) (.number .one)]).2 =
          .error (.invalidChange "late" (.noSuchRow ⟨1⟩ 7 3)) ∧
      ((Propagator.ofCap 4).commit failsLate oneCell
        [.set ⟨1⟩ 0 (.position 1) (.number .one)]).1 = oneCell := by
  have failed : ((Propagator.ofCap 4).commit failsLate oneCell
      [.set ⟨1⟩ 0 (.position 1) (.number .one)]).2 =
        .error (.invalidChange "late" (.noSuchRow ⟨1⟩ 7 3)) := by
    -- The watchers are sorted, which unfolds by well-founded recursion only.
    with_unfolding_all rfl
  exact ⟨sound_oneCell, failed,
    (failed_transaction_restores (.ofCap 4) failsLate oneCell sound_oneCell).1 _ _ failed⟩

end Ripple
