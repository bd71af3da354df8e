import Ripple.Proofs.BlockGraph
import Ripple.Proofs.Drafts
import Ripple.Proofs.Timeline

/-!
Blocks that ask for nothing that is refused. A careful block finds all its changes carried out on every
tidy store, and leaves a tidy one (`Block.Careful`). Where all blocks are careful, a transaction can fail
for what was submitted, for a block that does not evaluate or for want of rounds, but not for a change
that a block asked for (`transact_proper`), and neither can anything that is asked of a timeline
(`Timeline.Orderly.serve`).
-/

namespace Ripple

/-- The columns of a table that the change defines have different identifiers. -/
def Change.Distinct : Change → Prop
  | .define _ _ specs => (specs.map ColumnSpec.id).Nodup
  | _ => True

/-- On every tidy store the changes that the block asks for have effects and lead to a tidy one. -/
def Block.Careful (b : Block) : Prop :=
  ∀ s changes, s.Tidy → b.routine s = .ok changes → ∃ r, Effective s changes r ∧ r.Tidy

/-- The store is tidy; a fault is not that of a block that asked for a change that was refused. -/
def Proper {α : Type} (store : α → Store) : Except Failure α → Prop
  | .ok a => (store a).Tidy
  | .error failure => failure.fault.isRecoverable

variable {s r : Store} {changes : List Change} {g : Graph} {p : Propagator} {run : Run}

theorem tidy_of_apply (tidy : s.Tidy) {change : Change} (distinct : change.Distinct) {outcome : Outcome}
    (applied : change.apply s = .ok outcome) : outcome.store.Tidy := by
  cases (Change.apply_eq_ok_iff tidy.sound change).mp applied with
  | kept => exact tidy
  | written found resolved checked held differ declared =>
    have kinds := (Table.checkWrite_eq_ok_iff.mp checked).1
    exact Store.tidy_put tidy ((tidy.of_find? found).put kinds)
  | noRows => exact tidy
  | appended found some checked =>
    have fit (values : Row) (added : values ∈ _) := Table.checkRow_of_checkRows checked added
    exact Store.tidy_put tidy ((tidy.of_find? found).extend fit)
  | present => exact tidy
  | created absent => exact Store.tidy_put tidy (Table.tidy_empty distinct)

/-! ## Transactions -/

theorem applyAll_of_effective (effective : Effective s changes r) (here : run.store = s)
    (block : String) (touched : List Register) :
    ∃ after, run.applyAll block touched changes = .ok after ∧ after.1.store = r := by
  induction effective generalizing run touched with
  | nil => exact ⟨_, rfl, here⟩
  | cons applied _ _ ih =>
    subst here
    unfold Run.applyAll
    rw [applied]
    exact ih rfl _

theorem fire_proper {b : Block} (careful : b.Careful) (tidy : run.store.Tidy) :
    Proper (fun after : Run × List Register => after.1.store) (run.fire b) := by
  unfold Run.fire
  dsimp only
  split
  · rfl
  · next changes asked =>
    obtain ⟨r, effective, after⟩ := careful _ _ tidy asked
    have begun : ({ run with fired := run.fired ++ [b.name] } : Run).store = run.store := rfl
    obtain ⟨reached, applied, same⟩ := applyAll_of_effective effective begun b.name []
    rw [applied]
    exact (same.symm ▸ after : reached.1.store.Tidy)

theorem sweep_proper {blocks : List (Nat × Block)} (careful : ∀ b ∈ blocks, b.2.Careful)
    {round : Round} (tidy : round.run.store.Tidy) :
    Proper (fun after : Round => after.run.store) (g.sweep round blocks) := by
  induction blocks generalizing round with
  | nil => exact tidy
  | cons head blocks ih =>
    obtain ⟨index, block⟩ := head
    have later := fun b member => careful b (List.mem_cons_of_mem _ member)
    unfold Graph.sweep
    split
    · have fired := fire_proper (careful _ List.mem_cons_self) tidy
      split
      · next failure result => exact (result ▸ fired : Proper _ (.error failure))
      · next after touched result =>
        have reached : Proper _ (.ok (after, touched)) := result ▸ fired
        exact ih later reached
    · exact ih later tidy

theorem settle_proper (careful : ∀ b ∈ g.ordered, b.2.Careful) (cap left : Nat) (due : List Nat)
    (tidy : run.store.Tidy) : Proper Run.store (g.settle cap left due run) := by
  induction left generalizing due run with
  | zero =>
    unfold Graph.settle
    split
    · exact tidy
    · rfl
  | succ left ih =>
    unfold Graph.settle
    split
    · exact tidy
    · have swept : Proper (fun after : Round => after.run.store)
          (g.sweep ⟨{ run with rounds := run.rounds + 1 }, due, []⟩ g.ordered) :=
        sweep_proper careful tidy
      dsimp only
      split
      · next failure result => exact (result ▸ swept : Proper _ (.error failure))
      · next round result =>
        have reached : Proper _ (.ok round) := result ▸ swept
        exact ih _ reached

theorem submit_proper (distinct : ∀ change ∈ changes, change.Distinct) (touched : List Register)
    (index : Nat) (tidy : run.store.Tidy) :
    Proper (fun after : Run × List Register => after.1.store)
      (Propagator.submit run touched index changes) := by
  induction changes generalizing run touched index with
  | nil => exact tidy
  | cons change changes ih =>
    unfold Propagator.submit
    split
    · rfl
    · next outcome applied =>
      exact ih (fun c member => distinct c (List.mem_cons_of_mem _ member)) _ _
        (tidy_of_apply tidy (distinct change List.mem_cons_self) applied)

theorem transact_proper (careful : ∀ b ∈ g.ordered, b.2.Careful) (tidy : s.Tidy)
    (distinct : ∀ change ∈ changes, change.Distinct) :
    Proper Run.store (p.transact g s changes) := by
  have submitted : Proper (fun after : Run × List Register => after.1.store)
      (Propagator.submit (.start s) [] 0 changes) := submit_proper distinct [] 0 tidy
  unfold Propagator.transact
  cases result : Propagator.submit (.start s) [] 0 changes with
  | error failure => exact (result ▸ submitted : Proper _ (.error failure))
  | ok reached =>
    have after : Proper _ (.ok reached) := result ▸ submitted
    exact settle_proper careful _ _ _ after

theorem launch_proper (careful : ∀ b ∈ g.ordered, b.2.Careful) (tidy : s.Tidy) :
    Proper Run.store (p.launch g s) :=
  settle_proper careful _ _ _ tidy

/-- What is concluded from a proper transaction: a tidy store, or a fault that is not internal. -/
theorem conclude_proper {result : Except Failure Run} (proper : Proper Run.store result)
    (submitted : Nat) :
    (∀ q entry, Propagator.conclude submitted result = (q, .ok entry) → q.Tidy) ∧
      ∀ q fault, Propagator.conclude submitted result = (q, .error fault) → fault.isRecoverable := by
  cases result with
  | error failure =>
    refine ⟨?_, ?_⟩
    · rintro q entry ⟨⟩
    · rintro q fault ⟨⟩
      exact proper
  | ok run =>
    refine ⟨?_, ?_⟩
    · rintro q entry ⟨⟩
      exact proper
    · rintro q fault ⟨⟩

theorem outcome_proper (careful : ∀ b ∈ g.ordered, b.2.Careful) (tidy : s.Tidy)
    (distinct : ∀ change ∈ changes, change.Distinct) :
    (∀ q, p.outcome g s changes = .ok (some q) → q.Tidy) ∧
      ∀ fault, p.outcome g s changes = .error fault → fault.isRecoverable := by
  by_cases nonempty : changes = []
  · subst nonempty
    refine ⟨?_, ?_⟩
    · rintro q ⟨⟩
    · rintro fault ⟨⟩
      rfl
  · obtain ⟨stores, faults⟩ :=
      conclude_proper (transact_proper (p := p) careful tidy distinct) changes.length
    simp only [Propagator.outcome, p.commit_eq_conclude g s nonempty]
    split
    · next q fault result =>
      refine ⟨?_, ?_⟩
      · rintro other ⟨⟩
      · rintro other ⟨⟩
        exact faults q fault result
    · next q entry result =>
      refine ⟨?_, ?_⟩
      · intro other same
        split at same
        · cases same
        · cases same
          exact stores q entry result
      · rintro fault ⟨⟩

/-! ## Timelines -/

/-- A request of a client that gives the columns of its tables different identifiers. -/
def Request.Distinct : Request → Prop
  | .queue change => change.Distinct
  | _ => True

namespace Timeline

/-- All blocks are careful, all states are tidy, and tables that are queued have columns with different
identifiers. -/
structure Orderly (t : Timeline) : Prop where
  careful : ∀ b ∈ t.graph.ordered, b.2.Careful
  tidy : ∀ s ∈ t.states, s.Tidy
  distinct : ∀ change ∈ t.pending, change.Distinct

namespace Orderly

variable {t : Timeline}

theorem discard (orderly : t.Orderly) : t.discard.Orderly :=
  { orderly with distinct := fun _ none => by cases none }

theorem queue (orderly : t.Orderly) {change : Change} (distinct : change.Distinct) :
    (t.queue change).Orderly :=
  { orderly with
    distinct := fun other member => by
      rcases List.mem_append.mp member with old | new
      · exact orderly.distinct other old
      · exact List.mem_singleton.mp new ▸ distinct }

theorem evict (orderly : t.Orderly) : t.evict.Orderly :=
  { orderly with tidy := fun s member => orderly.tidy s (List.mem_of_mem_drop member) }

theorem record (orderly : t.Orderly) (tidy : s.Tidy) : (t.record s).Orderly := by
  refine evict { orderly with tidy := ?_ }
  intro r member
  rcases List.mem_append.mp member with old | new
  · exact orderly.tidy r (List.mem_of_mem_take old)
  · exact List.mem_singleton.mp new ▸ tidy

theorem recordBehind (orderly : t.Orderly) (tidy : s.Tidy) : (t.recordBehind s).Orderly := by
  refine evict { orderly with tidy := ?_ }
  intro r member
  rcases List.mem_append.mp member with old | new
  · exact orderly.tidy r old
  · exact List.mem_singleton.mp new ▸ tidy

/-- An answer of an orderly timeline that keeps it orderly and is no internal fault. -/
def Answers (answer : Timeline × Except Fault Unit) : Prop :=
  answer.1.Orderly ∧ ∀ fault, answer.2 = .error fault → fault.isRecoverable

theorem answers_ok (orderly : t.Orderly) : Answers (t, .ok ()) := by
  refine ⟨orderly, ?_⟩
  rintro fault ⟨⟩

theorem answers_error (orderly : t.Orderly) {fault : Fault} (recoverable : fault.isRecoverable) :
    Answers (t, .error fault) := by
  refine ⟨orderly, ?_⟩
  rintro other ⟨⟩
  exact recoverable

theorem conclude (orderly : t.Orderly) {record : Timeline → Store → Timeline}
    (recorded : ∀ s : Store, s.Tidy → (record t s).Orderly) {result : Except Fault (Option Store)}
    (stores : ∀ q, result = .ok (some q) → q.Tidy)
    (faults : ∀ fault, result = .error fault → fault.isRecoverable) :
    Answers (t.conclude record result) := by
  match result with
  | .error fault => exact orderly.answers_error (faults fault rfl)
  | .ok none => exact orderly.answers_ok
  | .ok (some s) => exact (recorded s (stores s rfl)).answers_ok

theorem commit (orderly : t.Orderly) : Answers t.commit := by
  have committed {record : Timeline → Store → Timeline} {s : Store} (state : s ∈ t.states)
      (recorded : ∀ s : Store, s.Tidy → (record t.discard s).Orderly) :
      Answers (t.discard.conclude record (t.outcome s)) := by
    obtain ⟨stores, faults⟩ := outcome_proper (p := .ofCap t.settings.maxRounds) orderly.careful
      (orderly.tidy s state) orderly.distinct
    exact orderly.discard.conclude recorded stores faults
  unfold Timeline.commit
  split
  · exact orderly.discard.answers_error rfl
  · split
    · exact orderly.discard.answers_error rfl
    · split
      · exact committed (List.get_mem _ _) fun s tidy => orderly.discard.recordBehind tidy
      · exact committed (List.get_mem _ _) fun s tidy => orderly.discard.record tidy

theorem seek (orderly : t.Orderly) (position : Nat) : Answers (t.seek position) := by
  unfold Timeline.seek
  split
  · exact answers_ok { orderly with }
  · exact orderly.answers_error rfl

/-- Whatever is asked of an orderly timeline keeps it orderly and is not answered by an internal
fault. -/
theorem serve (orderly : t.Orderly) {request : Request} (distinct : request.Distinct) :
    Answers (t.serve request) := by
  cases request with
  | queue change => exact (orderly.queue distinct).answers_ok
  | queueWrite table row column value =>
    have plain : Change.Distinct (.set (.of table) (row - 1) (.raw column) value) := trivial
    unfold Timeline.serve
    dsimp only
    split
    · exact orderly.answers_error rfl
    · exact (orderly.queue plain).answers_ok
  | queueRows table rows =>
    have plain : Change.Distinct (.append (.of table) rows) := trivial
    exact (orderly.queue plain).answers_ok
  | discard => exact orderly.discard.answers_ok
  | commit => exact orderly.commit
  | pause => exact answers_ok { orderly with }
  | resume => exact answers_ok { orderly with }
  | stepBack =>
    unfold Timeline.serve
    dsimp only
    split
    · exact orderly.answers_error rfl
    · split
      · exact orderly.answers_error rfl
      · exact orderly.seek _
  | stepForward =>
    unfold Timeline.serve
    dsimp only
    split
    · exact orderly.answers_error rfl
    · exact orderly.seek _
  | seek position => exact orderly.seek position

end Orderly

end Timeline

end Ripple
