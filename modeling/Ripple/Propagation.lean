import Ripple.Fault
import Ripple.Graph

/-!
# Transactions and propagation

A transaction carries out the submitted changes and then runs, round after round, the blocks
that watch what was written, until none is due. Within a round the blocks run in evaluation
order, and each one sees what the ones before it wrote. A watcher of what a block wrote runs in
the same round if it comes later in the order, and in the next round otherwise, so that a block
runs at most once in a round.

Everything that is done is listed. If anything fails, the list is undone from its end, which
leaves the store as it was.
-/

namespace Ripple

/-- A transaction under way. -/
structure Run where
  store : Store
  /-- What was done so far, in order. -/
  effects : List Effect
  /-- How many rounds were begun. -/
  rounds : Nat
  /-- The names of the blocks that ran, in order. -/
  fired : List String
  deriving DecidableEq, Repr

/-- A transaction that failed, with the state to undo. -/
structure Failure where
  fault : Fault
  run : Run
  deriving DecidableEq, Repr

namespace Run

/-- Before anything is done. -/
def start (s : Store) : Run := ⟨s, [], 0, []⟩

/-- After the changes of an outcome. -/
def adopt (run : Run) (outcome : Outcome) : Run :=
  { run with store := outcome.store, effects := run.effects ++ outcome.effects }

/-- Undoes effects, the last one first. An effect that cannot be undone is passed over. -/
def undo (effects : List Effect) (s : Store) : Store :=
  effects.foldr (fun effect s => match effect.revert s with | .ok s => s | .error _ => s) s

/-- `rollback`: the store with everything undone that the transaction did. -/
def rollback (run : Run) : Store := undo run.effects run.store

/-- Carries out the changes that a block asks for; gives the registers they wrote. -/
def applyAll (block : String) (run : Run) (touched : List Register) :
    List Change → Except Failure (Run × List Register)
  | [] => .ok (run, touched)
  | change :: rest =>
    match change.apply run.store with
    | .error reason => .error ⟨.invalidChange block reason, run⟩
    | .ok outcome => applyAll block (run.adopt outcome) (touched ++ outcome.touched) rest

/-- Runs a block; gives the registers it wrote. -/
def fire (run : Run) (block : Block) : Except Failure (Run × List Register) :=
  let run := { run with fired := run.fired ++ [block.name] }
  match block.routine run.store with
  | .error message => .error ⟨.blockFailed block.name message, run⟩
  | .ok changes => applyAll block.name run [] changes

end Run

/-- A round under way. -/
structure Round where
  run : Run
  /-- The blocks that run in this round if they have not run yet. -/
  due : List Nat
  /-- The blocks that run in the next round. -/
  later : List Nat
  deriving DecidableEq, Repr

namespace Graph

/-- All watchers of some registers. -/
def watchersOf (g : Graph) (registers : List Register) : List Nat := registers.flatMap g.watchers

/-- Makes the watchers of what a block wrote due, in this round if they come later. -/
def schedule (g : Graph) (block : Nat) (touched : List Register) (round : Round) : Round :=
  let (ahead, behind) := (g.watchersOf touched).partition fun w => g.rank block < g.rank w
  { round with due := round.due ++ ahead, later := round.later ++ behind }

/-- Goes through blocks in evaluation order and runs those that are due. -/
def sweep (g : Graph) (round : Round) : List (Nat × Block) → Except Failure Round
  | [] => .ok round
  | (index, block) :: rest =>
    if index ∈ round.due then
      match round.run.fire block with
      | .error failure => .error failure
      | .ok (run, touched) => sweep g (g.schedule index touched { round with run }) rest
    else sweep g round rest

/-- `Executor::propagate`, without its queues (`Graph.propagate` has them, and agrees): runs rounds until
no block is due. `cap` is the number of rounds that are allowed and `left` how many of them are left. -/
def settle (g : Graph) (cap : Nat) (left : Nat) (due : List Nat) (run : Run) :
    Except Failure Run :=
  if due.isEmpty then .ok run
  else
    match left with
    | 0 => .error ⟨.divergent cap, run⟩
    | left + 1 =>
      match g.sweep ⟨{ run with rounds := run.rounds + 1 }, due, []⟩ g.ordered with
      | .error failure => .error failure
      | .ok round => settle g cap left round.later round.run

end Graph

/-- `PropagationReport`: figures about a transaction. -/
structure Report where
  submitted : Nat
  rounds : Nat
  blocks : Nat
  /-- How many cells were written or appended. -/
  cells : Nat
  /-- How many tables were created. -/
  created : Nat
  /-- How long it took, in microseconds. -/
  micros : Nat
  deriving DecidableEq, Repr

namespace Report

/-- One line for people. -/
def summary (r : Report) : String :=
  s!"{r.cells} cells in {r.rounds} round(s), {r.blocks} block(s) evaluated, {r.micros}us"

/-- A number with blanks on the left up to a width. -/
def padLeft (width n : Nat) : String :=
  let shown := Nat.toDigits 10 n
  String.ofList (List.replicate (width - shown.length) ' ' ++ shown)

/-- One line for a log. -/
def logLine (r : Report) : String :=
  s!"[propagate] {padLeft 5 r.micros}us  submitted={r.submitted}  rounds={r.rounds}  " ++
    s!"blocks={r.blocks}  cells={r.cells}  created={r.created}"

end Report

/-- Whether an effect is on a cell. -/
def Effect.isCell : Effect → Bool
  | .cell .. => true
  | .created .. => false

/-- The entry of a completed transaction. Its number is given when it is recorded. -/
def Run.entry (run : Run) (submitted : Nat) : Entry where
  seq := 0
  submitted := submitted
  effects := run.effects
  rounds := run.rounds
  fired := run.fired

/-- The figures of an entry, leaving out the time. -/
def Entry.report (entry : Entry) : Report where
  submitted := entry.submitted
  rounds := entry.rounds
  blocks := entry.fired.length
  cells := entry.effects.countP (·.isCell)
  created := entry.effects.countP (! ·.isCell)
  micros := 0

/-- Runs transactions with at most so many rounds. -/
structure Propagator where
  /-- The number of rounds that are allowed, at least one. -/
  cap : Nat
  deriving DecidableEq, Repr

namespace Propagator

/-- The number of rounds that are allowed unless something else is asked for. -/
def defaultCap : Nat := 64

/-- `Executor::new`: no rounds at all cannot be asked for. -/
def ofCap (cap : Nat) : Propagator := ⟨max cap 1⟩

/-- Carries out submitted changes; gives the registers they wrote. -/
def submit (run : Run) (touched : List Register) (index : Nat) :
    List Change → Except Failure (Run × List Register)
  | [] => .ok (run, touched)
  | change :: rest =>
    match change.apply run.store with
    | .error reason => .error ⟨.rejected index reason, run⟩
    | .ok outcome => submit (run.adopt outcome) (touched ++ outcome.touched) (index + 1) rest

/-- `Executor::finish`: the store and the answer at the end of a transaction. -/
def conclude (submitted : Nat) : Except Failure Run → Store × Except Fault Entry
  | .ok run => (run.store, .ok (run.entry submitted))
  | .error failure => (failure.run.rollback, .error failure.fault)

/-- `Executor::commit` carries out changes as one transaction. If it fails the store is as before. -/
def commit (p : Propagator) (g : Graph) (s : Store) (changes : List Change) :
    Store × Except Fault Entry :=
  if changes.isEmpty then (s, .error .nothingQueued)
  else
    conclude changes.length do
      let (run, touched) ← submit (.start s) [] 0 changes
      g.settle p.cap p.cap (g.watchersOf touched) run

/-- `Executor::bootstrap` runs every block once that runs on load, and what follows from that. -/
def bootstrap (p : Propagator) (g : Graph) (s : Store) : Store × Except Fault Entry :=
  conclude 0 (g.settle p.cap p.cap g.onLoad (.start s))

end Propagator

/-! ## Rounds are begun by the propagation alone -/

/-- How many rounds were begun where a computation stops. -/
def roundsBegun {α : Type} (run : α → Run) : Except Failure α → Nat
  | .ok a => (run a).rounds
  | .error failure => failure.run.rounds

theorem applyAll_rounds (block : String) (run : Run) (touched : List Register)
    (changes : List Change) :
    roundsBegun Prod.fst (run.applyAll block touched changes) = run.rounds := by
  induction changes generalizing run touched with
  | nil => rfl
  | cons change rest ih =>
    unfold Run.applyAll
    cases change.apply run.store with
    | error reason => rfl
    | ok outcome => exact ih (run.adopt outcome) _

theorem fire_rounds (run : Run) (block : Block) :
    roundsBegun Prod.fst (run.fire block) = run.rounds := by
  unfold Run.fire
  dsimp only
  split
  · rfl
  · exact applyAll_rounds ..

theorem submit_rounds (run : Run) (touched : List Register) (index : Nat) (changes : List Change) :
    roundsBegun Prod.fst (Propagator.submit run touched index changes) = run.rounds := by
  induction changes generalizing run touched index with
  | nil => rfl
  | cons change rest ih =>
    unfold Propagator.submit
    cases change.apply run.store with
    | error reason => rfl
    | ok outcome => exact ih (run.adopt outcome) _ _

end Ripple
