import Ripple.Proofs.Snapshots
import Ripple.Session

/-!
The requests to a session, and a naive history that serves them: a `Timeline` keeps a complete copy
of the store for every state, and moves by setting a cursor.
-/

namespace Ripple

/-- A request to a session after its program is loaded. -/
inductive Request where
  | queue (change : Change)
  | queueWrite (table : String) (row : Nat) (column : UInt64) (value : Value)
  | queueRows (table : String) (rows : List Row)
  | discard
  | commit
  | pause
  | resume
  | stepBack
  | stepForward
  | seek (position : Nat)
  deriving DecidableEq, Repr

/-- Whether a request only moves the cursor. -/
def Request.moves : Request → Bool
  | .resume | .stepBack | .stepForward | .seek _ => true
  | _ => false

/-- What a session answers to a request, without the entry of a commit. -/
def Session.serve (s : Session) : Request → Answer Unit
  | .queue change => s.queue change
  | .queueWrite table row column value => s.queueWrite table row column value
  | .queueRows table rows => s.queueRows table rows
  | .discard => (s.discard, .ok ())
  | .commit => (s.commit.1, s.commit.2.map fun _ => ())
  | .pause => s.pause
  | .resume => s.resume
  | .stepBack => s.stepBack
  | .stepForward => s.stepForward
  | .seek position => s.seek position

/-- Serves requests one after the other, whatever the answers; gives all answers. -/
def Session.serveAll (s : Session) : List Request → Session × List (Except Fault Unit)
  | [] => (s, [])
  | request :: rest =>
    let (s, answer) := s.serve request
    let (s, answers) := s.serveAll rest
    (s, answer :: answers)

/-! ## Complete copies -/

/-- What a transaction on a store comes to: another store, nothing new, or a fault. -/
def Propagator.outcome (p : Propagator) (g : Graph) (s : Store) (changes : List Change) :
    Except Fault (Option Store) :=
  match p.commit g s changes with
  | (_, .error fault) => .error fault
  | (r, .ok entry) => .ok (if entry.effects.isEmpty then none else some r)

/-- A history that keeps a complete copy of every state. -/
structure Timeline where
  settings : Settings
  graph : Graph
  /-- The states, oldest first. -/
  states : List Store
  /-- The position of the state that is shown. -/
  cursor : Nat
  inside : cursor < states.length
  paused : Bool
  pending : List Change

namespace Timeline

/-- A timeline with one state. -/
def start (settings : Settings) (graph : Graph) (s : Store) : Timeline where
  settings := settings
  graph := graph
  states := [s]
  cursor := 0
  inside := Nat.one_pos
  paused := false
  pending := []

/-- The state that is shown. -/
def shown (t : Timeline) : Store := t.states.get ⟨t.cursor, t.inside⟩

/-- The position of the newest state. -/
def last (t : Timeline) : Nat := t.states.length - 1

theorem last_lt (t : Timeline) : t.last < t.states.length :=
  Nat.sub_one_lt_of_lt t.inside

/-- The newest state. -/
def newest (t : Timeline) : Store := t.states.get ⟨t.last, t.last_lt⟩

/-- What committing the queued changes on a state comes to. -/
def outcome (t : Timeline) (s : Store) : Except Fault (Option Store) :=
  (Propagator.ofCap t.settings.maxRounds).outcome t.graph s t.pending

/-- Drops the oldest states, so that at most so many are left after the first one. -/
def evict (t : Timeline) : Timeline :=
  let gone := excess t.settings.maxEntries t.last
  { t with
    states := t.states.drop gone
    cursor := t.cursor - gone
    inside := by
      have bound := excess_le t.settings.maxEntries t.last
      have here := t.inside
      unfold last at bound
      simp only [List.length_drop, gone, last]
      omega }

/-- Puts a state in place of those after the cursor and shows it. -/
def record (t : Timeline) (s : Store) : Timeline :=
  evict { t with
    states := t.states.take (t.cursor + 1) ++ [s]
    cursor := t.cursor + 1
    inside := by
      have here := t.inside
      simp only [List.length_append, List.length_take, List.length_singleton]
      omega }

/-- Adds a state after the newest one, while another one is shown. -/
def recordBehind (t : Timeline) (s : Store) : Timeline :=
  evict { t with
    states := t.states ++ [s]
    inside := by
      have here := t.inside
      simp only [List.length_append]
      omega }

/-- The timeline after a transaction that is recorded in some way. -/
def conclude (t : Timeline) (record : Timeline → Store → Timeline) :
    Except Fault (Option Store) → Timeline × Except Fault Unit
  | .error fault => (t, .error fault)
  | .ok none => (t, .ok ())
  | .ok (some s) => (record t s, .ok ())

def discard (t : Timeline) : Timeline := { t with pending := [] }

/-- Commits what is queued: on the newest state while paused if that is the policy, and otherwise
on the state that is shown. -/
def commit (t : Timeline) : Timeline × Except Fault Unit :=
  if t.pending = [] then (t.discard, .error .nothingQueued)
  else if t.paused ∧ t.settings.pausedCommits = .reject then (t.discard, .error .commitWhilePaused)
  else if t.paused ∧ t.settings.pausedCommits = .append then
    t.discard.conclude recordBehind (t.outcome t.newest)
  else t.discard.conclude record (t.outcome t.shown)

def queue (t : Timeline) (change : Change) : Timeline :=
  { t with pending := t.pending ++ [change] }

/-- Moves the cursor to a position that there is. -/
def seek (t : Timeline) (position : Nat) : Timeline × Except Fault Unit :=
  if inside : position < t.states.length then ({ t with cursor := position, inside }, .ok ())
  else (t, .error .atNewest)

/-- What a timeline answers to a request. -/
def serve (t : Timeline) : Request → Timeline × Except Fault Unit
  | .queue change => (t.queue change, .ok ())
  | .queueWrite table row column value =>
    if row = 0 then (t, .error (.rejected t.pending.length (.rowZero (.of table))))
    else (t.queue (.set (.of table) (row - 1) (.raw column) value), .ok ())
  | .queueRows table rows => (t.queue (.append (.of table) rows), .ok ())
  | .discard => (t.discard, .ok ())
  | .commit => t.commit
  | .pause => ({ t with paused := true }, .ok ())
  | .resume => ({ t with cursor := t.last, inside := t.last_lt, paused := false }, .ok ())
  | .stepBack =>
    if ¬ t.paused then (t, .error .notPaused)
    else if t.cursor = 0 then (t, .error .atOldest)
    else t.seek (t.cursor - 1)
  | .stepForward => if ¬ t.paused then (t, .error .notPaused) else t.seek (t.cursor + 1)
  | .seek position => t.seek position

/-- Serves requests one after the other; gives all answers. -/
def serveAll (t : Timeline) : List Request → Timeline × List (Except Fault Unit)
  | [] => (t, [])
  | request :: rest =>
    let (t, answer) := t.serve request
    let (t, answers) := t.serveAll rest
    (t, answer :: answers)

theorem seek_ne_store (t : Timeline) (position : Nat) (reason : Refusal) :
    (t.seek position).2 ≠ .error (.store reason) := by
  unfold seek
  split <;> simp

/-- A copy is there or not; no move fails for another reason. -/
theorem serve_ne_store (t : Timeline) {request : Request} (moves : request.moves)
    (reason : Refusal) : (t.serve request).2 ≠ .error (.store reason) := by
  cases request with
  | resume => simp [serve]
  | stepBack =>
    simp only [serve]
    split
    · simp
    · split
      · simp
      · exact t.seek_ne_store _ reason
  | stepForward =>
    simp only [serve]
    split
    · simp
    · exact t.seek_ne_store _ reason
  | seek position => exact t.seek_ne_store position reason
  | _ => cases moves

end Timeline

end Ripple
