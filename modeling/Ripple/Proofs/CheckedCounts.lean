import Ripple.Proofs.TimeTravel

/-!
Sessions on counts that cannot be negative. A difference of two counts is there only if the second is
no greater than the first (`difference?`), and an entry only if its index is inside. With these the
operations on a history and on a session are written down once more, and come to nothing where one of
them is missing. While the cursor is inside the history none ever is: every request is served as by the
session itself (`serve?_eq`).
-/

namespace Ripple

/-- The difference of two counts, if it is a count. -/
def difference? (a b : Nat) : Option Nat := if b ≤ a then some (a - b) else none

theorem difference?_eq {a b : Nat} (h : b ≤ a) : difference? a b = some (a - b) := if_pos h

namespace History

/-! ## Recording and moving -/

/-- Drops the oldest entries beyond the limit. -/
def evict? (h : History) : Option History :=
  match h.limit with
  | none => some h
  | some limit =>
    if h.size ≤ limit then some h
    else do
      let excess ← difference? h.size limit
      let cursor ← difference? h.cursor excess
      return { h with entries := h.entries.drop excess, cursor }

/-- Records an entry in place of those after the cursor. -/
def record? (h : History) (entry : Entry) : Option (History × Entry) := do
  let numbered := { entry with seq := h.nextSeq }
  let undone ← difference? h.size h.cursor
  let kept := (if undone = 0 then h.entries else h.entries.take h.cursor) ++ [numbered]
  let shorter ← evict?
    { h with entries := kept, cursor := kept.length, nextSeq := h.nextSeq + 1 }
  return (shorter, numbered)

/-- Undoes the entry before the cursor. -/
def back? (h : History) (s : Store) : Option (History × Store × Except Fault Unit) :=
  if h.cursor = 0 then some (h, s, .error .atOldest)
  else do
    let before ← difference? h.cursor 1
    let entry ← h.entries[before]?
    match runSteps Effect.revert s entry.effects.reverse with
    | (s, .ok ()) => return ({ h with cursor := before }, s, .ok ())
    | (s, .error fault) => return (h, s, .error fault)

/-- Redoes the entry after the cursor. -/
def forward? (h : History) (s : Store) : Option (History × Store × Except Fault Unit) :=
  if h.cursor = h.size then some (h, s, .error .atNewest)
  else do
    let entry ← h.entries[h.cursor]?
    match runSteps Effect.replay s entry.effects with
    | (s, .ok ()) => return ({ h with cursor := h.cursor + 1 }, s, .ok ())
    | (s, .error fault) => return (h, s, .error fault)

/-- Makes a move a number of times, or until it fails. -/
def repeatMove? (move? : History → Store → Option (History × Store × Except Fault Unit)) :
    Nat → History → Store → Option (History × Store × Except Fault Unit)
  | 0, h, s => some (h, s, .ok ())
  | count + 1, h, s => do
    match ← move? h s with
    | (h, s, .ok ()) => repeatMove? move? count h s
    | (h, s, .error fault) => return (h, s, .error fault)

/-- Moves the cursor to a position. -/
def seek? (h : History) (s : Store) (position : Nat) :
    Option (History × Store × Except Fault Unit) :=
  if h.size < position then some (h, s, .error .atNewest)
  else if position < h.cursor then do repeatMove? back? (← difference? h.cursor position) h s
  else do repeatMove? forward? (← difference? position h.cursor) h s

/-- Brings all entries into effect and ends the pause. -/
def resume? (h : History) (s : Store) : Option (History × Store × Except Fault Unit) := do
  match ← h.seek? s h.size with
  | (h, s, .ok ()) => return ({ h with paused := false }, s, .ok ())
  | (h, s, .error fault) => return (h, s, .error fault)

variable {h : History} {s : Store}

/-- After the cursor was set to the number of entries, the oldest ones can be dropped. -/
theorem evict?_eq (newest : h.cursor = h.size) : h.evict? = some h.evict := by
  unfold evict? evict
  cases bounded : h.limit with
  | none => rfl
  | some limit =>
    dsimp only
    split
    · next within =>
      have spare : h.size - limit = 0 := Nat.sub_eq_zero_of_le within
      simp [spare, ← bounded]
    · next beyond =>
      have excess : h.size - limit ≤ h.cursor := newest ▸ Nat.sub_le ..
      simp [difference?_eq (Nat.le_of_not_le beyond), difference?_eq excess]

theorem record?_eq (inside : h.cursor ≤ h.size) (entry : Entry) :
    h.record? entry = some (h.record entry) := by
  have kept : (if h.size - h.cursor = 0 then h.entries else h.entries.take h.cursor) =
      h.entries.take h.cursor := by
    split
    · next none => exact (List.take_of_length_le (Nat.le_of_sub_eq_zero none)).symm
    · rfl
  simp only [record?, difference?_eq inside, Option.bind_eq_bind, Option.bind_some, kept]
  rw [evict?_eq]
  · rfl
  · rfl

/-- A move that is made in either way alike, and that sets nothing but the cursor. -/
def Exact (move? : History → Store → Option (History × Store × Except Fault Unit))
    (move : History → Store → History × Store × Except Fault Unit) : Prop :=
  ∀ h s, h.cursor ≤ h.size →
    move? h s = some (move h s) ∧ ∃ cursor ≤ h.size, (move h s).1 = { h with cursor }

theorem back_exact : Exact back? back := by
  intro h s inside
  unfold back? back current?
  by_cases oldest : h.cursor = 0
  · simp only [if_pos oldest]
    exact ⟨trivial, h.cursor, inside, rfl⟩
  · have within : h.cursor - 1 < h.entries.length := by
      unfold size at inside
      omega
    have one : 1 ≤ h.cursor := Nat.one_le_iff_ne_zero.mpr oldest
    simp only [if_neg oldest, difference?_eq one, List.getElem?_eq_getElem within,
      Option.bind_eq_bind, Option.bind_some]
    generalize runSteps Effect.revert s h.entries[h.cursor - 1].effects.reverse = result
    obtain ⟨r, fault | ⟨⟩⟩ := result
    · exact ⟨rfl, h.cursor, inside, rfl⟩
    · exact ⟨rfl, h.cursor - 1, Nat.le_of_lt within, rfl⟩

theorem forward_exact : Exact forward? forward := by
  intro h s inside
  unfold forward? forward
  by_cases newest : h.cursor = h.size
  · have none : h.entries[h.cursor]? = none := List.getElem?_eq_none (Nat.le_of_eq newest.symm)
    simp only [if_pos newest, none]
    exact ⟨trivial, h.cursor, inside, rfl⟩
  · have within : h.cursor < h.entries.length := Nat.lt_of_le_of_ne inside newest
    simp only [if_neg newest, List.getElem?_eq_getElem within, Option.bind_eq_bind,
      Option.bind_some]
    generalize runSteps Effect.replay s h.entries[h.cursor].effects = result
    obtain ⟨r, fault | ⟨⟩⟩ := result
    · exact ⟨rfl, h.cursor, inside, rfl⟩
    · exact ⟨rfl, h.cursor + 1, within, rfl⟩

theorem Exact.repeated {move? : History → Store → Option (History × Store × Except Fault Unit)}
    {move : History → Store → History × Store × Except Fault Unit} (exact_ : Exact move? move)
    (count : Nat) : Exact (repeatMove? move? count) (repeatMove move count) := by
  intro h s inside
  induction count generalizing h s with
  | zero => exact ⟨rfl, h.cursor, inside, rfl⟩
  | succ count ih =>
    obtain ⟨made, moved⟩ := exact_ h s inside
    simp only [repeatMove?, repeatMove, made, Option.bind_eq_bind, Option.bind_some]
    generalize move h s = result at moved ⊢
    obtain ⟨h', s', fault | ⟨⟩⟩ := result
    · exact ⟨rfl, moved⟩
    · obtain ⟨cursor, within, rfl⟩ := moved
      exact ih { h with cursor } s' within

theorem seek_exact (inside : h.cursor ≤ h.size) (position : Nat) :
    h.seek? s position = some (h.seek s position) ∧
      ∃ cursor ≤ h.size, (h.seek s position).1 = { h with cursor } := by
  unfold seek? seek
  split
  · exact ⟨rfl, h.cursor, inside, rfl⟩
  · split
    · next earlier =>
      rw [difference?_eq (Nat.le_of_lt earlier)]
      exact back_exact.repeated _ h s inside
    · next later =>
      rw [difference?_eq (Nat.le_of_not_lt later)]
      exact forward_exact.repeated _ h s inside

/-- Redoing an entry sets the cursor after it. -/
theorem eq_of_forward {after : History} {r : Store} (done : h.forward s = (after, r, .ok ())) :
    after = { h with cursor := h.cursor + 1 } := by
  unfold forward at done
  split at done
  · cases done
  · split at done
    · cases done
      rfl
    · cases done

theorem resume?_eq (inside : h.cursor ≤ h.size) : h.resume? s = some (h.resume s) := by
  obtain ⟨made, -⟩ := seek_exact (s := s) inside h.size
  simp only [resume?, resume, made, Option.bind_eq_bind, Option.bind_some]
  generalize h.seek s h.size = result
  obtain ⟨h', s', fault | ⟨⟩⟩ := result <;> rfl

/-- Going on from the newest state sets nothing but the cursor and the pause. -/
theorem resume_sets (inside : h.cursor ≤ h.size) :
    ∃ cursor paused, (h.resume s).1 = { h with cursor, paused } := by
  obtain ⟨-, cursor, -, moved⟩ := seek_exact (s := s) inside h.size
  unfold resume
  generalize h.seek s h.size = answer at moved
  obtain ⟨after, r, fault | ⟨⟩⟩ := answer
  · exact ⟨cursor, h.paused, moved⟩
  · obtain rfl : after = { h with cursor } := moved
    exact ⟨cursor, false, rfl⟩

/-- A step sets nothing but the cursor. -/
theorem stepBack_sets (inside : h.cursor ≤ h.size) :
    ∃ cursor, (h.stepBack s).1 = { h with cursor } := by
  unfold stepBack
  split
  · obtain ⟨-, cursor, -, moved⟩ := back_exact h s inside
    exact ⟨cursor, moved⟩
  · exact ⟨h.cursor, rfl⟩

theorem stepForward_sets (inside : h.cursor ≤ h.size) :
    ∃ cursor, (h.stepForward s).1 = { h with cursor } := by
  unfold stepForward
  split
  · obtain ⟨-, cursor, -, moved⟩ := forward_exact h s inside
    exact ⟨cursor, moved⟩
  · exact ⟨h.cursor, rfl⟩

end History

namespace Session

/-! ## Requests -/

/-- Commits changes on the present state and records the entry. -/
def commitChanges? (s : Session) (changes : List Change) (visible : Bool) :
    Option (Answer (Option Entry)) :=
  match s.propagator.commit s.graph s.store changes with
  | (store, .error fault) => some ({ s with store }, .error fault)
  | (store, .ok entry) =>
    if entry.effects.isEmpty then some ({ s with store }, .ok none)
    else do
      let (history, entry) ← s.history.record? entry
      let recorded := { s with store, history }.tell (.ofCommit entry)
      return (if visible then recorded.tell (.ofCells entry) else recorded, .ok (some entry))

/-- Moves the cursor without telling. -/
def seek? (s : Session) (position : Nat) : Option (Answer Unit) := do
  let (history, store, result) ← s.history.seek? s.store position
  return ({ s with history, store }, result)

/-- Commits changes on the newest state while an older one is shown. Where the cursor would be held
before the oldest entry that is left, it is held there: only this one difference may be cut off. -/
def commitBehind? (s : Session) (changes : List Change) : Option (Answer (Option Entry)) := do
  let hold := s.history.cursor
  let sizeBefore := s.history.size
  match ← s.seek? sizeBefore with
  | (s, .error fault) => return (s, .error fault)
  | (s, .ok ()) =>
    let (s, result) ← s.commitChanges? changes false
    let evicted ← difference? (sizeBefore + 1) s.history.size
    let target := match result with
      | .ok (some _) => hold - evicted
      | _ => hold
    match ← s.seek? target with
    | (s, .error fault) => return (s, .error fault)
    | (s, .ok ()) => return (s, result)

/-- Commits changes on the state that is shown while it is not the newest one. -/
def commitBranch? (s : Session) (changes : List Change) : Option (Answer (Option Entry)) := do
  let previous := s.history.cursor
  match ← s.commitChanges? changes true with
  | (s, .ok (some entry)) => return (s.tellCursor previous, .ok (some entry))
  | answer => return answer

/-- Commits the queued changes as one transaction. -/
def commit? (s : Session) : Option (Answer (Option Entry)) :=
  let changes := s.pending
  let s := s.discard
  if ¬ s.ready then some (s, .error .notReady)
  else if changes.isEmpty then some (s, .error .nothingQueued)
  else if ¬ s.history.paused then s.commitChanges? changes true
  else
    match s.settings.pausedCommits with
    | .reject => some (s, .error .commitWhilePaused)
    | .branch => s.commitBranch? changes
    | .append => s.commitBehind? changes

/-- Shows the newest state and goes on from there. -/
def resume? (s : Session) : Option (Answer Unit) :=
  if ¬ s.ready then some (s, .error .notReady)
  else do
    let previous := s.history.cursor
    match ← s.history.resume? s.store with
    | (history, store, .error fault) => return ({ s with history, store }, .error fault)
    | (history, store, .ok ()) =>
      let s := { s with history, store }
      return (if history.cursor = previous then s else s.tellCursor previous, .ok ())

/-- Undoes one entry and tells which. -/
def stepBack? (s : Session) : Option (Answer Unit) :=
  if ¬ s.ready then some (s, .error .notReady)
  else if ¬ s.history.paused then some (s, .error .notPaused)
  else do
    let previous := s.history.cursor
    match ← s.history.back? s.store with
    | (history, store, .error fault) => return ({ s with history, store }, .error fault)
    | (history, store, .ok ()) =>
      let entry ← history.entries[← difference? previous 1]?
      return (({ s with history, store }.tellCursor previous).tell (.ofCells entry), .ok ())

/-- Redoes one entry and tells which. -/
def stepForward? (s : Session) : Option (Answer Unit) :=
  if ¬ s.ready then some (s, .error .notReady)
  else if ¬ s.history.paused then some (s, .error .notPaused)
  else do
    let previous := s.history.cursor
    match ← s.history.forward? s.store with
    | (history, store, .error fault) => return ({ s with history, store }, .error fault)
    | (history, store, .ok ()) =>
      let entry ← history.entries[previous]?
      return (({ s with history, store }.tellCursor previous).tell (.ofCells entry), .ok ())

/-- What a session answers to a request if all differences and entries are there. -/
def serve? (s : Session) : Request → Option (Answer Unit)
  | .commit => do
    let (s, result) ← s.commit?
    return (s, result.map fun _ => ())
  | .resume => s.resume?
  | .stepBack => s.stepBack?
  | .stepForward => s.stepForward?
  | .seek position => s.seek? position
  | request => some (s.serve request)

/-- What becomes of a history and what is answered when changes are committed. -/
inductive Records (h : History) : History → Except Fault (Option Entry) → Prop
  | failed (fault : Fault) : Records h h (.error fault)
  | same : Records h h (.ok none)
  | recorded (entry : Entry) (changed : entry.effects ≠ []) :
      Records h (h.record entry).1 (.ok (some (h.record entry).2))

theorem commitChanges_records (s : Session) (changes : List Change) (visible : Bool) :
    Records s.history (s.commitChanges changes visible).1.history
      (s.commitChanges changes visible).2 := by
  unfold commitChanges
  generalize s.propagator.commit s.graph s.store changes = result
  obtain ⟨store, fault | entry⟩ := result
  · exact .failed fault
  · dsimp only
    split
    · exact .same
    · next changed =>
      have recorded := Records.recorded (h := s.history) entry (by simpa using changed)
      cases visible <;> simpa only [history_tell, reduceIte, Bool.false_eq_true] using recorded

variable {s : Session}

theorem commitChanges?_eq (inside : s.history.cursor ≤ s.history.size) (changes : List Change)
    (visible : Bool) : s.commitChanges? changes visible = some (s.commitChanges changes visible) := by
  unfold commitChanges? commitChanges
  generalize s.propagator.commit s.graph s.store changes = result
  obtain ⟨store, fault | entry⟩ := result
  · rfl
  · dsimp only
    split
    · rfl
    · rw [History.record?_eq inside]
      rfl

theorem seek?_eq (inside : s.history.cursor ≤ s.history.size) (position : Nat) :
    s.seek? position = some (s.seek position) := by
  obtain ⟨made, -⟩ := History.seek_exact (s := s.store) inside position
  unfold seek? seek
  rw [made]
  rfl

/-- Moving the cursor sets nothing but the cursor in the history. -/
theorem history_seek (inside : s.history.cursor ≤ s.history.size) (position : Nat) :
    ∃ cursor ≤ s.history.size, (s.seek position).1.history = { s.history with cursor } :=
  (History.seek_exact inside position).2

theorem history_resume (inside : s.history.cursor ≤ s.history.size) :
    ∃ cursor paused, s.resume.1.history = { s.history with cursor, paused } := by
  have sets := History.resume_sets (s := s.store) inside
  unfold resume
  split
  · exact ⟨_, _, rfl⟩
  · generalize s.history.resume s.store = answer at sets
    obtain ⟨after, store, fault | ⟨⟩⟩ := answer
    · exact sets
    · dsimp only at sets ⊢
      split
      · exact sets
      · rwa [tellCursor, history_tell]

theorem history_stepBack (inside : s.history.cursor ≤ s.history.size) :
    ∃ cursor, s.stepBack.1.history = { s.history with cursor } := by
  have sets := History.stepBack_sets (s := s.store) inside
  unfold stepBack
  split
  · exact ⟨_, rfl⟩
  · generalize s.history.stepBack s.store = answer at sets
    obtain ⟨after, store, fault | ⟨⟩⟩ := answer
    · exact sets
    · dsimp only at sets ⊢
      split <;> simpa only [tellCursor, history_tell] using sets

theorem history_stepForward (inside : s.history.cursor ≤ s.history.size) :
    ∃ cursor, s.stepForward.1.history = { s.history with cursor } := by
  have sets := History.stepForward_sets (s := s.store) inside
  unfold stepForward
  split
  · exact ⟨_, rfl⟩
  · generalize s.history.stepForward s.store = answer at sets
    obtain ⟨after, store, fault | ⟨⟩⟩ := answer
    · exact sets
    · dsimp only at sets ⊢
      split <;> simpa only [tellCursor, history_tell] using sets

/-- No request but a commit sets anything in the history but the cursor and whether it is held. -/
theorem history_serve (inside : s.history.cursor ≤ s.history.size) {request : Request}
    (other : request ≠ .commit) :
    ∃ cursor paused, (s.serve request).1.history = { s.history with cursor, paused } := by
  have queued (change : Change) : (s.queue change).1.history = s.history := by
    unfold queue
    split <;> rfl
  cases request with
  | commit => exact absurd rfl other
  | discard => exact ⟨_, _, rfl⟩
  | queue change => exact ⟨_, _, queued change⟩
  | queueRows table rows => exact ⟨_, _, queued _⟩
  | queueWrite table row column value =>
    simp only [serve, queueWrite]
    split
    · exact ⟨_, _, rfl⟩
    · split
      · exact ⟨_, _, rfl⟩
      · exact ⟨_, _, queued _⟩
  | pause =>
    simp only [serve, pause]
    split <;> exact ⟨_, _, rfl⟩
  | resume => exact history_resume inside
  | stepBack =>
    obtain ⟨cursor, same⟩ := history_stepBack inside
    exact ⟨cursor, _, same⟩
  | stepForward =>
    obtain ⟨cursor, same⟩ := history_stepForward inside
    exact ⟨cursor, _, same⟩
  | seek position =>
    obtain ⟨cursor, -, same⟩ := history_seek inside position
    exact ⟨cursor, _, same⟩

theorem commitBranch?_eq (inside : s.history.cursor ≤ s.history.size) (changes : List Change) :
    s.commitBranch? changes = some (s.commitBranch changes) := by
  unfold commitBranch? commitBranch
  rw [commitChanges?_eq inside]
  generalize s.commitChanges changes true = answer
  obtain ⟨after, fault | _ | entry⟩ := answer <;> rfl

/-- A commit adds one entry at most, and leaves the cursor inside the history. -/
theorem Records.counts {h after : History} {result : Except Fault (Option Entry)}
    (records : Records h after result) (inside : h.cursor ≤ h.size) :
    after.cursor ≤ after.size ∧ after.size ≤ h.size + 1 := by
  cases records with
  | failed => exact ⟨inside, Nat.le_succ _⟩
  | same => exact ⟨inside, Nat.le_succ _⟩
  | recorded entry =>
    rw [History.record_eq entry inside]
    unfold History.size at inside ⊢
    simp only [List.length_drop, List.length_append, List.length_take, List.length_singleton]
    omega

theorem commitBehind?_eq (inside : s.history.cursor ≤ s.history.size) (changes : List Change) :
    s.commitBehind? changes = some (s.commitBehind changes) := by
  obtain ⟨cursor, within, moved⟩ := history_seek inside s.history.size
  unfold commitBehind? commitBehind
  dsimp only
  rw [seek?_eq inside]
  generalize s.seek s.history.size = answer at moved
  obtain ⟨newest, fault | ⟨⟩⟩ := answer
  · rfl
  · dsimp only at moved
    have kept : newest.history.cursor ≤ newest.history.size := by rw [moved]; exact within
    have same : newest.history.size = s.history.size := by rw [moved]; rfl
    obtain ⟨landed, one⟩ := (newest.commitChanges_records changes false).counts kept
    simp only [Option.bind_eq_bind, Option.bind_some, commitChanges?_eq kept]
    generalize newest.commitChanges changes false = answer at landed one
    obtain ⟨after, result⟩ := answer
    dsimp only at landed one ⊢
    rw [difference?_eq (same ▸ one)]
    simp only [Option.bind_some, seek?_eq landed]
    generalize after.seek _ = answer
    obtain ⟨last, fault | ⟨⟩⟩ := answer <;> rfl

theorem commit?_eq (inside : s.history.cursor ≤ s.history.size) : s.commit? = some s.commit := by
  have kept : s.discard.history.cursor ≤ s.discard.history.size := inside
  unfold commit? commit
  dsimp only
  rw [commitChanges?_eq kept, commitBranch?_eq kept, commitBehind?_eq kept]
  split
  · rfl
  · split
    · rfl
    · split
      · rfl
      · cases s.discard.settings.pausedCommits <;> rfl

theorem resume?_eq (inside : s.history.cursor ≤ s.history.size) : s.resume? = some s.resume := by
  unfold resume? resume
  split
  · rfl
  · rw [History.resume?_eq inside]
    generalize s.history.resume s.store = answer
    obtain ⟨history, store, fault | ⟨⟩⟩ := answer <;> rfl

theorem stepBack?_eq (inside : s.history.cursor ≤ s.history.size) :
    s.stepBack? = some s.stepBack := by
  unfold stepBack? stepBack History.stepBack
  split
  · rfl
  · by_cases paused : s.history.paused = true
    · obtain ⟨made, cursor, within, moved⟩ := History.back_exact s.history s.store inside
      simp only [paused, reduceIte, not_true_eq_false, made, Option.bind_eq_bind, Option.bind_some]
      by_cases oldest : s.history.cursor = 0
      · simp only [Shows.back_of_cursor_eq_zero oldest]
        rfl
      · have one : 1 ≤ s.history.cursor := Nat.one_le_iff_ne_zero.mpr oldest
        have there : s.history.cursor - 1 < s.history.entries.length := by
          unfold History.size at inside
          omega
        have undone : s.history.current? = some s.history.entries[s.history.cursor - 1] := by
          rw [History.current?, if_neg oldest, List.getElem?_eq_getElem there]
        generalize s.history.back s.store = answer at moved
        obtain ⟨history, store, fault | ⟨⟩⟩ := answer
        · rfl
        · dsimp only at moved
          subst moved
          simp only [difference?_eq one, undone, Option.bind_some, List.getElem?_eq_getElem there]
          rfl
    · simp only [paused]
      rfl

theorem stepForward?_eq (inside : s.history.cursor ≤ s.history.size) :
    s.stepForward? = some s.stepForward := by
  unfold stepForward? stepForward History.stepForward
  split
  · rfl
  · by_cases paused : s.history.paused = true
    · obtain ⟨made, -⟩ := History.forward_exact s.history s.store inside
      simp only [paused, reduceIte, not_true_eq_false, made, Option.bind_eq_bind, Option.bind_some]
      by_cases newest : s.history.cursor = s.history.size
      · simp only [Shows.forward_of_size_le (Nat.le_of_eq newest.symm)]
        rfl
      · have there : s.history.cursor < s.history.entries.length :=
          Nat.lt_of_le_of_ne inside newest
        cases moved : s.history.forward s.store with
        | mk history rest =>
          obtain ⟨store, fault | ⟨⟩⟩ := rest
          · rfl
          · obtain rfl := History.eq_of_forward moved
            have redone : History.current? { s.history with cursor := s.history.cursor + 1 } =
                some s.history.entries[s.history.cursor] := by
              simp [History.current?, there]
            simp only [List.getElem?_eq_getElem there, redone, Option.bind_some]
            rfl
    · simp only [paused]
      rfl

/-- **No count gets negative.** While the cursor is inside the history, every difference of counts that
serving a request takes is a count and every entry that it looks up is there. -/
theorem serve?_eq (inside : s.history.cursor ≤ s.history.size) (request : Request) :
    s.serve? request = some (s.serve request) := by
  cases request with
  | commit =>
    simp only [serve?, serve, commit?_eq inside]
    rfl
  | resume => exact resume?_eq inside
  | stepBack => exact stepBack?_eq inside
  | stepForward => exact stepForward?_eq inside
  | seek position => exact seek?_eq inside position
  | _ => rfl

end Session

end Ripple
