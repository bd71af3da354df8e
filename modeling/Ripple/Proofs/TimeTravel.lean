import Mathlib.Data.List.Permutation
import Ripple.Proofs.Timeline

/-!
Time travel refines complete copies. A session keeps only the present store and the entries between
the states, while a timeline keeps every state. `Follows` ties the two, every request keeps them
tied and is answered alike by both (`serve_inStep`), and so after any requests to a loaded session
the store that it shows is the copy at the cursor (`time_travel_refines_copies`).
-/

namespace Ripple

/-- The session shows what the timeline shows, and is in the same state otherwise. -/
structure Follows (s : Session) (t : Timeline) : Prop where
  ready : s.ready = true
  settings : s.settings = t.settings
  graph : s.graph = t.graph
  pending : s.pending = t.pending
  paused : s.history.paused = t.paused
  limit : s.history.limit = t.settings.maxEntries
  cursor : s.history.cursor = t.cursor
  view : Shows t.states s.history s.store

/-- Both answer the same, and what they are then is tied again. -/
def InStep (a : Answer Unit) (b : Timeline × Except Fault Unit) : Prop :=
  Follows a.1 b.1 ∧ a.2 = b.2

variable {s : Session} {t : Timeline} {r : Store} {states : List Store}

namespace Timeline

theorem shown_eq (t : Timeline) : t.states[t.cursor]? = some t.shown :=
  List.getElem?_eq_getElem t.inside

theorem newest_eq (t : Timeline) : t.states[t.last]? = some t.newest :=
  List.getElem?_eq_getElem t.last_lt

theorem record_states (t : Timeline) (s : Store) :
    (t.record s).states =
      (t.states.take (t.cursor + 1) ++ [s]).drop (excess t.settings.maxEntries (t.cursor + 1)) := by
  have here := t.inside
  have count : min (t.cursor + 1) t.states.length = t.cursor + 1 := by omega
  simp [record, evict, last, count]

theorem record_cursor (t : Timeline) (s : Store) :
    (t.record s).cursor = t.cursor + 1 - excess t.settings.maxEntries (t.cursor + 1) := by
  have here := t.inside
  have count : min (t.cursor + 1) t.states.length = t.cursor + 1 := by omega
  simp [record, evict, last, count]

theorem recordBehind_states (t : Timeline) (s : Store) :
    (t.recordBehind s).states =
      (t.states ++ [s]).drop (excess t.settings.maxEntries t.states.length) := by
  simp [recordBehind, evict, last]

theorem recordBehind_cursor (t : Timeline) (s : Store) :
    (t.recordBehind s).cursor = t.cursor - excess t.settings.maxEntries t.states.length := by
  simp [recordBehind, evict, last]

end Timeline

/-- Telling changes nothing but what was told. -/
theorem Session.tell_eq (s : Session) (event : Event) : ∃ told, s.tell event = { s with told } := by
  unfold tell
  split
  · exact ⟨_, rfl⟩
  · exact ⟨s.told, rfl⟩

theorem Session.history_tell (s : Session) (event : Event) : (s.tell event).history = s.history := by
  obtain ⟨told, same⟩ := s.tell_eq event
  rw [same]

namespace Follows

theorem size_eq (follows : Follows s t) : s.history.size = t.last := by
  have length := follows.view.linked.length
  unfold History.size Timeline.last
  omega

theorem shown (follows : Follows s t) : s.store = t.shown := by
  have here := follows.view.shown
  rw [follows.cursor, t.shown_eq] at here
  exact (Option.some.inj here).symm

theorem tell (follows : Follows s t) (event : Event) : Follows (s.tell event) t := by
  obtain ⟨told, same⟩ := s.tell_eq event
  rw [same]
  exact { follows with }

theorem discard (follows : Follows s t) : Follows s.discard t.discard :=
  { follows with pending := rfl }

theorem queue (follows : Follows s t) (change : Change) :
    InStep (s.queue change) (t.queue change, .ok ()) := by
  unfold Session.queue
  rw [if_pos follows.ready]
  exact ⟨{ follows with pending := congrArg (· ++ [change]) follows.pending }, rfl⟩

theorem pause (follows : Follows s t) : InStep s.pause (t.serve .pause) := by
  unfold Session.pause
  rw [if_pos follows.ready]
  exact ⟨{ follows with
    paused := rfl
    view := ⟨follows.view.linked, follows.view.shown⟩ }, rfl⟩

/-- A session at another position follows the timeline with the cursor there. -/
theorem at_position (follows : Follows s t) {position : Nat} (inside : position < t.states.length)
    (reached : t.states[position]? = some r) :
    Follows { s with history := { s.history with cursor := position }, store := r }
      { t with cursor := position, inside } :=
  { follows with
    cursor := rfl
    view := follows.view.at_cursor reached }

end Follows

/-! ## Moving -/

theorem seek_eq_of_shows (view : Shows states s.history s.store) {position : Nat}
    (inside : position ≤ s.history.size) (reached : states[position]? = some r) :
    s.seek position =
      ({ s with history := { s.history with cursor := position }, store := r }, .ok ()) := by
  simp only [Session.seek, view.seek inside reached]

theorem seek_inStep (follows : Follows s t) (position : Nat) :
    InStep (s.seek position) (t.seek position) := by
  have size := follows.size_eq
  have here := t.inside
  unfold Timeline.last at size
  unfold Timeline.seek
  split
  · next inside =>
    have reached := List.getElem?_eq_getElem inside
    rw [seek_eq_of_shows follows.view (by omega) reached]
    exact ⟨follows.at_position inside reached, rfl⟩
  · next outside =>
    have beyond : s.history.size < position := by omega
    simp only [Session.seek, History.seek, if_pos beyond]
    exact ⟨follows, rfl⟩

theorem resume_inStep (follows : Follows s t) : InStep s.resume (t.serve .resume) := by
  have reached : t.states[s.history.size]? = some t.newest := follows.size_eq ▸ t.newest_eq
  have sought := follows.view.seek (Nat.le_refl _) reached
  have after : Follows
      { s with
        history := { s.history with cursor := s.history.size, paused := false }
        store := t.newest }
      (t.serve .resume).1 :=
    { follows with
      paused := rfl
      cursor := follows.size_eq
      view := ⟨follows.view.linked, reached⟩ }
  unfold Session.resume
  rw [if_neg (by simp [follows.ready])]
  simp only [History.resume, sought]
  refine ⟨?_, rfl⟩
  split
  · exact after
  · exact after.tell _

theorem stepBack_inStep (follows : Follows s t) : InStep s.stepBack (t.serve .stepBack) := by
  have cursor := follows.cursor
  have here := t.inside
  unfold Session.stepBack
  rw [if_neg (by simp [follows.ready])]
  simp only [History.stepBack, Timeline.serve, follows.paused]
  cases t.paused with
  | false => exact ⟨follows, rfl⟩
  | true =>
    by_cases oldest : t.cursor = 0
    · simp only [Shows.back_of_cursor_eq_zero (cursor.trans oldest), if_pos oldest]
      exact ⟨follows, rfl⟩
    · have inside : t.cursor - 1 < t.states.length := by omega
      have reached := List.getElem?_eq_getElem inside
      have later : s.history.cursor = t.cursor - 1 + 1 := by omega
      have stepped := follows.view.back later reached
      have after := follows.at_position inside reached
      simp only [reduceIte, stepped, if_neg oldest, Timeline.seek, dif_pos inside,
        not_true_eq_false]
      refine ⟨?_, rfl⟩
      split
      · exact (after.tell _).tell _
      · exact after.tell _

theorem stepForward_inStep (follows : Follows s t) :
    InStep s.stepForward (t.serve .stepForward) := by
  have cursor := follows.cursor
  have size := follows.size_eq
  unfold Timeline.last at size
  unfold Session.stepForward
  rw [if_neg (by simp [follows.ready])]
  simp only [History.stepForward, Timeline.serve, follows.paused]
  cases t.paused with
  | false => exact ⟨follows, rfl⟩
  | true =>
    by_cases inside : t.cursor + 1 < t.states.length
    · have reached := List.getElem?_eq_getElem inside
      have stepped := follows.view.forward (r := t.states[t.cursor + 1]) (by omega)
        (by rw [cursor]; exact reached)
      rw [cursor] at stepped
      have after := follows.at_position inside reached
      simp only [reduceIte, stepped, Timeline.seek, dif_pos inside, not_true_eq_false]
      refine ⟨?_, rfl⟩
      split
      · exact (after.tell _).tell _
      · exact after.tell _
    · have newest := Shows.forward_of_size_le (h := s.history) (s := s.store) (by omega)
      simp only [reduceIte, newest, Timeline.seek, dif_neg inside, not_true_eq_false]
      exact ⟨follows, rfl⟩

/-! ## Committing -/

/-- What committing changes comes to: a fault, nothing new, or a recorded entry that lies exactly
between the present store and the next one. -/
inductive Commits (s : Session) : Except Fault (Option Store) → Answer (Option Entry) → Prop where
  | failed (fault : Fault) : Commits s (.error fault) (s, .error fault)
  | same : Commits s (.ok none) (s, .ok none)
  | recorded {r : Store} {entry : Entry} (told : List Event)
      (tracks : Tracks s.store r entry.effects) :
      Commits s (.ok (some r))
        ({ s with store := r, history := (s.history.record entry).1, told },
          .ok (some (s.history.record entry).2))

theorem commitChanges_commits (sound : s.store.Sound) (changes : List Change) (visible : Bool) :
    Commits s (s.propagator.outcome s.graph s.store changes)
      (s.commitChanges changes visible) := by
  unfold Session.commitChanges Propagator.outcome
  cases committed : s.propagator.commit s.graph s.store changes with
  | mk r answer =>
    cases answer with
    | error fault =>
      have failed : (s.propagator.commit s.graph s.store changes).2 = .error fault := by
        rw [committed]
      have restored := store_of_failed_commit sound failed
      rw [committed] at restored
      dsimp only at restored ⊢
      rw [restored]
      exact .failed fault
    | ok entry =>
      have tracks := tracks_of_commit sound committed
      by_cases empty : entry.effects = []
      · have unchanged := tracks.2.forth
        rw [empty] at unchanged
        cases unchanged
        simp only [empty, List.isEmpty_nil, reduceIte]
        exact .same
      · simp only [List.isEmpty_iff, if_neg empty]
        let recorded := { s with store := r, history := (s.history.record entry).1 }
        obtain ⟨told, first⟩ := recorded.tell_eq (.ofCommit (s.history.record entry).2)
        rw [first]
        split
        · obtain ⟨told, second⟩ := Session.tell_eq { recorded with told }
            (.ofCells (s.history.record entry).2)
          rw [second]
          exact .recorded told tracks
        · exact .recorded told tracks

/-- The session after a recorded entry follows the timeline with the new state at the cursor. -/
theorem Follows.record (follows : Follows s t) {entry : Entry} {told : List Event}
    (tracks : Tracks s.store r entry.effects) :
    Follows { s with store := r, history := (s.history.record entry).1, told } (t.record r) := by
  have recorded := follows.view.record tracks
  have equation := History.record_eq entry follows.view.cursor_le
  have cursor := follows.cursor
  have limit := follows.limit
  exact
    { ready := follows.ready
      settings := follows.settings
      graph := follows.graph
      pending := follows.pending
      paused := by rw [equation]; exact follows.paused
      limit := by rw [equation]; exact limit
      cursor := by rw [equation, t.record_cursor, cursor, limit]
      view := by rw [t.record_states, ← cursor, ← limit]; exact recorded }

theorem Commits.inStep (follows : Follows s t) {result : Except Fault (Option Store)}
    {answer : Answer (Option Entry)} (commits : Commits s result answer) :
    InStep (answer.1, answer.2.map fun _ => ()) (t.conclude Timeline.record result) := by
  cases commits with
  | failed fault => exact ⟨follows, rfl⟩
  | same => exact ⟨follows, rfl⟩
  | recorded told tracks => exact ⟨follows.record tracks, rfl⟩

/-- Committing on the state that is shown; in what order listeners are told makes no difference. -/
theorem commitBranch_inStep (follows : Follows s t) (changes : List Change) :
    InStep ((s.commitBranch changes).1, (s.commitBranch changes).2.map fun _ => ())
      (t.conclude Timeline.record (s.propagator.outcome s.graph s.store changes)) := by
  have commits := commitChanges_commits follows.view.sound changes true
  unfold Session.commitBranch
  generalize s.commitChanges changes true = answer at commits ⊢
  generalize s.propagator.outcome s.graph s.store changes = result at commits ⊢
  cases commits with
  | failed fault => exact ⟨follows, rfl⟩
  | same => exact ⟨follows, rfl⟩
  | recorded told tracks => exact ⟨(follows.record tracks).tell _, rfl⟩

/-- An entry recorded at the newest state leaves the states of the timeline with one more behind. -/
theorem Follows.shows_recordBehind (follows : Follows s t) {entry : Entry}
    (tracks : Tracks t.newest r entry.effects) :
    Shows (t.recordBehind r).states
      (History.record { s.history with cursor := s.history.size } entry).1 r := by
  have reached : t.states[s.history.size]? = some t.newest := follows.size_eq ▸ t.newest_eq
  have count : t.states.length = s.history.size + 1 := follows.view.linked.length
  rw [t.recordBehind_states, ← follows.limit, count]
  exact follows.view.recordBehind reached tracks

/-- Back at the state that was shown before, the session follows the timeline. -/
theorem Follows.recordBehind (follows : Follows s t) {entry : Entry} (told : List Event)
    (tracks : Tracks t.newest r entry.effects) :
    let recorded := (History.record { s.history with cursor := s.history.size } entry).1
    Follows
      { s with
        history := { recorded with cursor := (t.recordBehind r).cursor }
        store := (t.recordBehind r).shown
        told }
      (t.recordBehind r) := by
  have equation := History.record_eq (h := { s.history with cursor := s.history.size }) entry
    (Nat.le_refl _)
  exact
    { ready := follows.ready
      settings := follows.settings
      graph := follows.graph
      pending := follows.pending
      paused := by rw [equation]; exact follows.paused
      limit := by rw [equation]; exact follows.limit
      cursor := rfl
      view := (follows.shows_recordBehind tracks).at_cursor (t.recordBehind r).shown_eq }

/-- What committing changes behind the state that is shown comes to: a fault or nothing new, and then
the session is as before, or a recorded entry with its state behind all others. -/
inductive CommitsBehind (s : Session) (t : Timeline) :
    Except Fault (Option Store) → Answer (Option Entry) → Prop where
  | failed (fault : Fault) : CommitsBehind s t (.error fault) (s, .error fault)
  | same : CommitsBehind s t (.ok none) (s, .ok none)
  | recorded {r : Store} {after : Session} (entry : Entry)
      (follows : Follows after (t.recordBehind r)) :
      CommitsBehind s t (.ok (some r)) (after, .ok (some entry))

/-- Going to the newest state, committing there and going back shows the same state as before, or
the oldest one that is left if that one is dropped. -/
theorem commitBehind_commits (follows : Follows s t) (changes : List Change) :
    CommitsBehind s t (s.propagator.outcome s.graph t.newest changes) (s.commitBehind changes) := by
  have reached : t.states[s.history.size]? = some t.newest := follows.size_eq ▸ t.newest_eq
  have view := follows.view.at_cursor reached
  let newest : Session :=
    { s with history := { s.history with cursor := s.history.size }, store := t.newest }
  have gone : s.seek s.history.size = (newest, .ok ()) :=
    seek_eq_of_shows follows.view (Nat.le_refl _) reached
  have held : newest.seek s.history.cursor = (s, .ok ()) :=
    seek_eq_of_shows (s := newest) view follows.view.cursor_le follows.view.shown
  have commits : Commits newest (s.propagator.outcome s.graph t.newest changes)
      (newest.commitChanges changes false) :=
    commitChanges_commits view.sound changes false
  unfold Session.commitBehind
  simp only [gone]
  generalize newest.commitChanges changes false = answer at commits ⊢
  generalize s.propagator.outcome s.graph t.newest changes = result at commits ⊢
  cases commits with
  | failed fault =>
    simp only [held]
    exact .failed fault
  | same =>
    simp only [held]
    exact .same
  | @recorded r entry told tracks =>
    have count : t.states.length = s.history.size + 1 := follows.view.linked.length
    have evicted : s.history.size + 1 - (newest.history.record entry).1.size =
        excess s.history.limit (s.history.size + 1) := s.history.dropped_of_record entry
    have position : s.history.cursor - excess s.history.limit (s.history.size + 1) =
        (t.recordBehind r).cursor := by
      rw [t.recordBehind_cursor, ← follows.limit, count, follows.cursor]
    have recorded := follows.shows_recordBehind tracks
    have there := (t.recordBehind r).shown_eq
    have back := seek_eq_of_shows
      (s := { newest with store := r, history := (newest.history.record entry).1, told })
      recorded (recorded.at_cursor there).cursor_le there
    simp only [evicted, position, back]
    exact .recorded _ (follows.recordBehind told tracks)

theorem commitBehind_inStep (follows : Follows s t) (changes : List Change) :
    InStep ((s.commitBehind changes).1, (s.commitBehind changes).2.map fun _ => ())
      (t.conclude Timeline.recordBehind (s.propagator.outcome s.graph t.newest changes)) := by
  have commits := commitBehind_commits follows changes
  generalize s.commitBehind changes = answer at commits ⊢
  generalize s.propagator.outcome s.graph t.newest changes = result at commits ⊢
  cases commits with
  | failed fault => exact ⟨follows, rfl⟩
  | same => exact ⟨follows, rfl⟩
  | recorded entry after => exact ⟨after, rfl⟩

/-- Session and timeline commit the same changes on the same state, or drop them for the same reason. -/
theorem Follows.commit_cases (follows : Follows s t) :
    (∃ fault, s.commit = (s.discard, .error fault) ∧ t.commit = (t.discard, .error fault)) ∨
      (s.commit = s.discard.commitChanges s.pending true ∨
          s.commit = s.discard.commitBranch s.pending) ∧
        t.commit = t.discard.conclude Timeline.record
          (s.discard.propagator.outcome s.discard.graph s.discard.store s.pending) ∨
      s.commit = s.discard.commitBehind s.pending ∧
        t.commit = t.discard.conclude Timeline.recordBehind
          (s.discard.propagator.outcome s.discard.graph t.discard.newest s.pending) := by
  have after : Follows s.discard t.discard := follows.discard
  have outcome (r : Store) :
      s.discard.propagator.outcome s.discard.graph r s.pending = t.outcome r := by
    rw [Timeline.outcome, Session.propagator, after.settings, after.graph, follows.pending]
    rfl
  have here : s.discard.store = t.shown := after.shown
  have there : t.discard.newest = t.newest := rfl
  have ready : s.discard.ready = true := follows.ready
  have paused : s.discard.history.paused = t.paused := follows.paused
  have settings : s.discard.settings = t.settings := follows.settings
  rw [outcome, outcome, here, there]
  simp only [Session.commit, Timeline.commit, ready, paused, settings, List.isEmpty_iff,
    not_true_eq_false, reduceIte, follows.pending]
  by_cases empty : t.pending = []
  · simp only [if_pos empty]
    exact .inl ⟨_, rfl, rfl⟩
  · simp only [if_neg empty]
    cases t.paused with
    | false => exact .inr (.inl ⟨.inl (by simp), by simp⟩)
    | true =>
      cases t.settings.pausedCommits with
      | reject => exact .inl ⟨_, rfl, by simp⟩
      | branch => exact .inr (.inl ⟨.inr rfl, by simp⟩)
      | append => exact .inr (.inr ⟨rfl, by simp⟩)

theorem commit_inStep (follows : Follows s t) : InStep (s.serve .commit) t.commit := by
  have after : Follows s.discard t.discard := follows.discard
  rw [Session.serve]
  rcases follows.commit_cases with ⟨fault, same, alike⟩ | ⟨same | same, alike⟩ | ⟨same, alike⟩
  · rw [same, alike]
    exact ⟨after, rfl⟩
  · rw [same, alike]
    exact Commits.inStep after (commitChanges_commits after.view.sound s.pending true)
  · rw [same, alike]
    exact commitBranch_inStep after s.pending
  · rw [same, alike]
    exact commitBehind_inStep after s.pending

/-! ## Runs -/

/-- Every request is answered alike, and keeps the session and the timeline together. -/
theorem serve_inStep (follows : Follows s t) (request : Request) :
    InStep (s.serve request) (t.serve request) := by
  cases request with
  | queue change => exact follows.queue change
  | queueWrite table row column value =>
    simp only [Session.serve, Session.queueWrite, Timeline.serve, follows.ready,
      not_true_eq_false, reduceIte]
    split
    · exact ⟨follows, by rw [follows.pending]⟩
    · exact follows.queue _
  | queueRows table rows => exact follows.queue _
  | discard => exact ⟨follows.discard, rfl⟩
  | commit => exact commit_inStep follows
  | pause => exact follows.pause
  | resume => exact resume_inStep follows
  | stepBack => exact stepBack_inStep follows
  | stepForward => exact stepForward_inStep follows
  | seek position => exact seek_inStep follows position

theorem serveAll_inStep (follows : Follows s t) (requests : List Request) :
    Follows (s.serveAll requests).1 (t.serveAll requests).1 ∧
      (s.serveAll requests).2 = (t.serveAll requests).2 := by
  induction requests generalizing s t with
  | nil => exact ⟨follows, rfl⟩
  | cons request rest ih =>
    obtain ⟨next, answer⟩ := serve_inStep follows request
    obtain ⟨last, answers⟩ := ih next
    exact ⟨last, by simp only [Session.serveAll, Timeline.serveAll, answer, answers]⟩

/-! ## Loading -/

theorem Store.sound_create {id : Ident} {name : String} {specs : List ColumnSpec}
    {rows : List Row} {q : Store} (sound : r.Sound) (created : r.create id name specs rows = .ok q) :
    q.Sound := by
  unfold Store.create at created
  split at created
  · cases created
  · obtain ⟨u, appended, placed⟩ := bind_eq_ok_iff.mp created
    cases placed
    exact Store.sound_put sound (Table.regular_append (Table.regular_empty id name specs) appended)

theorem Session.declareAll_sound {declarations : List Program.Declaration} {q : Store}
    (sound : r.Sound) (declared : declareAll r declarations = .ok q) : q.Sound := by
  induction declarations generalizing r with
  | nil =>
    cases declared
    exact sound
  | cons d rest ih =>
    obtain ⟨next, created, later⟩ := bind_eq_ok_iff.mp declared
    exact ih (Store.sound_create sound created) later

/-- A session that loaded a program shows a timeline that begins with its store. -/
theorem follows_of_load {fresh : Session} {program : Program}
    (loaded : fresh.load program = (s, .ok ())) :
    Follows s (.start s.settings s.graph s.store) := by
  unfold Session.load at loaded
  split at loaded
  · cases loaded
  · next store declared =>
    have sound := Session.declareAll_sound Store.sound_empty declared
    dsimp only at loaded
    split at loaded
    · cases loaded
    · next r entry booted =>
      have reached := (tracks_of_bootstrap sound booted).1
      cases loaded
      obtain ⟨told, same⟩ := Session.tell_eq _ _
      rw [same]
      exact
        { ready := rfl
          settings := rfl
          graph := rfl
          pending := rfl
          paused := rfl
          limit := rfl
          cursor := rfl
          view := ⟨.single reached, rfl⟩ }

/-- **Time travel refines complete copies.** After any requests to a session that loaded a program,
whatever its policy and its limit: all answers are those of the timeline, the store is the copy at
the cursor, and there are as many entries as copies after the first one. From there every position
is reached and its copy shown, and no move is refused by the store. -/
theorem time_travel_refines_copies {fresh : Session} {program : Program}
    (loaded : fresh.load program = (s, .ok ())) (requests : List Request) :
    let after := s.serveAll requests
    let copies := (Timeline.start s.settings s.graph s.store).serveAll requests
    after.2 = copies.2 ∧
      after.1.store = copies.1.shown ∧
      after.1.history.cursor = copies.1.cursor ∧
      after.1.history.size + 1 = copies.1.states.length ∧
      (∀ position ≤ after.1.history.size, ∃ q, after.1.seek position = (q, .ok ()) ∧
        copies.1.states[position]? = some q.store) ∧
      ∀ request reason, request.moves → (after.1.serve request).2 ≠ .error (.store reason) := by
  intro after copies
  obtain ⟨follows, answers⟩ := serveAll_inStep (follows_of_load loaded) requests
  refine ⟨answers, follows.shown, follows.cursor, follows.view.linked.length.symm, ?_, ?_⟩
  · intro position inside
    obtain ⟨q, reached⟩ := follows.view.exists_state inside
    exact ⟨_, seek_eq_of_shows follows.view inside reached, reached⟩
  · intro request reason moves
    rw [(serve_inStep follows request).2]
    exact copies.1.serve_ne_store moves reason

/-- A program whose block adds a row to a log after every write. -/
def logging : Program where
  tables := [⟨⟨1⟩, "t", [⟨"a", ⟨2⟩, .number⟩], [[.number .zero]]⟩]
  blocks := [⟨"log", .onWatch, [.any ⟨1⟩], [.any ⟨3⟩], fun _ => .ok
    [.define ⟨3⟩ "log" [⟨"m", ⟨4⟩, .text⟩], .append ⟨3⟩ [[.text "x"]]]⟩]

/-- A session that remembers two transactions. -/
def forgetful : Session := .new { Settings.default with maxEntries := some 2 }

/-- While the state before them is shown, three transactions are committed behind it, of which the
oldest is dropped: the state that is shown then is the one that it led to. -/
def behind : List Request :=
  [.pause, .queue (.set ⟨1⟩ 0 (.position 1) (.number .one)), .commit,
    .queue (.set ⟨1⟩ 0 (.position 1) (.number .zero)), .commit,
    .queue (.append ⟨1⟩ [[.number .one]]), .commit, .stepForward, .stepBack]

theorem time_travel_refines_copies_behind :
    (forgetful.load logging).2 = .ok () ∧
      ((forgetful.load logging).1.serveAll behind).1.store =
        ((Timeline.start (forgetful.load logging).1.settings (forgetful.load logging).1.graph
          (forgetful.load logging).1.store).serveAll behind).1.shown ∧
      ((forgetful.load logging).1.serveAll behind).2 = List.replicate 9 (.ok ()) := by
  have loaded : (forgetful.load logging).2 = .ok () := by cbv
  exact ⟨loaded, (time_travel_refines_copies (Prod.ext rfl loaded) behind).2.1, by cbv⟩

end Ripple
