import Ripple.Proofs.CheckedCounts
import Ripple.Proofs.HeldView

/-!
What a listener is told about the cursor while a session is paused. Steps and commits on the state that
is shown tell where the cursor was and where it is. Commits behind that state tell nothing about it
(`Session.Hushed`), although they move it where they drop the oldest entry. So a listener can follow the
cursor unless commits go in behind a full history (`cursor_told_unless_behind`).
-/

namespace Ripple

/-- That the cursor moved from where it was in one session to where it is in another. -/
def Session.cursorNotice (s after : Session) : Event :=
  .cursorMoved after.history.cursor s.history.cursor after.history.size

/-- An event was told on the way from one session to another. -/
def Session.Tells (s after : Session) (event : Event) : Prop :=
  ∃ new, after.told = s.told ++ new ∧ event ∈ new

/-- Another position or another state is shown. -/
def Session.Moved (s after : Session) : Prop :=
  after.history.cursor ≠ s.history.cursor ∨ after.store ≠ s.store

/-- Nothing was told about the cursor on the way from one session to another. -/
structure Session.Hushed (s after : Session) : Prop where
  listening : after.listening = s.listening
  told : ∃ new, after.told = s.told ++ new ∧ ∀ event ∈ new, ¬ event.isCursorMoved

variable {s after last : Session} {t : Timeline} {event : Event} {changes : List Change}

theorem Session.tell_of_listening (listens : s.listening = true) (event : Event) :
    s.tell event = { s with told := s.told ++ [event] } :=
  if_pos listens

/-! ## Telling nothing about the cursor -/

namespace Session.Hushed

/-- Whatever else is different, nothing was told. -/
theorem of_told_eq (listening : after.listening = s.listening) (told : after.told = s.told) :
    s.Hushed after :=
  ⟨listening, [], by rw [told, List.append_nil], by simp⟩

theorem trans (first : s.Hushed after) (second : after.Hushed last) : s.Hushed last := by
  obtain ⟨listening, new, told, quiet⟩ := first
  obtain ⟨listening', new', told', quiet'⟩ := second
  refine ⟨listening'.trans listening, new ++ new', ?_, ?_⟩
  · rw [told', told, List.append_assoc]
  · intro event member
    exact (List.mem_append.mp member).elim (quiet event) (quiet' event)

theorem tell (event : Event) (other : event.isCursorMoved = false) : s.Hushed (s.tell event) := by
  unfold Session.tell
  split
  · exact ⟨rfl, [event], rfl, by simpa using other⟩
  · exact .of_told_eq rfl rfl

theorem not_tells (hushed : s.Hushed after) (moved : event.isCursorMoved) : ¬ s.Tells after event := by
  rintro ⟨new, told, member⟩
  obtain ⟨-, new', told', quiet⟩ := hushed
  obtain rfl : new = new' := List.append_cancel_left (told.symm.trans told')
  exact quiet event member moved

/-- An event that is told after others is told. -/
theorem tells (hushed : s.Hushed after) (listens : s.listening = true) (event : Event) :
    s.Tells (after.tell event) event := by
  obtain ⟨listening, new, told, -⟩ := hushed
  rw [Session.tell_of_listening (listening.trans listens)]
  exact ⟨new ++ [event], by simp [told], by simp⟩

end Session.Hushed

/-- What was told stays told. -/
theorem Session.Tells.tell (tells : s.Tells after event) (other : Event) :
    s.Tells (after.tell other) event := by
  obtain ⟨new, told, member⟩ := tells
  unfold Session.tell
  split
  · exact ⟨new ++ [other], by simp [told], List.mem_append_left _ member⟩
  · exact ⟨new, told, member⟩

theorem commitChanges_hushed (s : Session) (changes : List Change) (visible : Bool) :
    s.Hushed (s.commitChanges changes visible).1 := by
  unfold Session.commitChanges
  split
  · exact .of_told_eq rfl rfl
  · dsimp only
    split
    · exact .of_told_eq rfl rfl
    · next r entry _ _ =>
      have recorded : s.Hushed { s with store := r, history := (s.history.record entry).1 } :=
        .of_told_eq rfl rfl
      have told := recorded.trans (.tell (.ofCommit (s.history.record entry).2) rfl)
      cases visible with
      | false => exact told
      | true => exact told.trans (.tell _ rfl)

theorem seek_hushed (s : Session) (position : Nat) : s.Hushed (s.seek position).1 :=
  .of_told_eq rfl rfl

/-- Going to the newest state and back is not told, and neither is what becomes of the cursor when the
oldest entry is dropped. -/
theorem commitBehind_hushed (s : Session) (changes : List Change) :
    s.Hushed (s.commitBehind changes).1 := by
  have sought {s after : Session} {position : Nat} {answer : Except Fault Unit}
      (reached : s.seek position = (after, answer)) : s.Hushed after := by
    have hushed := seek_hushed s position
    rwa [reached] at hushed
  unfold Session.commitBehind
  dsimp only
  split
  · next gone => exact sought gone
  · next newest gone =>
    have committed := (sought gone).trans (commitChanges_hushed newest changes false)
    split
    · next back => exact committed.trans (sought back)
    · next back => exact committed.trans (sought back)

/-! ## Telling where the cursor is -/

/-- Where the cursor has come to is told. -/
theorem Session.Hushed.tells_cursor (hushed : s.Hushed after) (listens : s.listening = true) :
    s.Tells (after.tellCursor s.history.cursor)
      (s.cursorNotice (after.tellCursor s.history.cursor)) := by
  rw [Session.cursorNotice, Session.tellCursor, Session.history_tell]
  exact hushed.tells listens _

theorem Session.Tells.tell_cells (tells : s.Tells after (s.cursorNotice after)) (entry : Entry) :
    s.Tells (after.tell (.ofCells entry)) (s.cursorNotice (after.tell (.ofCells entry))) := by
  rw [Session.cursorNotice, Session.history_tell]
  exact tells.tell _

/-- A step back undoes the entry before the cursor. It tells where the cursor has come to, and then the
cells of that entry. -/
theorem Session.stepBack_of_done (done : s.stepBack.2 = .ok ()) :
    ∃ entry history store, s.history.current? = some entry ∧
      s.stepBack.1 = (tellCursor { s with history, store } s.history.cursor).tell (.ofCells entry) := by
  unfold Session.stepBack at done ⊢
  dsimp only at done ⊢
  split at done
  · cases done
  · next ready =>
    rw [if_neg ready]
    split at done
    · cases done
    · next history store stepped =>
      have undone : ∃ entry, s.history.current? = some entry := by
        unfold History.stepBack History.back at stepped
        split at stepped
        · split at stepped
          · cases stepped
          · next entry found => exact ⟨entry, found⟩
        · cases stepped
      obtain ⟨entry, found⟩ := undone
      refine ⟨entry, history, store, found, ?_⟩
      rw [found]

/-- A step forward does the entry after the cursor again, and tells the same of it. -/
theorem Session.stepForward_of_done (done : s.stepForward.2 = .ok ()) :
    ∃ entry history store, s.history.entries[s.history.cursor]? = some entry ∧
      s.stepForward.1 =
        (tellCursor { s with history, store } s.history.cursor).tell (.ofCells entry) := by
  unfold Session.stepForward at done ⊢
  dsimp only at done ⊢
  split at done
  · cases done
  · next ready =>
    rw [if_neg ready]
    split at done
    · cases done
    · next history store stepped =>
      have again : ∃ entry, s.history.entries[s.history.cursor]? = some entry ∧
          history.current? = some entry := by
        unfold History.stepForward at stepped
        split at stepped
        · have moved := History.eq_of_forward stepped
          unfold History.forward at stepped
          split at stepped
          · simp at stepped
          · next entry found =>
            refine ⟨entry, found, ?_⟩
            rw [moved]
            simpa [History.current?] using found
        · cases stepped
      obtain ⟨entry, found, current⟩ := again
      refine ⟨entry, history, store, found, ?_⟩
      rw [current]

theorem stepBack_tells (listens : s.listening = true) (done : s.stepBack.2 = .ok ()) :
    s.Tells s.stepBack.1 (s.cursorNotice s.stepBack.1) := by
  obtain ⟨entry, history, store, -, same⟩ := Session.stepBack_of_done done
  have hushed : s.Hushed { s with history, store } := .of_told_eq rfl rfl
  rw [same]
  exact (hushed.tells_cursor listens).tell_cells entry

theorem stepForward_tells (listens : s.listening = true) (done : s.stepForward.2 = .ok ()) :
    s.Tells s.stepForward.1 (s.cursorNotice s.stepForward.1) := by
  obtain ⟨entry, history, store, -, same⟩ := Session.stepForward_of_done done
  have hushed : s.Hushed { s with history, store } := .of_told_eq rfl rfl
  rw [same]
  exact (hushed.tells_cursor listens).tell_cells entry

theorem commitBranch_tells (listens : s.listening = true) {entry : Entry}
    (done : (s.commitBranch changes).2 = .ok (some entry)) :
    s.Tells (s.commitBranch changes).1 (s.cursorNotice (s.commitBranch changes).1) := by
  have hushed := commitChanges_hushed s changes true
  unfold Session.commitBranch at done ⊢
  dsimp only at done ⊢
  generalize s.commitChanges changes true = answer at hushed done ⊢
  obtain ⟨after, _ | _ | entry⟩ := answer
  · cases done
  · cases done
  · exact hushed.tells_cursor listens

/-! ## What moves the cursor -/

theorem Session.not_moved (s : Session) : ¬ s.Moved s := by
  rintro (cursor | store)
  · exact cursor rfl
  · exact store rfl

/-- A step that moves the cursor succeeds. -/
theorem ok_of_moved (answer : Answer Unit) (moved : s.Moved answer.1)
    (refused : ∀ fault, answer.2 = .error fault → answer.1 = s) : answer.2 = .ok () := by
  cases result : answer.2 with
  | error fault => exact absurd (refused fault result ▸ moved) s.not_moved
  | ok => rfl

theorem commitBranch_recorded (sound : s.store.Sound) (moved : s.Moved (s.commitBranch changes).1) :
    ∃ entry, (s.commitBranch changes).2 = .ok (some entry) := by
  have commits := commitChanges_commits sound changes true
  unfold Session.commitBranch at moved ⊢
  generalize s.commitChanges changes true = answer at commits moved ⊢
  generalize s.propagator.outcome s.graph s.store changes = result at commits
  cases commits with
  | failed => exact absurd moved s.not_moved
  | same => exact absurd moved s.not_moved
  | recorded => exact ⟨_, rfl⟩

/-- A commit behind the state that is shown moves the cursor only if the history is full. -/
theorem full_of_moved (follows : Follows s t) (within : t.Within)
    (moved : s.Moved (s.commitBehind changes).1) : s.history.limit = some s.history.size := by
  have commits := commitBehind_commits follows changes
  generalize s.commitBehind changes = answer at commits moved
  generalize s.propagator.outcome s.graph t.newest changes = result at commits
  cases commits with
  | failed => exact absurd moved s.not_moved
  | same => exact absurd moved s.not_moved
  | @recorded r after entry shows =>
    rw [follows.limit, follows.size_eq]
    rcases within.excess_cases with ⟨none, -⟩ | ⟨-, full⟩
    · rcases moved with cursor | store
      · refine absurd ?_ cursor
        rw [shows.cursor, t.recordBehind_cursor, none, Nat.sub_zero, follows.cursor]
      · refine absurd ?_ store
        rw [shows.shown, Timeline.shown_recordBehind (none ▸ Nat.zero_le _), follows.shown]
    · exact full

theorem not_paused_of_start {settings : Settings} {graph : Graph} {r : Store}
    (follows : Follows s (.start settings graph r)) : s.mode ≠ .paused := by
  intro paused
  have held := (Session.history_of_paused paused).2
  rw [follows.paused] at held
  cases held

theorem not_moved_queue (s : Session) (change : Change) : ¬ s.Moved (s.queue change).1 := by
  unfold Session.queue
  split
  · exact s.not_moved
  · exact s.not_moved

/-- While a session stays paused, nothing but commits and moves of the cursor shows another state. -/
theorem cases_of_moved (follows : Follows s t) {operation : Operation}
    (held : (s.perform operation).1.mode = .paused) (moved : s.Moved (s.perform operation).1) :
    operation = .request .commit ∨ operation = .request .stepBack ∨
      operation = .request .stepForward ∨ ∃ position, operation = .request (.seek position) := by
  cases operation with
  | compile text =>
    rcases compile_cases s text with ⟨e, failed⟩ | ⟨program, after, -, loaded, compiled⟩
    · rw [Session.perform, failed] at moved
      exact absurd moved s.not_moved
    · rw [Session.perform, compiled] at held
      exact absurd held (not_paused_of_start (follows_of_load loaded))
  | load program =>
    rcases load_cases s program with ⟨fault, failed⟩ | ⟨after, loaded⟩
    · rw [Session.perform, failed] at moved
      exact absurd moved s.not_moved
    · rw [Session.perform, loaded] at held
      exact absurd held (not_paused_of_start (follows_of_load loaded))
  | clear => cases held
  | subscribe => exact absurd moved s.not_moved
  | unsubscribe => exact absurd moved s.not_moved
  | request request =>
    cases request with
    | commit => exact .inl rfl
    | stepBack => exact .inr (.inl rfl)
    | stepForward => exact .inr (.inr (.inl rfl))
    | seek position => exact .inr (.inr (.inr ⟨position, rfl⟩))
    | resume =>
      have live := (resume_inStep follows).1.paused
      have still : s.resume.1.history.paused = true := (Session.history_of_paused held).2
      rw [live] at still
      cases still
    | queue change => exact absurd moved (not_moved_queue s change)
    | queueRows table rows => exact absurd moved (not_moved_queue s _)
    | queueWrite table row column value =>
      simp only [Session.perform, Session.serve, Session.queueWrite] at moved
      split at moved
      · exact absurd moved s.not_moved
      · split at moved
        · exact absurd moved s.not_moved
        · exact absurd moved (not_moved_queue s _)
    | discard => exact absurd moved s.not_moved
    | pause =>
      simp only [Session.perform, Session.serve, Session.pause, if_pos follows.ready] at moved
      exact absurd moved s.not_moved

theorem commit_of_paused (paused : s.mode = .paused) (moved : s.Moved s.commit.1) :
    s.settings.pausedCommits = .branch ∧ s.commit = s.discard.commitBranch s.pending ∨
      s.settings.pausedCommits = .append ∧ s.commit = s.discard.commitBehind s.pending := by
  rcases s.commit_cases with ⟨fault, same⟩ | ⟨live, -⟩ | ⟨-, branch⟩ | ⟨-, behind⟩
  · rw [same] at moved
    exact absurd moved s.not_moved
  · rw [paused] at live
    cases live
  · exact .inl branch
  · exact .inr behind

/-! ## Following the cursor -/

/-- **Moves of the cursor are told, unless a commit goes in behind a full history.** Wherever a session
can be, while someone listens: an operation other than the silent `seek` that leaves it paused and shows
another position or another state tells from where to where the cursor moved, and how many entries there
are. Only a commit whose policy is to append tells nothing about the cursor; it shows another position or
state only where the history is full, so that the oldest entry is dropped. -/
theorem cursor_told_unless_behind {settings : Settings} {compiler : Compiler}
    (reached : s.Reachable settings compiler) (listens : s.listening = true)
    (paused : s.mode = .paused) (operation : Operation)
    (other : ∀ position, operation ≠ .request (.seek position))
    (held : (s.perform operation).1.mode = .paused) (moved : s.Moved (s.perform operation).1) :
    (s.Tells (s.perform operation).1 (s.cursorNotice (s.perform operation).1) ↔
        ¬ (operation = .request .commit ∧ s.settings.pausedCommits = .append)) ∧
      (operation = .request .commit → s.settings.pausedCommits = .append →
        s.history.limit = some s.history.size) := by
  obtain ⟨ready, -⟩ := Session.history_of_paused paused
  cases reached.grounded_of Timeline.within_start fun t request (within : t.Within) =>
      within.serve request with
  | idle unready => exact absurd (ready.symm.trans unready) (by decide)
  | loaded t follows within =>
    rcases cases_of_moved follows held moved with rfl | rfl | rfl | ⟨position, rfl⟩
    · have moved : s.Moved s.commit.1 := moved
      have after : Follows s.discard t.discard := follows.discard
      show (s.Tells s.commit.1 (s.cursorNotice s.commit.1) ↔ _) ∧ _
      rcases commit_of_paused paused moved with ⟨policy, same⟩ | ⟨policy, same⟩
      · rw [same] at moved ⊢
        obtain ⟨entry, recorded⟩ := commitBranch_recorded after.view.sound moved
        have tells := commitBranch_tells (s := s.discard) listens recorded
        exact ⟨iff_of_true tells (by simp [policy]), by simp [policy]⟩
      · rw [same] at moved ⊢
        have full := full_of_moved after within moved
        have hushed := commitBehind_hushed s.discard s.pending
        exact ⟨iff_of_false (hushed.not_tells rfl) (by simp [policy]), fun _ _ => full⟩
    · have done := ok_of_moved s.stepBack moved fun _ => stepBack_of_refused follows
      exact ⟨iff_of_true (stepBack_tells listens done) (by simp), by simp⟩
    · have done := ok_of_moved s.stepForward moved fun _ => stepForward_of_refused follows
      exact ⟨iff_of_true (stepForward_tells listens done) (by simp), by simp⟩
    · exact absurd rfl (other position)

/-- Two numbers are committed while someone listens, and the second one is taken back. -/
def halfway : List Operation :=
  [.load counter, .subscribe, .request (.queue (.set ⟨1⟩ 0 (.position 1) (.number .one))),
    .request .commit, .request (.queue (.set ⟨1⟩ 0 (.position 1) (.number .zero))),
    .request .commit, .request .pause, .request .stepBack]

/-- Taking back the first number as well is told. -/
theorem cursor_told_unless_behind_step :
    (forgetful.performAll halfway).Reachable forgetful.settings Program.compile ∧
      (forgetful.performAll halfway).listening = true ∧
      (forgetful.performAll halfway).mode = .paused ∧
      ((forgetful.performAll halfway).perform (.request .stepBack)).1.mode = .paused ∧
      (forgetful.performAll halfway).Moved
        ((forgetful.performAll halfway).perform (.request .stepBack)).1 ∧
      (forgetful.performAll halfway).Tells
        ((forgetful.performAll halfway).perform (.request .stepBack)).1 (.cursorMoved 0 1 2) := by
  have reached : (forgetful.performAll halfway).Reachable forgetful.settings Program.compile :=
    Session.Reachable.fresh.performAll halfway
  have listens : (forgetful.performAll halfway).listening = true := by cbv
  have paused : (forgetful.performAll halfway).mode = .paused := by cbv
  have held : ((forgetful.performAll halfway).perform (.request .stepBack)).1.mode = .paused := by cbv
  have before : (forgetful.performAll halfway).history.cursor = 1 := by cbv
  have after : ((forgetful.performAll halfway).perform (.request .stepBack)).1.history.cursor = 0 := by
    cbv
  have size : ((forgetful.performAll halfway).perform (.request .stepBack)).1.history.size = 2 := by cbv
  have moved : (forgetful.performAll halfway).Moved
      ((forgetful.performAll halfway).perform (.request .stepBack)).1 :=
    .inl (by rw [before, after]; decide)
  have told := (cursor_told_unless_behind reached listens paused (.request .stepBack) (by simp) held
    moved).1.mpr (by simp)
  rw [Session.cursorNotice, before, after, size] at told
  exact ⟨reached, listens, paused, held, moved, told⟩

/-- A third number, committed behind the first one, drops the first entry. The cursor moves with its
entry, and nothing tells so. -/
theorem cursor_moves_untold :
    ¬ ∀ (settings : Settings) (compiler : Compiler) (s : Session), s.Reachable settings compiler →
      s.listening = true → s.mode = .paused → s.commit.1.mode = .paused → s.Moved s.commit.1 →
      s.Tells s.commit.1 (s.cursorNotice s.commit.1) := by
  intro tells
  let waiting := halfway ++ [.request (.queue (.set ⟨1⟩ 0 (.position 1) (.number ⟨0x4000000000000000⟩)))]
  have reached : (forgetful.performAll waiting).Reachable forgetful.settings Program.compile :=
    Session.Reachable.fresh.performAll waiting
  have before : (forgetful.performAll waiting).history.cursor = 1 := by cbv
  have after : (forgetful.performAll waiting).commit.1.history.cursor = 0 := by cbv
  obtain ⟨new, told, notice⟩ := tells _ _ _ reached (by cbv) (by cbv) (by cbv)
    (.inl (by rw [before, after]; decide))
  have events : (forgetful.performAll waiting).commit.1.told =
      (forgetful.performAll waiting).told ++ [.committed 3 1 0 1] := by cbv
  obtain rfl := List.append_cancel_left (told.symm.trans events)
  rw [Session.cursorNotice, before, after] at notice
  simp at notice

end Ripple
