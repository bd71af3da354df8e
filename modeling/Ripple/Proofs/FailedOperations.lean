import Ripple.Proofs.TimeTravel

/-!
A request that fails leaves no trace. The sessions that can be reached (`Session.Reachable`) are those
without a program, whose history is empty, and those that follow a timeline (`Grounded`). On both, every
operation that answers with a fault gives back the very session that it was asked of, queue, history and
what was told included; only a commit empties the queue in any case (`refused_operation_leaves`).
-/

namespace Ripple

/-- What can be asked of a session. -/
inductive Operation where
  | compile (text : String)
  | load (program : Program)
  | clear
  | subscribe
  | unsubscribe
  | request (request : Request)

namespace Session

/-- The session after an operation, and the answer to it. -/
def perform (s : Session) : Operation → Answer Unit
  | .compile text => s.compile text
  | .load program => s.load program
  | .clear => (s.clear, .ok ())
  | .subscribe => (s.subscribe, .ok ())
  | .unsubscribe => (s.unsubscribe, .ok ())
  | .request request => s.serve request

/-- The sessions that operations lead to from a fresh one. -/
inductive Reachable (settings : Settings) (compiler : Compiler) : Session → Prop
  | fresh : Reachable settings compiler (.withCompiler settings compiler)
  | after {s : Session} (reached : Reachable settings compiler s) (operation : Operation) :
      Reachable settings compiler (s.perform operation).1

/-- Operations one after the other, whatever the answers. -/
def performAll (s : Session) (operations : List Operation) : Session :=
  operations.foldl (fun s operation => (s.perform operation).1) s

theorem Reachable.performAll {settings : Settings} {compiler : Compiler} {s : Session}
    (reached : Reachable settings compiler s) (operations : List Operation) :
    Reachable settings compiler (s.performAll operations) := by
  induction operations generalizing s with
  | nil => exact reached
  | cons operation rest ih => exact ih (reached.after operation)

/-- What an operation that fails leaves: the session as it was, but without a queue after a commit. -/
def afterRefusal (s : Session) : Operation → Session
  | .request .commit => s.discard
  | _ => s

theorem afterRefusal_cases (s : Session) (operation : Operation) :
    s.afterRefusal operation = s ∨ s.afterRefusal operation = s.discard := by
  unfold afterRefusal
  split
  · exact .inr rfl
  · exact .inl rfl

end Session

variable {s : Session} {t : Timeline} {fault : Fault}

/-! ## Settings and compiler -/

/-- What a session was made with. -/
def Session.setup (s : Session) : Settings × Compiler := (s.settings, s.compiler)

@[grind =] theorem setup_tell (s : Session) (event : Event) :
    (s.tell event).setup = s.setup := by
  unfold Session.tell
  split <;> rfl

@[grind =] theorem setup_seek (s : Session) (position : Nat) :
    (s.seek position).1.setup = s.setup := by
  unfold Session.seek
  rfl

@[grind =] theorem setup_load (s : Session) (program : Program) :
    (s.load program).1.setup = s.setup := by
  grind [Session.setup, Session.load]

@[grind =] theorem setup_compile (s : Session) (text : String) :
    (s.compile text).1.setup = s.setup := by
  grind [Session.setup, Session.compile]

@[grind =] theorem setup_commitChanges (s : Session) (changes : List Change) (visible : Bool) :
    (s.commitChanges changes visible).1.setup = s.setup := by
  grind [Session.setup, Session.commitChanges]

@[grind =] theorem setup_commitBranch (s : Session) (changes : List Change) :
    (s.commitBranch changes).1.setup = s.setup := by
  grind [Session.setup, Session.commitBranch, Session.tellCursor]

@[grind =] theorem setup_commitBehind (s : Session) (changes : List Change) :
    (s.commitBehind changes).1.setup = s.setup := by
  grind [Session.setup, Session.commitBehind]

@[grind =] theorem setup_commit (s : Session) : s.commit.1.setup = s.setup := by
  grind [Session.setup, Session.commit, Session.discard]

@[grind =] theorem setup_serve (s : Session) (request : Request) :
    (s.serve request).1.setup = s.setup := by
  cases request <;> grind [Session.setup, Session.serve, Session.queue, Session.queueWrite,
    Session.queueRows, Session.discard, Session.pause, Session.resume, Session.stepBack,
    Session.stepForward, Session.tellCursor]

@[grind =] theorem setup_perform (s : Session) (operation : Operation) :
    (s.perform operation).1.setup = s.setup := by
  cases operation <;> grind [Session.setup, Session.perform, Session.clear, Session.subscribe,
    Session.unsubscribe]

/-! ## Sessions that can be reached -/

/-- No program is loaded and nothing was committed, or the session shows what a timeline shows of
which something holds. -/
inductive Grounded (holds : Timeline → Prop) (s : Session) : Prop
  | idle (unready : s.ready = false) (none : s.history.entries = []) (start : s.history.cursor = 0)
  | loaded (t : Timeline) (follows : Follows s t) (held : holds t)

/-- Without entries there is nowhere to go but to where one is. -/
theorem seek_of_idle (none : s.history.entries = []) (start : s.history.cursor = 0) (position : Nat) :
    s.seek position = (s, if position = 0 then .ok () else .error .atNewest) := by
  have size : s.history.size = 0 := by rw [History.size, none, List.length_nil]
  unfold Session.seek History.seek
  rw [start, size]
  cases position <;> rfl

/-- As long as no program is loaded, every request but the one to drop the queue is refused or has
nothing to do. -/
theorem serve_of_idle (unready : s.ready = false) (none : s.history.entries = [])
    (start : s.history.cursor = 0) {request : Request} (other : request ≠ .discard) :
    (s.serve request).1 = s.afterRefusal (.request request) := by
  have discarded : s.discard.ready = false := unready
  cases request with
  | queue change => simp [Session.serve, Session.queue, unready, Session.afterRefusal]
  | queueWrite table row column value =>
    simp [Session.serve, Session.queueWrite, unready, Session.afterRefusal]
  | queueRows table rows =>
    simp [Session.serve, Session.queueRows, Session.queue, unready, Session.afterRefusal]
  | discard => exact absurd rfl other
  | commit => simp [Session.serve, Session.commit, discarded, Session.afterRefusal]
  | pause => simp [Session.serve, Session.pause, unready, Session.afterRefusal]
  | resume => simp [Session.serve, Session.resume, unready, Session.afterRefusal]
  | stepBack => simp [Session.serve, Session.stepBack, unready, Session.afterRefusal]
  | stepForward => simp [Session.serve, Session.stepForward, unready, Session.afterRefusal]
  | seek position => exact congrArg Prod.fst (seek_of_idle none start position)

/-- So it stays as it is, or only loses its queue. -/
theorem serve_of_idle_cases (unready : s.ready = false) (none : s.history.entries = [])
    (start : s.history.cursor = 0) (request : Request) :
    (s.serve request).1 = s ∨ (s.serve request).1 = s.discard := by
  by_cases dropped : request = .discard
  · subst dropped
    exact .inr rfl
  · rw [serve_of_idle unready none start dropped]
    exact s.afterRefusal_cases _

theorem load_cases (s : Session) (program : Program) :
    (∃ fault, s.load program = (s, .error fault)) ∨ ∃ after, s.load program = (after, .ok ()) := by
  unfold Session.load
  split
  · exact .inl ⟨_, rfl⟩
  · dsimp only
    split
    · exact .inl ⟨_, rfl⟩
    · exact .inr ⟨_, rfl⟩

theorem compile_cases (s : Session) (text : String) :
    (∃ e, s.compile text = (s, .error (.compile e))) ∨
      ∃ program after, s.compiler text = .ok program ∧ s.load program = (after, .ok ()) ∧
        s.compile text = (after, .ok ()) := by
  unfold Session.compile
  cases s.compiler text with
  | error e => exact .inl ⟨e, rfl⟩
  | ok program =>
    rcases load_cases s program with ⟨fault, failed⟩ | ⟨after, loaded⟩
    · refine .inl ?_
      simp only [failed]
      cases fault <;> exact ⟨_, rfl⟩
    · exact .inr ⟨program, after, rfl, loaded, by simp only [loaded]⟩

/-- The operation is to load the program, as it is or compiled from a text. -/
def Operation.Loads (s : Session) (program : Program) : Operation → Prop
  | .compile text => s.compiler text = .ok program
  | .load other => other = program
  | _ => False

/-- Every operation leads from one grounded session to another, if what holds of a session and its
timeline does so when a program is loaded, is kept by requests, and has nothing to do with listeners. -/
theorem Grounded.perform_of (holds : Session → Timeline → Prop) (grounded : Grounded (holds s) s)
    (operation : Operation)
    (begins : ∀ program after, operation.Loads s program → s.load program = (after, .ok ()) →
      holds after (.start after.settings after.graph after.store))
    (goes : ∀ t request, operation = .request request → Follows s t → holds s t →
      holds (s.serve request).1 (t.serve request).1)
    (listens : ∀ t listening, holds s t → holds { s with listening } t) :
    Grounded (holds (s.perform operation).1) (s.perform operation).1 := by
  cases operation with
  | compile text =>
    rcases compile_cases s text with ⟨e, failed⟩ | ⟨program, after, own, loaded, compiled⟩
    · simpa only [Session.perform, failed] using grounded
    · simpa only [Session.perform, compiled] using
        .loaded _ (follows_of_load loaded) (begins program after own loaded)
  | load program =>
    rcases load_cases s program with ⟨fault, failed⟩ | ⟨after, loaded⟩
    · simpa only [Session.perform, failed] using grounded
    · simpa only [Session.perform, loaded] using
        .loaded _ (follows_of_load loaded) (begins program after rfl loaded)
  | clear => exact .idle rfl rfl rfl
  | subscribe =>
    cases grounded with
    | idle unready none start => exact .idle unready none start
    | loaded t follows held => exact .loaded t { follows with } (listens t true held)
  | unsubscribe =>
    cases grounded with
    | idle unready none start => exact .idle unready none start
    | loaded t follows held => exact .loaded t { follows with } (listens t false held)
  | request request =>
    cases grounded with
    | idle unready none start =>
      rcases serve_of_idle_cases unready none start request with same | emptied
      · simpa only [Session.perform, same] using .idle unready none start
      · simpa only [Session.perform, emptied] using .idle unready none start
    | loaded t follows held =>
      exact .loaded _ (serve_inStep follows request).1 (goes t request rfl follows held)

/-- So it is with what holds of timelines. -/
theorem Grounded.perform {holds : Timeline → Prop} (grounded : Grounded holds s) (operation : Operation)
    (begins : ∀ program after, operation.Loads s program → s.load program = (after, .ok ()) →
      holds (.start after.settings after.graph after.store))
    (goes : ∀ t request, operation = .request request → holds t → holds (t.serve request).1) :
    Grounded holds (s.perform operation).1 :=
  grounded.perform_of (fun _ => holds) operation begins
    (fun t request own _ => goes t request own) fun _ _ held => held

/-- What holds of every timeline at its start and is kept by requests holds wherever a session can be. -/
theorem Session.Reachable.grounded_of {settings : Settings} {compiler : Compiler}
    {holds : Timeline → Prop} (begins : ∀ settings graph s, holds (.start settings graph s))
    (goes : ∀ t request, holds t → holds (t.serve request).1)
    (reached : Reachable settings compiler s) : Grounded holds s := by
  induction reached with
  | fresh => exact .idle rfl rfl rfl
  | after _ operation ih =>
    exact ih.perform operation (fun _ after _ _ => begins _ _ after.store) fun t request _ =>
      goes t request

theorem Session.Reachable.grounded {settings : Settings} {compiler : Compiler}
    (reached : Reachable settings compiler s) : Grounded (fun _ => True) s :=
  reached.grounded_of (fun _ _ _ => trivial) fun _ _ _ => trivial

/-! ## Refused commits -/

/-- A transaction that fails on the present state gives the session back. -/
theorem commitChanges_of_refused (sound : s.store.Sound) {changes : List Change} {visible : Bool}
    (refused : (s.commitChanges changes visible).2 = .error fault) :
    (s.commitChanges changes visible).1 = s := by
  have commits := commitChanges_commits sound changes visible
  generalize s.commitChanges changes visible = answer at commits refused ⊢
  generalize s.propagator.outcome s.graph s.store changes = result at commits
  cases commits with
  | failed => rfl
  | same => cases refused
  | recorded => cases refused

theorem commitBranch_of_refused (sound : s.store.Sound) {changes : List Change}
    (refused : (s.commitBranch changes).2 = .error fault) : (s.commitBranch changes).1 = s := by
  have kept : (s.commitChanges changes true).2 = .error fault →
      (s.commitChanges changes true).1 = s := commitChanges_of_refused sound
  unfold Session.commitBranch at refused ⊢
  generalize s.commitChanges changes true = answer at kept refused ⊢
  obtain ⟨after, _ | _ | entry⟩ := answer
  · exact kept refused
  · cases refused
  · cases refused

/-- A transaction that fails at the newest state while an older one is shown leaves the older one
shown: going to the newest state and back again undoes itself. -/
theorem commitBehind_of_refused (follows : Follows s t) {changes : List Change}
    (refused : (s.commitBehind changes).2 = .error fault) : (s.commitBehind changes).1 = s := by
  have commits := commitBehind_commits follows changes
  generalize s.commitBehind changes = answer at commits refused ⊢
  generalize s.propagator.outcome s.graph t.newest changes = result at commits
  cases commits with
  | failed => rfl
  | same => cases refused
  | recorded => cases refused

/-- A commit empties the queue in any case. Its changes are committed on the state that is shown or
behind it, or not at all. -/
theorem Session.commit_cases (s : Session) :
    (∃ fault, s.commit = (s.discard, .error fault)) ∨
      s.mode = .live ∧ s.commit = s.discard.commitChanges s.pending true ∨
      s.mode = .paused ∧ s.settings.pausedCommits = .branch ∧
        s.commit = s.discard.commitBranch s.pending ∨
      s.mode = .paused ∧ s.settings.pausedCommits = .append ∧
        s.commit = s.discard.commitBehind s.pending := by
  unfold commit
  dsimp only
  split
  · exact .inl ⟨_, rfl⟩
  · next ready =>
    have ready : ¬ ¬ s.ready = true := ready
    split
    · exact .inl ⟨_, rfl⟩
    · split
      · next live =>
        have live : s.mode = .live := (if_neg ready).trans (if_neg live)
        exact .inr (.inl ⟨live, rfl⟩)
      · next held =>
        have paused : s.mode = .paused := (if_neg ready).trans (if_pos (Decidable.not_not.mp held))
        split
        · exact .inl ⟨_, rfl⟩
        · next policy => exact .inr (.inr (.inl ⟨paused, policy, rfl⟩))
        · next policy => exact .inr (.inr (.inr ⟨paused, policy, rfl⟩))

theorem commit_of_refused (follows : Follows s t) (refused : s.commit.2 = .error fault) :
    s.commit.1 = s.discard := by
  have after : Follows s.discard t.discard := follows.discard
  rcases s.commit_cases with ⟨_, same⟩ | ⟨-, same⟩ | ⟨-, -, same⟩ | ⟨-, -, same⟩
  · rw [same]
  · rw [same] at refused ⊢
    exact commitChanges_of_refused after.view.sound refused
  · rw [same] at refused ⊢
    exact commitBranch_of_refused after.view.sound refused
  · rw [same] at refused ⊢
    exact commitBehind_of_refused after refused

/-! ## Refused operations -/

/-- Moving the cursor either reaches a state or gives the session back. -/
theorem seek_of_refused (follows : Follows s t) {position : Nat}
    (refused : (s.seek position).2 = .error fault) : (s.seek position).1 = s := by
  by_cases inside : position ≤ s.history.size
  · obtain ⟨r, reached⟩ := follows.view.exists_state inside
    rw [seek_eq_of_shows follows.view inside reached] at refused
    cases refused
  · simp only [Session.seek, History.seek, if_pos (Nat.lt_of_not_le inside)]

theorem resume_of_refused (follows : Follows s t) (refused : s.resume.2 = .error fault) :
    s.resume.1 = s := by
  obtain ⟨-, alike⟩ := resume_inStep follows
  rw [alike] at refused
  cases refused

theorem stepBack_of_refused (follows : Follows s t) (refused : s.stepBack.2 = .error fault) :
    s.stepBack.1 = s := by
  have ready : ¬ ¬ s.ready = true := not_not_intro follows.ready
  simp only [Session.stepBack, if_neg ready, History.stepBack] at refused ⊢
  by_cases paused : s.history.paused = true
  · rw [if_pos paused] at refused ⊢
    by_cases oldest : s.history.cursor = 0
    · simp only [Shows.back_of_cursor_eq_zero oldest]
    · have inside : s.history.cursor - 1 ≤ s.history.size :=
        Nat.le_trans (Nat.sub_le ..) follows.view.cursor_le
      obtain ⟨r, reached⟩ := follows.view.exists_state inside
      simp only [follows.view.back (by omega) reached] at refused
      cases refused
  · simp only [if_neg paused]

theorem stepForward_of_refused (follows : Follows s t)
    (refused : s.stepForward.2 = .error fault) : s.stepForward.1 = s := by
  have ready : ¬ ¬ s.ready = true := not_not_intro follows.ready
  simp only [Session.stepForward, if_neg ready, History.stepForward] at refused ⊢
  by_cases paused : s.history.paused = true
  · rw [if_pos paused] at refused ⊢
    by_cases inside : s.history.cursor < s.history.size
    · obtain ⟨r, reached⟩ := follows.view.exists_state inside
      simp only [follows.view.forward inside reached] at refused
      cases refused
    · simp only [Shows.forward_of_size_le (Nat.le_of_not_lt inside)]
  · simp only [if_neg paused]

/-- A request that is refused gives the session back, without the queue if it was a commit. -/
theorem serve_of_refused (follows : Follows s t) (request : Request)
    (refused : (s.serve request).2 = .error fault) :
    (s.serve request).1 = s.afterRefusal (.request request) := by
  have ready := follows.ready
  cases request with
  | queue change => simp [Session.serve, Session.queue, ready] at refused
  | queueWrite table row column value =>
    simp only [Session.serve, Session.queueWrite, ready, not_true_eq_false, reduceIte] at refused ⊢
    by_cases zero : row = 0
    · rw [if_pos zero]
      rfl
    · simp [zero, Session.queue, ready] at refused
  | queueRows table rows => simp [Session.serve, Session.queueRows, Session.queue, ready] at refused
  | discard => cases refused
  | commit =>
    cases result : s.commit.2 with
    | error fault => exact commit_of_refused follows result
    | ok entry => simp [Session.serve, result, Except.map] at refused
  | pause => simp [Session.serve, Session.pause, ready] at refused
  | resume => exact resume_of_refused follows refused
  | stepBack => exact stepBack_of_refused follows refused
  | stepForward => exact stepForward_of_refused follows refused
  | seek position => exact seek_of_refused follows refused

/-- **Operations that fail change nothing.** Whatever was asked of a session before, with any settings,
programs and blocks: an operation that answers with a fault leaves the whole session as it was, tables,
graph, history, mode and queue included, and tells nothing. Only a commit leaves an empty queue. -/
theorem refused_operation_leaves {settings : Settings} {compiler : Compiler}
    (reached : s.Reachable settings compiler) (operation : Operation)
    (refused : (s.perform operation).2 = .error fault) :
    (s.perform operation).1 = s.afterRefusal operation := by
  cases operation with
  | compile text =>
    rcases compile_cases s text with ⟨e, failed⟩ | ⟨program, after, -, -, compiled⟩
    · simp only [Session.perform, failed, Session.afterRefusal]
    · simp [Session.perform, compiled] at refused
  | load program =>
    rcases load_cases s program with ⟨fault, failed⟩ | ⟨after, loaded⟩
    · simp only [Session.perform, failed, Session.afterRefusal]
    · simp [Session.perform, loaded] at refused
  | clear => cases refused
  | subscribe => cases refused
  | unsubscribe => cases refused
  | request request =>
    cases reached.grounded with
    | idle unready none start =>
      refine serve_of_idle unready none start ?_
      rintro rfl
      cases refused
    | loaded t follows _ => exact serve_of_refused follows request refused

/-- While the oldest state is shown, two changes wait to be committed behind it; the second one writes
to a row that is not there. -/
def heldBack : List Operation :=
  [.load logging, .subscribe, .request (.queue (.set ⟨1⟩ 0 (.position 1) (.number .one))),
    .request .commit, .request .pause, .request .stepBack,
    .request (.queue (.append ⟨1⟩ [[.number .one]])),
    .request (.queue (.set ⟨1⟩ 9 (.position 1) (.number .one)))]

/-- The first change was carried out at the newest state and is taken back there; then the oldest state
is shown again. -/
theorem refused_operation_leaves_held :
    (forgetful.performAll heldBack).Reachable forgetful.settings Program.compile ∧
      (forgetful.performAll heldBack).history.cursor = 0 ∧
      (forgetful.performAll heldBack).history.size = 1 ∧
      ((forgetful.performAll heldBack).perform (.request .commit)).2 =
        .error (.rejected 1 (.noSuchRow ⟨1⟩ 9 2)) ∧
      ((forgetful.performAll heldBack).perform (.request .commit)).1 =
        (forgetful.performAll heldBack).discard := by
  have reached : (forgetful.performAll heldBack).Reachable forgetful.settings Program.compile :=
    Session.Reachable.fresh.performAll heldBack
  have refused : ((forgetful.performAll heldBack).perform (.request .commit)).2 =
      .error (.rejected 1 (.noSuchRow ⟨1⟩ 9 2)) := by cbv
  exact ⟨reached, by cbv, by cbv, refused, refused_operation_leaves reached _ refused⟩

end Ripple
