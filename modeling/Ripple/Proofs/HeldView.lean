import Ripple.Proofs.FailedOperations
import Ripple.Proofs.Touches

/-!
What is shown while commits go in behind it. A history never has more entries than its limit
(`Timeline.Within`), so that a commit drops one entry at most, and the state that is shown is another
one afterwards only if it is the one before the entry that is dropped. This is so if the cursor is at the
oldest state of a full history, and then the state after that entry is shown (`view_held_unless_oldest`).
-/

namespace Ripple

open History (runSteps)

variable {s : Session} {t : Timeline} {r : Store}

namespace Timeline

/-! ## The limit -/

/-- There are no more states after the first one than entries are kept. -/
def Within (t : Timeline) : Prop := ∀ limit, t.settings.maxEntries = some limit → t.last ≤ limit

theorem within_start (settings : Settings) (graph : Graph) (s : Store) :
    (start settings graph s).Within := by
  intro limit _
  exact Nat.zero_le limit

theorem within_evict (t : Timeline) : t.evict.Within := by
  intro limit bounded
  have bounded : t.settings.maxEntries = some limit := bounded
  simp only [evict, last, bounded, excess, List.length_drop]
  omega

theorem Within.conclude (within : t.Within) {record : Timeline → Store → Timeline}
    (recorded : ∀ s, (record t s).Within) (result : Except Fault (Option Store)) :
    (t.conclude record result).1.Within := by
  cases result with
  | error fault => exact within
  | ok state =>
    cases state with
    | none => exact within
    | some s => exact recorded s

theorem Within.seek (within : t.Within) (position : Nat) : (t.seek position).1.Within := by
  unfold Timeline.seek
  split <;> exact within

/-- Requests keep to the limit: where states are added, the oldest ones are dropped. -/
theorem Within.serve (within : t.Within) (request : Request) : (t.serve request).1.Within := by
  have discarded : t.discard.Within := within
  cases request with
  | queueWrite =>
    simp only [Timeline.serve]
    split <;> exact within
  | commit =>
    simp only [Timeline.serve, Timeline.commit]
    split
    · exact within
    · split
      · exact within
      · split
        · exact discarded.conclude (fun _ => within_evict _) _
        · exact discarded.conclude (fun _ => within_evict _) _
  | stepBack =>
    simp only [Timeline.serve]
    split
    · exact within
    · split
      · exact within
      · exact within.seek _
  | stepForward =>
    simp only [Timeline.serve]
    split
    · exact within
    · exact within.seek _
  | seek position => exact within.seek position
  | _ => exact within

/-- One more state drops one entry at most, and none unless there are as many as are kept. -/
theorem Within.excess_cases (within : t.Within) :
    excess t.settings.maxEntries t.states.length = 0 ∧ t.settings.maxEntries ≠ some t.last ∨
      excess t.settings.maxEntries t.states.length = 1 ∧ t.settings.maxEntries = some t.last := by
  have here := t.inside
  cases limit : t.settings.maxEntries with
  | none => exact .inl ⟨rfl, by simp⟩
  | some limit' =>
    have bound := within limit' limit
    simp only [excess, last, ne_eq, Option.some.injEq] at bound ⊢
    omega

/-! ## The state that is shown -/

theorem shown_recordBehind_eq (t : Timeline) (r : Store) :
    ((t.states ++ [r]).drop (excess t.settings.maxEntries t.states.length))[
      t.cursor - excess t.settings.maxEntries t.states.length]? = some (t.recordBehind r).shown := by
  rw [← t.recordBehind_states r, ← t.recordBehind_cursor r]
  exact (t.recordBehind r).shown_eq

/-- The state at the cursor is shown on if it is not among the dropped ones. -/
theorem shown_recordBehind (kept : excess t.settings.maxEntries t.states.length ≤ t.cursor) :
    (t.recordBehind r).shown = t.shown := by
  have shown := t.shown_recordBehind_eq r
  rw [List.getElem?_drop, Nat.add_sub_cancel' kept, List.getElem?_append_left t.inside,
    t.shown_eq] at shown
  exact (Option.some.inj shown).symm

end Timeline

/-- If the oldest state is shown and dropped, the one after the oldest entry is shown instead. -/
theorem Follows.replay_recordBehind (follows : Follows s t) (oldest : s.history.cursor = 0)
    (drops : excess t.settings.maxEntries t.states.length = 1) (some : 0 < s.history.size) :
    ∃ entry rest, s.history.entries = entry :: rest ∧
      runSteps Effect.replay s.store entry.effects = ((t.recordBehind r).shown, .ok ()) := by
  obtain ⟨entry, rest, split⟩ := List.exists_cons_of_length_pos some
  have count : t.states.length = s.history.size + 1 := follows.view.linked.length
  have shown := t.shown_recordBehind_eq r
  rw [drops, ← follows.cursor, oldest, List.getElem?_drop,
    List.getElem?_append_left (by omega)] at shown
  have here := follows.view.shown
  rw [oldest] at here
  have there : s.history.entries[0]? = .some entry := by rw [split]; rfl
  exact ⟨entry, rest, split, (follows.view.linked.between 0 entry _ _ there here shown).forth⟩

/-! ## Commits while another state is shown -/

theorem Session.history_of_paused (paused : s.mode = .paused) :
    s.ready = true ∧ s.history.paused = true := by
  unfold Session.mode at paused
  split at paused
  · cases paused
  · next ready =>
    split at paused
    · next held => exact ⟨Decidable.not_not.mp ready, held⟩
    · cases paused

theorem commit_eq_commitBehind (paused : s.mode = .paused)
    (policy : s.settings.pausedCommits = .append) :
    s.commit = (s.discard, .error .nothingQueued) ∨ s.commit = s.discard.commitBehind s.pending := by
  obtain ⟨ready, held⟩ := Session.history_of_paused paused
  have ready : ¬ ¬ s.discard.ready = true := not_not_intro ready
  have held : ¬ ¬ s.discard.history.paused = true := not_not_intro held
  have policy : s.discard.settings.pausedCommits = .append := policy
  simp only [Session.commit, if_neg ready, if_neg held, policy]
  split
  · exact .inl rfl
  · exact .inr rfl

/-- **The view is held, unless it is the oldest state of a full history.** Wherever a session can be,
while it is paused and its policy is to append: a commit shows what was shown before it, if nothing is
recorded, if the cursor is not at the oldest state or if there is room for one more entry. Otherwise the
oldest entry is dropped with the state before it, and what is shown is the state after that entry. -/
theorem view_held_unless_oldest {settings : Settings} {compiler : Compiler}
    (reached : s.Reachable settings compiler) (paused : s.mode = .paused)
    (policy : s.settings.pausedCommits = .append) (limit : s.history.limit ≠ some 0) :
    ((∀ entry, s.commit.2 ≠ .ok (some entry)) ∨ 0 < s.history.cursor ∨
        s.history.limit ≠ some s.history.size → s.commit.1.store = s.store) ∧
      ∀ recorded, s.commit.2 = .ok (some recorded) → s.history.cursor = 0 →
        s.history.limit = some s.history.size →
        ∃ oldest rest, s.history.entries = oldest :: rest ∧
          runSteps Effect.replay s.store oldest.effects = (s.commit.1.store, .ok ()) := by
  obtain ⟨ready, -⟩ := Session.history_of_paused paused
  cases reached.grounded_of Timeline.within_start fun t request (within : t.Within) =>
      within.serve request with
  | idle unready => exact absurd (ready.symm.trans unready) (by decide)
  | loaded t follows within =>
    rcases commit_eq_commitBehind paused policy with empty | behind
    · rw [empty]
      refine ⟨fun _ => rfl, ?_⟩
      rintro recorded ⟨⟩
    · have commits := commitBehind_commits follows.discard s.pending
      rw [← behind] at commits
      generalize s.commit = answer at commits ⊢
      generalize s.discard.propagator.outcome _ _ _ = result at commits
      cases commits with
      | failed =>
        refine ⟨fun _ => rfl, ?_⟩
        rintro recorded ⟨⟩
      | same =>
        refine ⟨fun _ => rfl, ?_⟩
        rintro recorded ⟨⟩
      | @recorded r after entry shows =>
        have held (kept : excess t.settings.maxEntries t.states.length ≤ t.cursor) :
            after.store = s.store :=
          shows.shown.trans ((Timeline.shown_recordBehind (t := t.discard) kept).trans
            follows.shown.symm)
        rw [follows.cursor, follows.limit, follows.size_eq]
        rcases within.excess_cases with ⟨none, room⟩ | ⟨one, full⟩
        · refine ⟨fun _ => held (none ▸ Nat.zero_le _), ?_⟩
          intro _ _ _ full
          exact absurd full room
        · constructor
          · rintro (refused | later | room)
            · exact absurd rfl (refused entry)
            · exact held (one ▸ later)
            · exact absurd full room
          · intro _ _ oldest _
            rw [shows.shown]
            refine follows.discard.replay_recordBehind (follows.cursor.trans oldest) one ?_
            refine Nat.pos_of_ne_zero fun empty => limit ?_
            rw [follows.limit, full, ← follows.size_eq]
            exact congrArg some empty

/-- A program with one number and no blocks. -/
def counter : Program where
  tables := [⟨⟨1⟩, "t", [⟨"x", ⟨2⟩, .number⟩], [[.number .zero]]⟩]
  blocks := []

/-- A change was committed and taken back, and another one is to be committed behind. -/
def takenBack : List Operation :=
  [.load counter, .request (.queue (.set ⟨1⟩ 0 (.position 1) (.number .one))), .request .commit,
    .request .pause, .request .stepBack,
    .request (.queue (.set ⟨1⟩ 0 (.position 1) (.number ⟨0x4000000000000000⟩)))]

/-- With room for two entries the number that was there before both changes is shown on. -/
theorem view_held_unless_oldest_room :
    (forgetful.performAll takenBack).Reachable forgetful.settings Program.compile ∧
      (forgetful.performAll takenBack).history.cursor = 0 ∧
      (forgetful.performAll takenBack).commit.1.history.size = 2 ∧
      (forgetful.performAll takenBack).commit.1.store = (forgetful.performAll takenBack).store := by
  have reached : (forgetful.performAll takenBack).Reachable forgetful.settings Program.compile :=
    Session.Reachable.fresh.performAll takenBack
  have paused : (forgetful.performAll takenBack).mode = .paused := by cbv
  have policy : (forgetful.performAll takenBack).settings.pausedCommits = .append := by cbv
  have limit : (forgetful.performAll takenBack).history.limit = some 2 := by cbv
  have size : (forgetful.performAll takenBack).history.size = 1 := by cbv
  have held := view_held_unless_oldest reached paused policy (by rw [limit]; decide)
  exact ⟨reached, by cbv, by cbv, held.1 (.inr (.inr (by rw [limit, size]; decide)))⟩

/-- A session that remembers one transaction. -/
def narrow : Session := .new { Settings.default with maxEntries := some 1 }

/-- With room for one entry the number after the first change is shown instead, so that the view is not
held in general. -/
theorem oldest_view_not_held :
    ¬ ∀ (settings : Settings) (compiler : Compiler) (s : Session), s.Reachable settings compiler →
      s.mode = .paused → s.settings.pausedCommits = .append → s.history.limit ≠ some 0 →
      s.commit.1.store = s.store := by
  intro held
  have reached : (narrow.performAll takenBack).Reachable narrow.settings Program.compile :=
    Session.Reachable.fresh.performAll takenBack
  have limit : (narrow.performAll takenBack).history.limit = some 1 := by cbv
  have same := held _ _ _ reached (by cbv) (by cbv) (by rw [limit]; decide)
  have before : (narrow.performAll takenBack).store.cell? ⟨1⟩ 0 0 = some (.number .zero) := by cbv
  have after : (narrow.performAll takenBack).commit.1.store.cell? ⟨1⟩ 0 0 = some (.number .one) := by
    cbv
  rw [same, before] at after
  cases after

end Ripple
