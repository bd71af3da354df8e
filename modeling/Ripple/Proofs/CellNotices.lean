import Ripple.Proofs.Bookkeeping
import Ripple.Proofs.CursorNotices
import Ripple.Proofs.ListedCells
import Ripple.Proofs.Mentions

/-!
What a listener is told about cells. The list is made from the effects of an entry and not from the
stores, and it is the same when the entry is undone or done again. It is right for all three as every
entry of a history is what was performed between the two states that it lies between
(`Session.Reachable.performed`), so that it accounts for whatever differs between these
(`cells_told_exactly`).
-/

namespace Ripple

/-- The lists are right for what differs between two stores, whichever of them comes first. -/
structure Differences (a b : Store) (cells : List CellAddress) (tables : List Ident) : Prop where
  cellsOnce : cells.Nodup
  complete : ∀ cell, a.at? cell ≠ b.at? cell → cell ∈ cells
  there : ∀ cell ∈ cells, (a.at? cell).isSome ∨ (b.at? cell).isSome
  tablesOnce : tables.Nodup
  tables : ∀ id, id ∈ tables ↔ a.contains id ≠ b.contains id

/-- The request shows another state and is not silent: a transaction is recorded, and not behind the
state that is shown, or one entry is undone or done again. -/
inductive Session.Turns (s : Session) : Request → Prop
  | commit {entry : Entry} (shown : s.mode = .paused → s.settings.pausedCommits ≠ .append)
      (done : s.commit.2 = .ok (some entry)) : Turns s .commit
  | stepBack (done : s.stepBack.2 = .ok ()) : Turns s .stepBack
  | stepForward (done : s.stepForward.2 = .ok ()) : Turns s .stepForward

variable {s after : Session} {t : Timeline} {r : Store} {effects : List Effect} {entry : Entry}
  {changes : List Change}

/-! ## Lists and differences -/

theorem Differences.symm {a b : Store} {cells : List CellAddress} {tables : List Ident}
    (right : Differences a b cells tables) : Differences b a cells tables where
  cellsOnce := right.cellsOnce
  complete cell differ := right.complete cell (Ne.symm differ)
  there cell member := (right.there cell member).symm
  tablesOnce := right.tablesOnce
  tables id := (right.tables id).trans ne_comm

/-- What accounts for the way from one store to another tells what differs. -/
theorem Accounts.differences {a b : Store} (accounts : Accounts a effects b) :
    Differences a b (keepFirst (listedCells effects)) (listedTables effects) where
  cellsOnce := nodup_keepFirst _
  complete cell differ := mem_keepFirst.mpr (accounts.changed cell (Ne.symm differ))
  there cell member := .inr (accounts.listed cell (mem_keepFirst.mp member))
  tablesOnce := accounts.once
  tables id := by
    have kept := accounts.tables id
    rw [accounts.created]
    revert kept
    cases a.contains id <;> cases b.contains id <;> simp

/-! ## What entries stand for -/

theorem Session.store_tell (s : Session) (event : Event) : (s.tell event).store = s.store := by
  obtain ⟨told, same⟩ := s.tell_eq event
  rw [same]

theorem Session.listening_tell (s : Session) (event : Event) :
    (s.tell event).listening = s.listening := by
  obtain ⟨told, same⟩ := s.tell_eq event
  rw [same]

/-- A transaction that is recorded is what was performed, and tells first that it was recorded and then
the cells. -/
theorem commitChanges_recorded {visible : Bool}
    (done : s.commitChanges changes visible = (after, .ok (some entry))) :
    Performed s.store entry.effects after.store ∧ after.listening = s.listening ∧
      (s.listening = true → visible = true →
        after.told = s.told ++ [.ofCommit entry, .ofCells entry]) := by
  unfold Session.commitChanges at done
  cases committed : s.propagator.commit s.graph s.store changes with
  | mk r answer =>
    obtain fault | first := answer
    · simp only [committed] at done
      cases done
    · have performed : Performed s.store first.effects r :=
        s.propagator.commit_keeps (kept_performed s.store) .nothing committed
      simp only [committed] at done
      split at done
      · cases done
      · obtain ⟨rfl, same⟩ := Prod.mk.inj done
        cases same
        refine ⟨?_, ?_, ?_⟩
        · cases visible
          · rw [if_neg (by decide), Session.store_tell]
            exact performed
          · rw [if_pos rfl, Session.store_tell, Session.store_tell]
            exact performed
        · cases visible
          · rw [if_neg (by decide), Session.listening_tell]
          · rw [if_pos rfl, Session.listening_tell, Session.listening_tell]
        · intro listens shown
          simp [shown, Session.tell, listens]

namespace Timeline

/-- No request but a commit makes states or drops them. -/
theorem states_serve (t : Timeline) {request : Request} (other : request ≠ .commit) :
    (t.serve request).1.states = t.states := by
  have sought (position : Nat) : (t.seek position).1.states = t.states := by
    unfold Timeline.seek
    split <;> rfl
  cases request with
  | commit => exact absurd rfl other
  | queueWrite =>
    simp only [serve]
    split <;> rfl
  | stepBack =>
    simp only [serve]
    split
    · rfl
    · split
      · rfl
      · exact sought _
  | stepForward =>
    simp only [serve]
    split
    · rfl
    · exact sought _
  | seek position => exact sought position
  | _ => rfl

/-- To record behind the state that is shown makes the same states as to record at the newest one. -/
theorem states_conclude_newest (t : Timeline) (result : Except Fault (Option Store)) :
    (conclude { t with cursor := t.last, inside := t.last_lt } record result).1.states =
      (t.conclude recordBehind result).1.states := by
  obtain fault | _ | r := result
  · rfl
  · rfl
  · have here := t.inside
    have count : t.last + 1 = t.states.length := by
      unfold last
      omega
    simp only [conclude, record_states, recordBehind_states, count, List.take_length]

end Timeline

/-- The entry at the cursor leads to a new state, in whichever sense. -/
theorem Shows.neighbours_record {leads : Store → List Effect → Store → Prop} {states : List Store}
    {h : History} {s : Store} (view : Shows states h s) (neighbours : Neighbours leads states h.entries)
    (last : leads s entry.effects r) :
    Neighbours leads ((states.take (h.cursor + 1) ++ [r]).drop (excess h.limit (h.cursor + 1)))
      (h.record entry).1.entries := by
  have inside := view.cursor_le
  have length := (view.linked.take inside).length
  unfold History.size at inside
  have newest : (states.take (h.cursor + 1))[(h.entries.take h.cursor).length]? = some s := by
    rw [List.length_take_of_le inside, List.getElem?_take_of_lt (Nat.lt_succ_self _)]
    exact view.shown
  rw [History.record_eq entry view.cursor_le]
  have longer : Neighbours leads (states.take (h.cursor + 1) ++ [r])
      (h.entries.take h.cursor ++ [{ entry with seq := h.nextSeq }]) :=
    (neighbours.take h.cursor).concat length newest last
  exact longer.drop _

/-- The entries are what was performed from state to state. -/
abbrev PerformedBetween (states : List Store) (entries : List Entry) : Prop :=
  Neighbours Performed states entries

variable {result : Except Fault (Option Store)}

theorem performedBetween_commitChanges (follows : Follows s t)
    (performed : PerformedBetween t.states s.history.entries) (changes : List Change)
    (visible : Bool) :
    PerformedBetween
      (t.conclude Timeline.record (s.propagator.outcome s.graph s.store changes)).1.states
      (s.commitChanges changes visible).1.history.entries := by
  have commits := commitChanges_commits follows.view.sound changes visible
  have recorded (after : Session) (entry : Entry)
      (done : s.commitChanges changes visible = (after, .ok (some entry))) :=
    (commitChanges_recorded done).1
  generalize s.commitChanges changes visible = answer at commits recorded ⊢
  generalize s.propagator.outcome s.graph s.store changes = result at commits ⊢
  cases commits with
  | failed => exact performed
  | same => exact performed
  | @recorded r entry =>
    have last : Performed s.store entry.effects r := recorded _ _ rfl
    have whole := follows.view.neighbours_record performed last
    rw [follows.cursor, follows.limit] at whole
    rwa [Timeline.conclude, Timeline.record_states]

theorem entries_commitBranch (s : Session) (changes : List Change) :
    (s.commitBranch changes).1.history.entries = (s.commitChanges changes true).1.history.entries := by
  unfold Session.commitBranch
  dsimp only
  generalize s.commitChanges changes true = answer
  obtain ⟨after, fault | _ | entry⟩ := answer
  · rfl
  · rfl
  · simp only [Session.tellCursor, Session.history_tell]

/-- A commit behind the state that is shown leaves the entries that one at the newest state leaves. -/
theorem performedBetween_commitBehind (follows : Follows s t)
    (performed : PerformedBetween t.states s.history.entries) (changes : List Change) :
    PerformedBetween
      (t.conclude Timeline.recordBehind (s.propagator.outcome s.graph t.newest changes)).1.states
      (s.commitBehind changes).1.history.entries := by
  let newest : Session :=
    { s with history := { s.history with cursor := t.last }, store := t.newest }
  have gone : s.seek s.history.size = (newest, .ok ()) := by
    rw [follows.size_eq]
    exact seek_eq_of_shows follows.view (follows.size_eq ▸ Nat.le_refl _) t.newest_eq
  have there := follows.at_position t.last_lt t.newest_eq
  have made := performedBetween_commitChanges there performed changes false
  have inside := ((newest.commitChanges_records changes false).counts there.view.cursor_le).1
  rw [Timeline.states_conclude_newest] at made
  unfold Session.commitBehind
  simp only [gone]
  change PerformedBetween (t.conclude _ (s.propagator.outcome s.graph t.newest changes)).1.states _ at made
  generalize newest.commitChanges changes false = answer at made inside ⊢
  obtain ⟨middle, result⟩ := answer
  dsimp only at made inside ⊢
  generalize sought : middle.seek _ = last
  obtain ⟨cursor, -, same⟩ := sought ▸ Session.history_seek inside _
  obtain ⟨last, fault | ⟨⟩⟩ := last
  · dsimp only at same ⊢
    rwa [same]
  · dsimp only at same ⊢
    rwa [same]

theorem performedBetween_commit (follows : Follows s t)
    (performed : PerformedBetween t.states s.history.entries) :
    PerformedBetween t.commit.1.states s.commit.1.history.entries := by
  have after : Follows s.discard t.discard := follows.discard
  rcases follows.commit_cases with ⟨fault, same, alike⟩ | ⟨same | same, alike⟩ | ⟨same, alike⟩
  · rw [same, alike]
    exact performed
  · rw [same, alike]
    exact performedBetween_commitChanges after performed s.pending true
  · rw [same, alike, entries_commitBranch]
    exact performedBetween_commitChanges after performed s.pending true
  · rw [same, alike]
    exact performedBetween_commitBehind after performed s.pending

theorem performedBetween_serve (follows : Follows s t)
    (performed : PerformedBetween t.states s.history.entries) (request : Request) :
    PerformedBetween (t.serve request).1.states (s.serve request).1.history.entries := by
  by_cases commits : request = .commit
  · subst commits
    exact performedBetween_commit follows performed
  · obtain ⟨cursor, paused, same⟩ := Session.history_serve follows.view.cursor_le commits
    rw [t.states_serve commits, same]
    exact performed

/-- Wherever a session can be, its entries are what was performed between the states that they lie
between. -/
theorem Session.Reachable.performed {settings : Settings} {compiler : Compiler}
    (reached : Reachable settings compiler s) :
    Grounded (fun t => PerformedBetween t.states s.history.entries) s := by
  induction reached with
  | fresh => exact .idle rfl rfl rfl
  | after _ operation ih =>
    refine ih.perform_of (fun s t => PerformedBetween t.states s.history.entries) operation ?_ ?_ ?_
    · intro program after _ loaded i entry a b there
      rw [history_of_load loaded] at there
      cases there
    · exact fun t request _ follows performed => performedBetween_serve follows performed request
    · exact fun t listening performed => performed

/-! ## What is told -/

/-- Of what is told on the way from one session to another, these are the only cells. -/
def Session.TellsCells (s after : Session) (entry : Entry) : Prop :=
  ∃ new, after.told = s.told ++ new ∧ new.filter Event.isCellsChanged = [.ofCells entry]

/-- A step tells where the cursor is and then the cells of one entry. -/
theorem tellsCells_of_step (listens : s.listening = true) (after : Session)
    (listening : after.listening = s.listening) (told : after.told = s.told) (previous : Nat)
    (entry : Entry) :
    s.TellsCells ((after.tellCursor previous).tell (.ofCells entry)) entry := by
  have own : after.listening = true := listening.trans listens
  have still : (after.tellCursor previous).listening = true := by
    rw [Session.tellCursor, Session.listening_tell, own]
  rw [Session.tell_of_listening still, Session.tellCursor, Session.tell_of_listening own, told]
  exact ⟨[.cursorMoved after.history.cursor previous after.history.size, .ofCells entry],
    List.append_assoc .., rfl⟩

/-- The entry that is undone is the one before the cursor. -/
theorem stepBack_tellsCells (listens : s.listening = true) (done : s.stepBack.2 = .ok ()) :
    ∃ entry, s.history.current? = some entry ∧ s.TellsCells s.stepBack.1 entry := by
  obtain ⟨entry, history, store, undone, same⟩ := Session.stepBack_of_done done
  refine ⟨entry, undone, ?_⟩
  rw [same]
  exact tellsCells_of_step listens { s with history, store } rfl rfl _ entry

/-- The entry that is done again is the one after the cursor. -/
theorem stepForward_tellsCells (listens : s.listening = true) (done : s.stepForward.2 = .ok ()) :
    ∃ entry, s.history.entries[s.history.cursor]? = some entry ∧
      s.TellsCells s.stepForward.1 entry := by
  obtain ⟨entry, history, store, again, same⟩ := Session.stepForward_of_done done
  refine ⟨entry, again, ?_⟩
  rw [same]
  exact tellsCells_of_step listens { s with history, store } rfl rfl _ entry

/-- A transaction that is recorded, and not behind the state that is shown, is committed on it. -/
theorem commit_of_shown (shown : s.mode = .paused → s.settings.pausedCommits ≠ .append)
    (done : s.commit.2 = .ok (some entry)) :
    ∃ after, s.discard.commitChanges s.pending true = (after, .ok (some entry)) ∧
      (s.commit.1 = after ∨ s.commit.1 = after.tellCursor s.history.cursor) := by
  rcases s.commit_cases with ⟨fault, same⟩ | ⟨-, same⟩ | ⟨-, -, same⟩ | ⟨paused, policy, -⟩
  · rw [same] at done
    cases done
  · rw [same] at done ⊢
    exact ⟨_, Prod.ext rfl done, .inl rfl⟩
  · rw [same] at done ⊢
    unfold Session.commitBranch at done ⊢
    dsimp only at done ⊢
    generalize s.discard.commitChanges s.pending true = answer at done ⊢
    obtain ⟨after, fault | _ | found⟩ := answer
    · cases done
    · cases done
    · cases done
      exact ⟨after, rfl, .inr rfl⟩
  · exact absurd policy (shown paused)

/-- Its entry is what was performed, and its cells are told. -/
theorem commit_tellsCells (listens : s.listening = true)
    (shown : s.mode = .paused → s.settings.pausedCommits ≠ .append)
    (done : s.commit.2 = .ok (some entry)) :
    Performed s.store entry.effects s.commit.1.store ∧ s.TellsCells s.commit.1 entry := by
  obtain ⟨after, recorded, same⟩ := commit_of_shown shown done
  obtain ⟨performed, listening, told⟩ := commitChanges_recorded recorded
  have told : after.told = s.told ++ [.ofCommit entry, .ofCells entry] := told listens rfl
  rcases same with same | same
  · rw [same]
    exact ⟨performed, _, told, rfl⟩
  · rw [same, Session.tellCursor, Session.store_tell,
      Session.tell_of_listening (listening.trans listens), told]
    exact ⟨performed, _, List.append_assoc .., rfl⟩

theorem Timeline.cursor_stepBack (done : (t.serve .stepBack).2 = .ok ()) :
    t.cursor = (t.serve .stepBack).1.cursor + 1 := by
  unfold Timeline.serve Timeline.seek at done ⊢
  dsimp only at done ⊢
  split at done
  · cases done
  · next held =>
    rw [if_neg held]
    split at done
    · cases done
    · next later =>
      rw [if_neg later]
      split at done
      · next inside =>
        rw [dif_pos inside]
        exact (Nat.sub_one_add_one later).symm
      · cases done

theorem Timeline.cursor_stepForward (done : (t.serve .stepForward).2 = .ok ()) :
    (t.serve .stepForward).1.cursor = t.cursor + 1 := by
  unfold Timeline.serve Timeline.seek at done ⊢
  dsimp only at done ⊢
  split at done
  · cases done
  · next held =>
    rw [if_neg held]
    split at done
    · next inside => rw [dif_pos inside]
    · cases done

/-- An entry that is undone is what was performed from the state that is shown then. -/
theorem stepBack_performed (follows : Follows s t)
    (performed : PerformedBetween t.states s.history.entries) (done : s.stepBack.2 = .ok ())
    (undone : s.history.current? = some entry) :
    Performed s.stepBack.1.store entry.effects s.store := by
  obtain ⟨after, answer⟩ := stepBack_inStep follows
  have moved := Timeline.cursor_stepBack (answer.symm.trans done)
  have before := after.view.shown
  rw [t.states_serve (by simp)] at before
  rw [← after.cursor, ← follows.cursor] at moved
  unfold History.current? at undone
  rw [moved, if_neg (by simp), Nat.add_sub_cancel] at undone
  exact performed _ _ _ _ undone before (moved ▸ follows.view.shown)

theorem stepForward_performed (follows : Follows s t)
    (performed : PerformedBetween t.states s.history.entries) (done : s.stepForward.2 = .ok ())
    (again : s.history.entries[s.history.cursor]? = some entry) :
    Performed s.store entry.effects s.stepForward.1.store := by
  obtain ⟨after, answer⟩ := stepForward_inStep follows
  have moved := Timeline.cursor_stepForward (answer.symm.trans done)
  have there := after.view.shown
  rw [t.states_serve (by simp)] at there
  rw [← after.cursor, ← follows.cursor] at moved
  exact performed _ _ _ _ again follows.view.shown (moved ▸ there)

/-- **The cells that are told are exactly right.** Wherever a session can be, while someone listens: a
transaction that is recorded, unless behind the state that is shown, and a step in either direction tell
the cells of one entry. No cell is listed twice, every cell that is there in one of the stores before and
after and not in the other, or has another value, is listed, and every one that is listed is in one of
them; and the tables are those that are in one of them and not in the other. -/
theorem cells_told_exactly {settings : Settings} {compiler : Compiler}
    (reached : s.Reachable settings compiler) (listens : s.listening = true) {request : Request}
    (turns : s.Turns request) :
    ∃ new seq cells tables, (s.serve request).1.told = s.told ++ new ∧
      new.filter Event.isCellsChanged = [.cellsChanged seq cells tables] ∧
      Differences s.store (s.serve request).1.store cells tables := by
  cases reached.performed with
  | idle unready =>
    have discarded : s.discard.ready = false := unready
    cases turns with
    | commit shown done => simp [Session.commit, discarded] at done
    | stepBack done => simp [Session.stepBack, unready] at done
    | stepForward done => simp [Session.stepForward, unready] at done
  | loaded t follows performed =>
    have sound := follows.view.sound
    cases turns with
    | commit shown done =>
      obtain ⟨performed, new, told, cells⟩ := commit_tellsCells listens shown done
      exact ⟨new, _, _, _, told, cells, (performed.accounts sound).differences⟩
    | stepBack done =>
      obtain ⟨entry, undone, new, told, cells⟩ := stepBack_tellsCells listens done
      have back := stepBack_performed follows performed done undone
      have before := (stepBack_inStep follows).1.view.sound
      exact ⟨new, _, _, _, told, cells, (back.accounts before).differences.symm⟩
    | stepForward done =>
      obtain ⟨entry, again, new, told, cells⟩ := stepForward_tellsCells listens done
      have forth := stepForward_performed follows performed done again
      exact ⟨new, _, _, _, told, cells, (forth.accounts sound).differences⟩

/-- While someone listened, a number was written and a log made that says so. -/
def logged : Session :=
  forgetful.performAll [.load logging, .subscribe,
    .request (.queue (.set ⟨1⟩ 0 (.position 1) (.number .one))), .request .commit, .request .pause]

/-- When both are taken back, the number and the row of the log are told, and that the log is gone. -/
theorem cells_told_exactly_logged :
    logged.Reachable forgetful.settings Program.compile ∧ logged.listening = true ∧
      logged.Turns .stepBack ∧
      (logged.serve .stepBack).1.told = logged.told ++
        [.cursorMoved 0 1 1, .cellsChanged 1 [⟨⟨1⟩, 0, 0⟩, ⟨⟨3⟩, 0, 0⟩] [⟨3⟩]] ∧
      Differences logged.store (logged.serve .stepBack).1.store [⟨⟨1⟩, 0, 0⟩, ⟨⟨3⟩, 0, 0⟩] [⟨3⟩] := by
  have reached : logged.Reachable forgetful.settings Program.compile :=
    Session.Reachable.fresh.performAll _
  have listens : logged.listening = true := by cbv
  have turns : logged.Turns .stepBack := .stepBack (by cbv)
  have events : (logged.serve .stepBack).1.told = logged.told ++
      [.cursorMoved 0 1 1, .cellsChanged 1 [⟨⟨1⟩, 0, 0⟩, ⟨⟨3⟩, 0, 0⟩] [⟨3⟩]] := by cbv
  obtain ⟨new, seq, cells, tables, told, own, right⟩ := cells_told_exactly reached listens turns
  obtain rfl := List.append_cancel_left (told.symm.trans events)
  cases own
  exact ⟨reached, listens, turns, events, right⟩

end Ripple
