import Ripple.Proofs.HeldView

/-!
Batches of writes in a session that several clients share. A batch is nothing but requests one after the
other, so that clients who send batches get a session nowhere else than single operations do
(`Session.Shared.reachable`). A batch is refused if no program is loaded, or at its first write to row
zero, and then the whole queue is dropped, with all that other clients had waiting in it: the session is
as it was exactly if nothing was waiting (`refused_batch_leaves_unless_pending`). It always is without a
program, as nothing can be queued then.
-/

namespace Ripple

variable {settings : Settings} {compiler : Compiler} {s : Session} {fault : Fault}

namespace Session

/-- The change that a write to a table asks for. -/
def Write.change (name : String) (w : Write) : Change :=
  .set (.of name) (w.row - 1) (.raw w.column) w.value

/-- The session with more changes in the queue. -/
def waiting (s : Session) (changes : List Change) : Session :=
  { s with pending := s.pending ++ changes }

/-- With a change more before it, the same fault is counted from one place less. -/
theorem length_waiting_add (s : Session) (first : Change) (n : Nat) :
    (s.waiting [first]).pending.length + n = s.pending.length + (n + 1) := by
  simp only [waiting, List.length_append, List.length_cons, List.length_nil]
  omega

@[simp] theorem waiting_nil (s : Session) : s.waiting [] = s := by
  simp [waiting]

@[simp] theorem waiting_waiting (s : Session) (first second : List Change) :
    (s.waiting first).waiting second = s.waiting (first ++ second) := by
  simp [waiting]

/-- The sessions that clients lead to from a fresh one, with single operations and with batches. Each of
these is carried out while no other one is. -/
inductive Shared (settings : Settings) (compiler : Compiler) : Session → Prop
  | fresh : Shared settings compiler (.withCompiler settings compiler)
  | after {s : Session} (shared : Shared settings compiler s) (operation : Operation) :
      Shared settings compiler (s.perform operation).1
  | batch {s : Session} (shared : Shared settings compiler s) (name : String) (writes : List Write) :
      Shared settings compiler (s.transact name writes).1

/-! ## Queueing -/

/-- A session without a program takes no write. -/
theorem queueWrite_of_unready (unready : s.ready = false) (name : String) (w : Write) :
    s.queueWrite name w.row w.column w.value = (s, .error .notReady) := by
  simp [queueWrite, unready]

theorem queueWrite_of_row_zero (ready : s.ready = true) (name : String) {w : Write}
    (zero : w.row = 0) :
    s.queueWrite name w.row w.column w.value =
      (s, .error (.rejected s.pending.length (.rowZero (.of name)))) := by
  simp [queueWrite, ready, zero]

theorem queueWrite_of_counted (ready : s.ready = true) (name : String) {w : Write}
    (counted : w.row ≠ 0) :
    s.queueWrite name w.row w.column w.value = (s.waiting [w.change name], .ok ()) := by
  simp [queueWrite, queue, ready, counted, waiting, Write.change]

/-- Why a batch of writes is refused, and with which fault. -/
inductive Refuses (s : Session) (name : String) : List Write → Fault → Prop
  /-- No program is loaded. -/
  | unready (unready : s.ready = false) (w : Write) (rest : List Write) :
      Refuses s name (w :: rest) .notReady
  /-- A write is to row zero. The fault counts the changes that wait before it, those of others
  included. -/
  | rowZero (ready : s.ready = true) (accepted : List Write) (w : Write) (rest : List Write)
      (counted : ∀ a ∈ accepted, a.row ≠ 0) (zero : w.row = 0) :
      Refuses s name (accepted ++ w :: rest)
        (.rejected (s.pending.length + accepted.length) (.rowZero (.of name)))

/-- A write that is taken before a refused batch makes the fault count one change more. -/
theorem Refuses.cons {name : String} {w : Write} {rest : List Write} (ready : s.ready = true)
    (counted : w.row ≠ 0) (refused : (s.waiting [w.change name]).Refuses name rest fault) :
    s.Refuses name (w :: rest) fault := by
  cases refused with
  | unready unready => exact absurd (unready.symm.trans ready) Bool.false_ne_true
  | rowZero _ accepted v rest others zero =>
    rw [length_waiting_add]
    exact .rowZero ready (w :: accepted) v rest (List.forall_mem_cons.mpr ⟨counted, others⟩) zero

/-- A batch is taken as a whole, and then its changes wait behind all others, or it is refused. -/
theorem queueWrites_cases (s : Session) (name : String) (writes : List Write) :
    s.queueWrites name writes = (s.waiting (writes.map (Write.change name)), .ok ()) ∨
      ∃ taken fault, s.queueWrites name writes = (s.waiting taken, .error fault) ∧
        s.Refuses name writes fault := by
  induction writes generalizing s with
  | nil =>
    refine .inl ?_
    simp [queueWrites]
  | cons w rest ih =>
    cases ready : s.ready with
    | false =>
      refine .inr ⟨[], .notReady, ?_, .unready ready w rest⟩
      simp only [queueWrites, queueWrite_of_unready ready, waiting_nil]
    | true =>
      by_cases zero : w.row = 0
      · refine .inr ⟨[], _, ?_, .rowZero ready [] w rest (by simp) zero⟩
        simp only [queueWrites, queueWrite_of_row_zero ready name zero, waiting_nil,
          List.length_nil, Nat.add_zero]
      · have first := queueWrite_of_counted ready name zero
        rcases ih (s.waiting [w.change name]) with taken | ⟨taken, fault, stopped, refused⟩
        · refine .inl ?_
          simp only [queueWrites, first, taken, waiting_waiting, List.map_cons,
            List.singleton_append]
        · refine .inr ⟨w.change name :: taken, fault, ?_, .cons ready zero refused⟩
          simp only [queueWrites, first, stopped, waiting_waiting, List.singleton_append]

/-- Batches are refused for no other reasons, and these suffice. -/
theorem queueWrites_refused_iff (s : Session) (name : String) (writes : List Write) (fault : Fault) :
    (s.queueWrites name writes).2 = .error fault ↔ s.Refuses name writes fault := by
  constructor
  · intro refused
    rcases s.queueWrites_cases name writes with taken | ⟨taken, other, stopped, refuses⟩
    · rw [taken] at refused
      cases refused
    · rw [stopped] at refused
      exact Except.error.inj refused ▸ refuses
  · intro refuses
    cases refuses with
    | unready unready w rest => simp only [queueWrites, queueWrite_of_unready unready]
    | rowZero ready accepted w rest counted zero =>
      induction accepted generalizing s with
      | nil =>
        simp only [List.nil_append, queueWrites, queueWrite_of_row_zero ready name zero,
          List.length_nil, Nat.add_zero]
      | cons first accepted ih =>
        obtain ⟨one, others⟩ := List.forall_mem_cons.mp counted
        have next := ih (s.waiting [first.change name]) ready others
        simp only [List.cons_append, queueWrites, queueWrite_of_counted ready name one]
        rw [next, length_waiting_add]
        rfl

/-- A batch that is refused leaves nothing in the queue. -/
theorem transact_of_refused {name : String} {writes : List Write}
    (refused : (s.queueWrites name writes).2 = .error fault) :
    s.transact name writes = (s.discard, .error fault) := by
  rcases s.queueWrites_cases name writes with taken | ⟨taken, other, stopped, -⟩
  · rw [taken] at refused
    cases refused
  · rw [stopped] at refused
    obtain rfl : other = fault := Except.error.inj refused
    simp only [transact, stopped]
    rfl

/-! ## Sessions that are shared -/

theorem Reachable.queueWrites (reached : s.Reachable settings compiler) (name : String)
    (writes : List Write) : (s.queueWrites name writes).1.Reachable settings compiler := by
  induction writes generalizing s with
  | nil => exact reached
  | cons w rest ih =>
    have one : (s.queueWrite name w.row w.column w.value).1.Reachable settings compiler :=
      reached.after (.request (.queueWrite name w.row w.column w.value))
    simp only [Session.queueWrites]
    generalize s.queueWrite name w.row w.column w.value = answer at one ⊢
    obtain ⟨next, fault | ⟨⟩⟩ := answer
    · exact one
    · exact ih one

theorem Reachable.transact (reached : s.Reachable settings compiler) (name : String)
    (writes : List Write) : (s.transact name writes).1.Reachable settings compiler := by
  have queued := reached.queueWrites name writes
  unfold Session.transact
  generalize s.queueWrites name writes = answer at queued ⊢
  obtain ⟨next, fault | ⟨⟩⟩ := answer
  · exact queued.after (.request .discard)
  · exact queued.after (.request .commit)

/-- Batches lead nowhere that single operations do not. -/
theorem Shared.reachable (shared : s.Shared settings compiler) : s.Reachable settings compiler := by
  induction shared with
  | fresh => exact .fresh
  | after _ operation ih => exact ih.after operation
  | batch _ name writes ih => exact ih.transact name writes

theorem Shared.performAll (shared : s.Shared settings compiler) (operations : List Operation) :
    (s.performAll operations).Shared settings compiler := by
  induction operations generalizing s with
  | nil => exact shared
  | cons operation rest ih => exact ih (shared.after operation)

/-- Nothing waits as long as no program is loaded: loading and giving up a program empty the queue. -/
theorem Reachable.pending_of_unready (reached : s.Reachable settings compiler)
    (unready : s.ready = false) : s.pending = [] := by
  induction reached with
  | fresh => rfl
  | @after s reached operation ih =>
    have loads {program : Program} {next : Session} (loaded : s.load program = (next, .ok ()))
        (unready : next.ready = false) : next.pending = [] :=
      nomatch (follows_of_load loaded).ready.symm.trans unready
    cases operation with
    | compile text =>
      rcases compile_cases s text with ⟨e, failed⟩ | ⟨program, next, -, loaded, compiled⟩
      · simp only [perform, failed] at unready ⊢
        exact ih unready
      · simp only [perform, compiled] at unready ⊢
        exact loads loaded unready
    | load program =>
      rcases load_cases s program with ⟨fault, failed⟩ | ⟨next, loaded⟩
      · simp only [perform, failed] at unready ⊢
        exact ih unready
      · simp only [perform, loaded] at unready ⊢
        exact loads loaded unready
    | clear => rfl
    | subscribe => exact ih unready
    | unsubscribe => exact ih unready
    | request request =>
      cases reached.grounded with
      | idle idle none start =>
        rcases serve_of_idle_cases idle none start request with same | emptied
        · simp only [perform, same]
          exact ih idle
        · simp only [perform, emptied]
          rfl
      | loaded t follows _ => exact nomatch (serve_inStep follows request).1.ready.symm.trans unready

end Session

/-! ## Refused batches -/

/-- **A refused batch empties the whole queue.** Whatever clients did before, with single operations and
with batches: a batch of which a write is refused leaves the session without a queue, and as it was in
everything else. So it leaves the session as it was exactly if no change of another client was waiting.
That is the case whenever no program is loaded; with a program, the batch is refused for a write to row
zero, and the fault counts what waited before it. -/
theorem refused_batch_leaves_unless_pending (shared : s.Shared settings compiler) (name : String)
    (writes : List Session.Write) (refused : (s.queueWrites name writes).2 = .error fault) :
    s.transact name writes = (s.discard, .error fault) ∧
      ((s.transact name writes).1 = s ↔ s.pending = []) ∧
      (s.ready = false → (s.transact name writes).1 = s) ∧
      s.Refuses name writes fault := by
  have emptied : s.transact name writes = (s.discard, .error fault) :=
    Session.transact_of_refused refused
  have same : (s.transact name writes).1 = s ↔ s.pending = [] := by
    rw [emptied]
    constructor
    · intro kept
      exact (congrArg Session.pending kept).symm
    · intro none
      simp only [Session.discard, ← none]
  refine ⟨emptied, same, ?_, (s.queueWrites_refused_iff name writes fault).mp refused⟩
  intro unready
  exact same.mpr (shared.reachable.pending_of_unready unready)

/-- A client has loaded a program, and another one has queued a change. -/
def awaited : Session :=
  forgetful.performAll
    [.load counter, .request (.queue (.set ⟨1⟩ 0 (.position 1) (.number .zero)))]

theorem awaited_shared : awaited.Shared forgetful.settings Program.compile :=
  Session.Shared.fresh.performAll _

/-- A batch with one write that is taken and one to row zero. -/
def misnumbered : List Session.Write := [⟨1, 1, .number .one⟩, ⟨0, 1, .number .one⟩]

theorem awaited_refuses_misnumbered :
    (awaited.queueWrites "t" misnumbered).2 = .error (.rejected 2 (.rowZero (.of "t"))) := by
  have ready : awaited.ready = true := by cbv
  have one : awaited.pending.length = 1 := by cbv
  have refuses : awaited.Refuses "t" misnumbered
      (.rejected (awaited.pending.length + 1) (.rowZero (.of "t"))) :=
    .rowZero ready [⟨1, 1, .number .one⟩] ⟨0, 1, .number .one⟩ [] (by simp) rfl
  rw [one] at refuses
  exact (awaited.queueWrites_refused_iff "t" misnumbered _).mpr refuses

theorem refused_batch_leaves_unless_pending_waiting :
    awaited.Shared forgetful.settings Program.compile ∧
      (awaited.queueWrites "t" misnumbered).2 = .error (.rejected 2 (.rowZero (.of "t"))) ∧
      awaited.pending = [.set ⟨1⟩ 0 (.position 1) (.number .zero)] ∧
      awaited.transact "t" misnumbered =
        (awaited.discard, .error (.rejected 2 (.rowZero (.of "t")))) :=
  ⟨awaited_shared, awaited_refuses_misnumbered, by cbv,
    (refused_batch_leaves_unless_pending awaited_shared "t" misnumbered
      awaited_refuses_misnumbered).1⟩

/-- So a client loses a change that waited when the batch of another one is refused. -/
theorem refused_batch_drops_pending :
    ¬ ∀ (settings : Settings) (compiler : Compiler) (s : Session) (name : String)
        (writes : List Session.Write) (fault : Fault), s.Shared settings compiler →
        (s.queueWrites name writes).2 = .error fault → (s.transact name writes).1 = s := by
  intro undisturbed
  have kept := undisturbed _ _ awaited "t" misnumbered _ awaited_shared awaited_refuses_misnumbered
  rw [Session.transact_of_refused awaited_refuses_misnumbered] at kept
  have emptied : [] = awaited.pending := congrArg Session.pending kept
  have one : awaited.pending.length = 1 := by cbv
  rw [← emptied] at one
  cases one

end Ripple
