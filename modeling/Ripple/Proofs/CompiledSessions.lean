import Ripple.Proofs.CompiledBlocks
import Ripple.Proofs.FailedOperations

/-!
Sessions whose clients load compiled programs only. Such a session either has no program or shows what
an orderly timeline shows, and every operation keeps it so. Hence no answer is the fault of a
block that asked for a change that was refused.
-/

namespace Ripple

variable {s : Session}

/-! ## Loading -/

theorem Session.tidy_declareAll {declarations : List Program.Declaration} {r q : Store} (tidy : r.Tidy)
    (distinct : ∀ d ∈ declarations, (d.specs.map ColumnSpec.id).Nodup)
    (declared : declareAll r declarations = .ok q) : q.Tidy := by
  induction declarations generalizing r with
  | nil =>
    cases declared
    exact tidy
  | cons d rest ih =>
    obtain ⟨next, created, later⟩ := bind_eq_ok_iff.mp declared
    exact ih (Store.tidy_create tidy (distinct d List.mem_cons_self) created)
      (fun d' member => distinct d' (List.mem_cons_of_mem _ member)) later

/-- Loading a careful program leads to an orderly timeline, or fails for another reason than a change
that was refused. -/
theorem Program.Careful.load (careful : program.Careful) (fresh : Session) :
    (∀ s, fresh.load program = (s, .ok ()) → (Timeline.start s.settings s.graph s.store).Orderly) ∧
      ∀ s fault, fresh.load program = (s, .error fault) → fault.isRecoverable := by
  have blocks : ∀ b ∈ (Graph.ofBlocks program.blocks).ordered, b.2.Careful := by
    rintro ⟨i, b⟩ member
    exact careful.blocks b (List.mem_of_getElem? (Graph.mem_ordered_iff.mp member))
  unfold Session.load
  split
  · refine ⟨?_, ?_⟩
    · rintro s ⟨⟩
    · rintro s fault ⟨⟩
      rfl
  · next store declared =>
    have tidy := Session.tidy_declareAll Store.tidy_empty careful.tables declared
    have booted := conclude_proper (launch_proper (p := fresh.propagator) blocks tidy) 0
    rw [← Propagator.bootstrap_eq_conclude] at booted
    dsimp only
    split
    · next r fault result =>
      refine ⟨?_, ?_⟩
      · rintro s ⟨⟩
      · rintro s other ⟨⟩
        exact booted.2 r fault result
    · next r entry result =>
      refine ⟨?_, ?_⟩
      · rintro s ⟨⟩
        obtain ⟨told, same⟩ := Session.tell_eq _ _
        rw [same]
        exact
          { careful := blocks
            tidy := by
              rintro q member
              obtain rfl := List.mem_singleton.mp member
              exact booted.1 q entry result
            distinct := fun change none => by cases none }
      · rintro s fault ⟨⟩

/-! ## Clients -/

/-- What a client does that loads compiled programs only, with column names that have different
identifiers, and gives the columns of its own tables different identifiers. -/
def Operation.Orderly : Operation → Prop
  | .compile text => Program.ColumnsApart text
  | .load program => ∃ text, Program.compile text = .ok program ∧ Program.ColumnsApart text
  | .request asked => asked.Distinct
  | _ => True

/-- Without a program a request is refused for that reason, or for a position that is not there. -/
theorem recoverable_of_idle {fault : Fault} (unready : s.ready = false) (none : s.history.entries = [])
    (start : s.history.cursor = 0) {request : Request} (refused : (s.serve request).2 = .error fault) :
    fault.isRecoverable := by
  have discarded : s.discard.ready = false := unready
  have reason : fault = .notReady ∨ fault = .atNewest := by
    cases request with
    | discard => cases refused
    | seek position =>
      simp only [Session.serve, seek_of_idle none start] at refused
      split at refused <;> cases refused
      exact .inr rfl
    | _ =>
      refine .inl ?_
      simpa [Session.serve, Session.queueWrite, Session.queueRows, Session.queue, Session.commit,
        Session.pause, Session.resume, Session.stepBack, Session.stepForward, unready, discarded,
        Except.map, eq_comm] using refused
  rcases reason with rfl | rfl <;> rfl

/-- An orderly operation leads to an orderly timeline or leaves one orderly, and is not answered by an
internal fault. -/
theorem Grounded.performs (grounded : Grounded Timeline.Orderly s) (own : s.compiler = Program.compile)
    {operation : Operation} (orderly : operation.Orderly) :
    Grounded Timeline.Orderly (s.perform operation).1 ∧
      ∀ fault, (s.perform operation).2 = .error fault → fault.isRecoverable := by
  have careful : ∀ program, operation.Loads s program → program.Careful := by
    intro program loads
    cases operation with
    | compile text =>
      rw [Operation.Loads, own] at loads
      exact Program.careful_of_compile loads orderly
    | load other =>
      subst loads
      obtain ⟨text, compiled, apart⟩ := orderly
      exact Program.careful_of_compile compiled apart
    | _ => exact loads.elim
  refine ⟨grounded.perform operation ?_ ?_, ?_⟩
  · intro program after loads loaded
    exact ((careful program loads).load s).1 after loaded
  · rintro t request rfl held
    exact (held.serve orderly).1
  · intro fault answered
    cases operation with
    | compile text =>
      rcases compile_cases s text with ⟨e, failed⟩ | ⟨_, _, -, -, compiled⟩
      · simp only [Session.perform, failed] at answered
        cases answered
        rfl
      · simp only [Session.perform, compiled] at answered
        cases answered
    | load program =>
      exact ((careful program rfl).load s).2 _ fault (Prod.ext rfl answered)
    | request request =>
      cases grounded with
      | idle unready none start => exact recoverable_of_idle unready none start answered
      | loaded t follows held =>
        rw [Session.perform, (serve_inStep follows request).2] at answered
        exact (held.serve orderly).2 fault answered
    | _ => cases answered

theorem Grounded.performAll (grounded : Grounded Timeline.Orderly s)
    (own : s.compiler = Program.compile) {operations : List Operation}
    (orderly : ∀ o ∈ operations, o.Orderly) :
    Grounded Timeline.Orderly (s.performAll operations) ∧
      (s.performAll operations).compiler = Program.compile := by
  induction operations generalizing s with
  | nil => exact ⟨grounded, own⟩
  | cons operation rest ih =>
    exact ih (grounded.performs own (orderly operation List.mem_cons_self)).1
      ((congrArg Prod.snd (setup_perform s operation)).trans own) fun o member => orderly o (List.mem_cons_of_mem _ member)

/-- **Blocks of compiled programs ask for nothing that is refused.** As long as the names of columns
that a program creates have different identifiers: what a block asks for on a tidy store can be carried
out, each change with an effect, and leads to the store that has the working copies of the block and the
other tables as they were. So nothing that is asked of a session is answered by the fault of a block
whose change was refused, if its client loads compiled programs and gives the columns of its own tables
different identifiers. -/
theorem compiled_blocks_keep_to_copies :
    (∀ text program paragraphs, Program.compile text = .ok program →
      Program.readProgram text = .ok paragraphs →
      Set.InjOn Ident.of (Program.createdColumns paragraphs) →
      ∀ (i : Nat) b, program.blocks[i]? = some b → ∃ p, (Program.sources paragraphs)[i]? = some p ∧
        ∀ (s : Store) changes, s.Tidy → b.routine s = .ok changes →
          ∃ w r, Program.runLines (.start s) p.body = .ok w ∧ w.changes = changes ∧
            Effective s changes r ∧ ∀ id, r.find? id = (w.frames.find? id).or (s.find? id)) ∧
      ∀ settings operations operation, (∀ o ∈ operations, o.Orderly) → operation.Orderly →
        ∀ block reason, (((Session.new settings).performAll operations).perform operation).2 ≠
          .error (.invalidChange block reason) := by
  refine ⟨?_, ?_⟩
  · intro text program paragraphs compiled read injective i b block
    have within : i < (Program.sources paragraphs).length := by
      rw [← (Program.blocks_of_compile compiled read).1]
      exact (List.getElem?_eq_some_iff.mp block).1
    have source := List.getElem?_eq_getElem within
    refine ⟨_, source, ?_⟩
    intro s changes tidy asked
    obtain ⟨own, parsed, apart⟩ := Program.body_of_compile compiled read injective source block
    rw [own] at asked
    obtain ⟨w, r, ran, same, base, reflects⟩ := Program.reflects_of_routine tidy parsed apart asked
    refine ⟨w, r, ran, same, ?_, ?_⟩
    · have effective := reflects.effective
      rwa [base, same] at effective
    · intro id
      rw [← reflects.seen, Program.Workspace.find?, base]
  · intro settings operations operation before orderly block reason answered
    have fresh : Grounded Timeline.Orderly (Session.new settings) := .idle rfl rfl rfl
    obtain ⟨grounded, own⟩ := fresh.performAll rfl before
    have recoverable := (grounded.performs own orderly).2 _ answered
    cases recoverable

/-- The only paragraph of the text below: a block that creates a table, since one of its cells is not a
constant. -/
def summing : Program.Paragraph :=
  ⟨none, 1, [⟨1, .define "s" (.literal ⟨["x", "y"],
    [[.binary .add (.number .one) (.number .zero), .number .zero]]⟩)⟩]⟩

/-- The block creates its table on the empty store, and commits of a client who defines another one go
well or fail for a reason of their own. -/
theorem compiled_blocks_keep_to_copies_summing :
    ∃ program b changes, Program.compile "#s = [x y | (1 + 0), 0]" = .ok program ∧
      Program.readProgram "#s = [x y | (1 + 0), 0]" = .ok [summing] ∧
      Set.InjOn Ident.of (Program.createdColumns [summing]) ∧
      program.blocks[0]? = some b ∧ Store.empty.Tidy ∧ b.routine .empty = .ok changes ∧
      (∃ w r, Program.runLines (.start .empty) summing.body = .ok w ∧ w.changes = changes ∧
        Effective .empty changes r ∧ ∀ id, r.find? id = (w.frames.find? id).or none) ∧
      ∀ block reason, (((Session.new .default).performAll
        [.compile "#s = [x y | (1 + 0), 0]",
          .request (.queue (.define ⟨1⟩ "u" [⟨"a", ⟨2⟩, .number⟩]))]).perform
            (.request .commit)).2 ≠ .error (.invalidChange block reason) := by
  have read : Program.readProgram "#s = [x y | (1 + 0), 0]" = .ok [summing] := by cbv
  obtain ⟨program, added⟩ : ∃ program, Program.addParagraphs Program.empty [summing] = .ok program :=
    ⟨_, rfl⟩
  have compiled : Program.compile "#s = [x y | (1 + 0), 0]" = .ok program :=
    bind_eq_ok_iff.mpr ⟨_, read, added⟩
  have injective : Set.InjOn Ident.of (Program.createdColumns [summing]) := by
    have apart : Ident.of "x" ≠ Ident.of "y" := by decide +kernel
    have two : Program.createdColumns [summing] ⊆ {"x", "y"} := by
      rintro name ⟨p, inText, line, inLines, named⟩
      obtain rfl := List.mem_singleton.mp inText
      obtain rfl := List.mem_singleton.mp inLines
      simpa [Program.Statement.columnNames, Program.Source.columnNames,
        Program.Literal.columnNames] using named
    exact (Set.injOn_pair.mpr fun same => absurd same apart).mono two
  have apart : Program.ColumnsApart "#s = [x y | (1 + 0), 0]" := by
    intro paragraphs reread
    cases read.symm.trans reread
    exact injective
  obtain ⟨b, changes, block, asked⟩ :
      ∃ b changes, program.blocks[0]? = some b ∧ b.routine .empty = .ok changes := by
    cases added
    exact ⟨_, _, rfl, rfl⟩
  refine ⟨program, b, changes, compiled, read, injective, block, Store.tidy_empty, asked, ?_, ?_⟩
  · obtain ⟨p, source, keeps⟩ :=
      compiled_blocks_keep_to_copies.1 _ _ _ compiled read injective 0 b block
    cases source
    exact keeps .empty changes Store.tidy_empty asked
  · refine compiled_blocks_keep_to_copies.2 .default _ (.request .commit) ?_ trivial
    rintro operation (_ | ⟨_, _ | ⟨_, ⟨⟩⟩⟩)
    · exact apart
    · exact List.nodup_singleton _

end Ripple
