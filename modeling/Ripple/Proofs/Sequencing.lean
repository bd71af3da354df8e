import Ripple.Program.Compilation
import Ripple.Proofs.Mentions
import Ripple.Proofs.WorkingCopies

/-!
Statements behave as if they were carried out on the store one after the other. A block writes to
working copies only, so the second half of its statements runs on a store with the copies of the first
half laid over it. Such a state and the store that the changes of the first half lead to cannot be told
apart (`Alike`), and expressions, statements and whole lists of them come to the same on both, as long
as the second half uses no name that the first one gave.
-/

namespace Ripple.Program

/-- Some line gives a value the name. -/
def Assigns (lines : List Line) (name : String) : Prop :=
  ∃ line ∈ lines, line.statement.assignedName? = some name

/-- Every name is used only after an earlier one of the lines gave it to a value. -/
def ReadsOwn (lines : List Line) : Prop :=
  ∀ before line after, lines = before ++ line :: after →
    ∀ e ∈ line.statement.exprs, ∀ name ∈ e.names, Assigns before name

theorem uses_of_checkNames {known : List String} {lines : List Line}
    (checked : checkNames known lines = .ok ()) {before after : List Line} {line : Line}
    (split : lines = before ++ line :: after) {e : Expr} (member : e ∈ line.statement.exprs)
    {name : String} (uses : name ∈ e.names) : name ∈ known ∨ Assigns before name := by
  induction before generalizing known lines with
  | nil =>
    rw [split, List.nil_append, checkNames] at checked
    split at checked
    · cases checked
    · next all =>
      have held := List.find?_eq_none.mp all name (List.mem_flatMap.mpr ⟨e, member, uses⟩)
      exact .inl (by simpa using held)
  | cons first before ih =>
    rw [split, List.cons_append, checkNames] at checked
    split at checked
    · cases checked
    · rcases ih checked rfl with here | ⟨earlier, inBefore, assigns⟩
      · rcases List.mem_append.mp here with given | old
        · exact .inr ⟨first, List.mem_cons_self, Option.mem_toList.mp given⟩
        · exact .inl old
      · exact .inr ⟨earlier, List.mem_cons_of_mem _ inBefore, assigns⟩

/-- The lines of a block that compiles use names of their own. -/
theorem readsOwn_of_checkNames {lines : List Line} (checked : checkNames [] lines = .ok ()) :
    ReadsOwn lines := by
  intro before line after split e member name uses
  rcases uses_of_checkNames checked split member uses with ⟨⟨⟩⟩ | assigns
  exact assigns

/-- Two states with the same tables and the same values of the known names. -/
structure Workspace.Alike (known : String → Prop) (w v : Workspace) : Prop where
  tables : ∀ id, w.find? id = v.find? id
  names : ∀ name, known name → w.names.lookup name = v.names.lookup name

variable {known : String → Prop} {w v : Workspace}

/-! ## Expressions -/

namespace Workspace.Alike

theorem table (alike : w.Alike known v) (name : String) : w.table name = v.table name := by
  rw [Workspace.table, Workspace.table, alike.tables]

/-- The value of an expression is the same as long as the names it uses are known. -/
theorem eval (alike : w.Alike known v) {e : Expr} (uses : ∀ name ∈ e.names, known name) :
    e.eval w = e.eval v :=
  Expr.eval_congr (fun name member => alike.names name (uses name member)) fun t _ _ => alike.tables (.of t)

theorem evalLiteral (alike : w.Alike known v) {l : Literal}
    (uses : ∀ e ∈ l.rows.flatten, ∀ name ∈ e.names, known name) : l.eval w = l.eval v := by
  refine mapM_congr fun cells inRows => mapM_congr fun e inRow => ?_
  have same := alike.eval (uses e (List.mem_flatten.mpr ⟨cells, inRows, inRow⟩))
  simp only [Expr.evalCell, same]

/-! ## Statements -/

/-- A statement does the same in states that are alike. -/
theorem action (alike : w.Alike known v) {s : Statement}
    (uses : ∀ e ∈ s.exprs, ∀ name ∈ e.names, known name) : s.action w = s.action v := by
  cases s with
  | watch table column => rfl
  | define table source =>
    have same : source.eval w = source.eval v := by
      cases source with
      | literal l => simp only [Source.eval, alike.evalLiteral uses]
      | formula e => simp only [Source.eval, alike.eval (uses e List.mem_cons_self)]
    simp only [Statement.action, same, Workspace.defineTable, alike.tables]
  | set table column index op value =>
    have picked : index.mapM (Expr.eval w) = index.mapM (Expr.eval v) := by
      cases index with
      | none => rfl
      | some index =>
        have own : index.eval w = index.eval v :=
          alike.eval (uses index (List.mem_cons_of_mem _ (List.mem_singleton_self index)))
        exact congrArg (·.map some) own
    simp only [Statement.action, Workspace.setColumn, alike.eval (uses value List.mem_cons_self),
      picked, alike.table]
  | append table l =>
    simp only [Statement.action, Workspace.appendRows, alike.evalLiteral uses, alike.table]
  | assign name value =>
    simp only [Statement.action, alike.eval (uses value (List.mem_singleton_self value))]

end Workspace.Alike

/-- The changes that an action adds. -/
def Action.changes : Action → List Change
  | .write d => d.changes
  | _ => []

theorem changes_perform (w : Workspace) (action : Action) :
    (w.perform action).changes = w.changes ++ action.changes := by
  cases action <;> simp [Workspace.perform, Workspace.adopt, Action.changes]

theorem lookup_cons {name n : String} {values : List Value} {names : List (String × List Value)} :
    List.lookup n ((name, values) :: names) = if n = name then some values else names.lookup n := by
  rw [List.lookup_cons]
  by_cases same : n = name
  · simp [same]
  · rw [if_neg same, beq_eq_false_iff_ne.mpr same]

/-- What is done to states that are alike leaves them alike, and a name that was given is known. -/
theorem Workspace.Alike.perform (alike : w.Alike known v) {s : Statement} {action : Action}
    (acts : s.action w = .ok action) :
    (w.perform action).Alike (fun name => known name ∨ s.assignedName? = some name)
      (v.perform action) := by
  have given : ∀ name, s.assignedName? = some name → ∃ values, action = .name name values := by
    intro name assigns
    cases s with
    | assign other value =>
      cases assigns
      obtain ⟨values, -, result⟩ := bind_eq_ok_iff.mp acts
      cases result
      exact ⟨values, rfl⟩
    | _ => cases assigns
  cases action with
  | nothing =>
    refine ⟨alike.tables, ?_⟩
    rintro name (old | assigns)
    · exact alike.names name old
    · obtain ⟨_, ⟨⟩⟩ := given name assigns
  | write d =>
    refine ⟨?_, ?_⟩
    · intro id
      rw [Workspace.perform, Workspace.perform, find?_adopt, find?_adopt, alike.tables]
    · rintro name (old | assigns)
      · exact alike.names name old
      · obtain ⟨_, ⟨⟩⟩ := given name assigns
  | name other values =>
    refine ⟨alike.tables, ?_⟩
    intro name known'
    simp only [Workspace.perform, lookup_cons]
    split
    · rfl
    · next apart =>
      rcases known' with old | assigns
      · exact alike.names name old
      · obtain ⟨_, same⟩ := given name assigns
        cases same
        exact absurd rfl apart

/-! ## Lines -/

theorem runLines_append (w : Workspace) (lines more : List Line) :
    runLines w (lines ++ more) = runLines w lines >>= (runLines · more) := by
  induction lines generalizing w with
  | nil => rfl
  | cons line rest ih =>
    rw [List.cons_append, runLines, runLines]
    cases line.statement.run w with
    | error fault => rfl
    | ok after => exact ih after

theorem evaluate_eq_map (lines : List Line) (s : Store) :
    evaluate lines s = (runLines (.start s) lines).map Workspace.changes := by
  rw [evaluate]
  cases runLines (.start s) lines <;> rfl

/-- Lines that use only names of their own and those known come to the same in states that are
alike. -/
theorem Workspace.Alike.runLines {done lines : List Line} (alike : w.Alike (Assigns done) v)
    (own : ReadsOwn (done ++ lines)) :
    ∃ result : Except LineFault (List Change),
      (Program.runLines w lines).map Workspace.changes = result.map (w.changes ++ ·) ∧
        (Program.runLines v lines).map Workspace.changes = result.map (v.changes ++ ·) := by
  induction lines generalizing w v done with
  | nil => exact ⟨.ok [], by simp [Program.runLines, Except.map]⟩
  | cons line rest ih =>
    have same := alike.action (own done line rest rfl)
    cases acts : line.statement.action w with
    | error fault =>
      refine ⟨.error ⟨line.number, fault⟩, ?_⟩
      simp [Program.runLines, Statement.run, ← same, acts, bind, Except.bind, Except.map]
    | ok action =>
      have next : (w.perform action).Alike (Assigns (done ++ [line])) (v.perform action) := by
        have performed := alike.perform acts
        refine ⟨performed.tables, ?_⟩
        rintro name ⟨earlier, member, assigns⟩
        rcases List.mem_append.mp member with old | new
        · exact performed.names name (.inl ⟨earlier, old, assigns⟩)
        · exact performed.names name (.inr (List.mem_singleton.mp new ▸ assigns))
      obtain ⟨result, left, right⟩ := ih next (by simpa using own)
      refine ⟨result.map (action.changes ++ ·), ?_⟩
      simp only [Program.runLines, Statement.run, ← same, acts, bind, Except.bind, pure, Except.pure,
        left, right, changes_perform]
      cases result <;> simp [Except.map]

/-- **Statements take effect one after the other.** Let the second part of a block use no name that it
did not give itself. If the first part fails, so does the whole, with the same fault. Otherwise its
changes can be carried out on the store, and the whole comes to these changes and those that the second
part makes to the store after them, or to the fault it has there. -/
theorem evaluate_append {s : Store} (tidy : s.Tidy) {first second : List Line}
    (parsed : ∀ line ∈ first, line.Parsed) (own : ReadsOwn second)
    (injective : Set.InjOn Ident.of (columnNames first)) :
    (∀ fault, evaluate first s = .error fault → evaluate (first ++ second) s = .error fault) ∧
      ∀ changes, evaluate first s = .ok changes → ∃ r, carryOut s changes = .ok r ∧
        evaluate (first ++ second) s = (evaluate second r).map (changes ++ ·) := by
  simp only [evaluate_eq_map, runLines_append]
  cases ran : runLines (.start s) first with
  | error fault =>
    refine ⟨fun other same => same, ?_⟩
    rintro changes ⟨⟩
  | ok w =>
    refine ⟨?_, ?_⟩
    · rintro fault ⟨⟩
    · rintro changes ⟨⟩
      obtain ⟨base, r, reflects⟩ := (Workspace.Reflects.start tidy).runLines
        (fun line member => (parsed line member).formed) injective ran
      have alike : w.Alike (Assigns []) (.start r) := by
        refine ⟨?_, ?_⟩
        · intro id
          rw [reflects.seen, (Workspace.Reflects.start reflects.tidy).seen]
        · rintro name ⟨line, ⟨⟩, -⟩
      obtain ⟨result, left, right⟩ := alike.runLines own
      refine ⟨r, ?_, ?_⟩
      · have effective := reflects.effective
        rw [base] at effective
        exact effective.carryOut
      · have alone : (runLines (.start r) second).map Workspace.changes = result := by
          rw [right]
          cases result <;> rfl
        rw [alone]
        exact left

/-- A table with two columns is created. -/
def creating : List Line :=
  [⟨1, .define "s" (.literal ⟨["x", "y"], [[.number .one, .number .zero]]⟩)⟩]

/-- One of its columns is copied to the other, by way of a name. -/
def copyingOver : List Line :=
  [⟨2, .assign "z" (.column "s" (some "x"))⟩, ⟨3, .set "s" "y" none .assign (.name "z")⟩]

/-- The second part finds the table although it is not in the store of the block. -/
theorem evaluate_append_created :
    (∀ line ∈ creating, line.Parsed) ∧ ReadsOwn copyingOver ∧
      Set.InjOn Ident.of (columnNames creating) ∧
      ∃ changes r, evaluate creating .empty = .ok changes ∧ carryOut .empty changes = .ok r ∧
        evaluate (creating ++ copyingOver) .empty = (evaluate copyingOver r).map (changes ++ ·) := by
  have parsed : ∀ line ∈ creating, line.Parsed := by
    intro line member
    obtain rfl := List.mem_singleton.mp member
    exact ⟨"#s = [x y | 1, 0]".toList, by cbv⟩
  have own : ReadsOwn copyingOver := readsOwn_of_checkNames rfl
  have injective : Set.InjOn Ident.of (columnNames creating) := by
    have apart : Ident.of "x" ≠ Ident.of "y" := by decide +kernel
    have two : columnNames creating ⊆ {"x", "y"} := by
      rintro name ⟨line, member, named⟩
      obtain rfl := List.mem_singleton.mp member
      simpa [Statement.columnNames, Source.columnNames, Literal.columnNames] using named
    exact (Set.injOn_pair.mpr fun same => absurd same apart).mono two
  have evaluated : evaluate creating .empty = .ok _ := rfl
  obtain ⟨r, carried, whole⟩ := (evaluate_append Store.tidy_empty parsed own injective).2 _ evaluated
  exact ⟨parsed, own, injective, _, r, evaluated, carried, whole⟩

end Ripple.Program
