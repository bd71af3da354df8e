import Ripple.Proofs.FrameStatements
import Ripple.Proofs.Sequencing

/-!
Positions in range. Of a program that was read, literals have rows as long as their headers, so that neither
a declaration nor a block takes a position that is not there: carried out by position they do what they do
on tables, and fail where they fail there (`positions_in_range`). Meanwhile every working copy is
rectangular.
-/

namespace Ripple.Program

/-! ## Declarations -/

section

variable {ε α : Type}

/-- The fault, if there is one. -/
def refuse : Option ε → Except ε Unit
  | some fault => .error fault
  | none => .ok ()

theorem forM_refuse (f : α → Option ε) (items : List α) :
    (items.forM fun x => refuse (f x)) = refuse (items.findSome? f) := by
  induction items with
  | nil => rfl
  | cons x rest ih =>
    change (refuse (f x) >>= fun _ => rest.forM fun x => refuse (f x)) = _
    rw [List.findSome?_cons, ih]
    cases f x <;> rfl

theorem forM_congr {f g : α → Except ε Unit} {items : List α} (same : ∀ x ∈ items, f x = g x) :
    items.forM f = items.forM g := by
  induction items with
  | nil => rfl
  | cons x rest ih =>
    obtain ⟨here, later⟩ := List.forall_mem_cons.mp same
    change (f x >>= fun _ => rest.forM f) = (g x >>= fun _ => rest.forM g)
    rw [here, ih later]

end

/-- A row that is as long as there are kinds is compared with each of them. -/
theorem compareKinds_eq (table : String) {kinds : List Kind} {row : Row} (r : Nat)
    (width : row.length = kinds.length) :
    compareKinds table kinds row r =
      inRange (refuse (((row.zip kinds).zipIdx 1).findSome? fun p =>
        if p.1.1.kind = p.1.2 then none else some (.mixedKinds table p.2 p.1.2 p.1.1.kind r))) := by
  -- Values with their kinds, counted from one, against values alone, counted from zero.
  have paired : (row.zip kinds).zipIdx 1 =
      row.zipIdx.map fun p => ((p.1, kinds.getD p.2 .number), p.2 + 1) := by
    refine List.ext_getElem (by simp [width]) fun i inside _ => ?_
    have inKinds : i < kinds.length := by simpa [width] using inside
    simp [inKinds, Nat.add_comm]
  rw [compareKinds, paired, List.findSome?_map, ← forM_refuse, ← forM_inRange]
  refine forM_congr ?_
  rintro ⟨value, c⟩ member
  have inKinds : c < kinds.length := width ▸ (List.mem_zipIdx' member).1
  have there : kinds[c]? = some (kinds.getD c .number) := by simp [inKinds]
  dsimp only [Function.comp_apply]
  rw [reach_of_getElem? there]
  change (if _ then _ else _) = _
  split <;> rfl

/-- A declaration of rows of one length takes the kind of each of its columns where there is one. -/
theorem declareByPosition_eq {table : String} {names : List String} {rows : List Row}
    (width : ∀ row ∈ rows, row.length = (rows.headD []).length) :
    declareByPosition table names rows = inRange (declare table names rows) := by
  have compared : ∀ kinds : List Kind, (∀ row ∈ rows, row.length = kinds.length) →
      ((rows.zipIdx 1).forM fun p => compareKinds table kinds p.1 p.2) =
        inRange (refuse (mixedKinds? table kinds rows)) := by
    intro kinds even
    rw [mixedKinds?, ← forM_refuse, ← forM_inRange]
    refine forM_congr ?_
    rintro ⟨row, r⟩ member
    exact compareKinds_eq table r (even row (List.fst_mem_of_mem_zipIdx member))
  unfold declareByPosition declare
  cases rows with
  | nil => rfl
  | cons first rest =>
    change (((first :: rest).zipIdx 1).forM (fun p => compareKinds table _ p.1 p.2) >>= _) = _
    rw [compared _ (by simpa using width), List.headD_cons]
    cases mixedKinds? table (first.map Value.kind) (first :: rest) <;> rfl

/-- The rows of a literal that was read are of one length. -/
theorem declareByPosition_of_formed {s : Statement} {table : String} {names : List String} {rows : List Row}
    (formed : s.Formed) (constants : s.constants? = some (table, names, rows)) :
    declareByPosition table names rows = inRange (declare table names rows) := by
  obtain ⟨_, source, _, _, rfl, known⟩ := exists_of_constants (Option.isSome_iff_exists.mpr ⟨_, constants⟩)
  rw [Statement.constants?, known] at constants
  cases constants
  have written : source.Formed := formed
  refine declareByPosition_eq ?_
  cases rows with
  | nil => simp
  | cons first rest =>
    exact (lengths_of_eval written (eval_of_constants known (.start .empty)) List.mem_cons_self).2

/-! ## Runs -/

/-- Before each of the lines, the tables that the block finds have fewer than `2 ^ 53` rows. -/
def StaysSmall (w : Workspace) (lines : List Line) : Prop :=
  ∀ before line after middle, lines = before ++ line :: after → runLines w before = .ok middle →
    ∀ id t, middle.find? id = some t → t.rowCount < 2 ^ 53

section

variable {w : Workspace} {line : Line} {lines rest : List Line}

theorem StaysSmall.head (small : StaysSmall w (line :: rest)) :
    ∀ id t, w.find? id = some t → t.rowCount < 2 ^ 53 :=
  small [] line rest w rfl rfl

theorem StaysSmall.tail (small : StaysSmall w (line :: rest)) {middle : Workspace}
    (ran : line.statement.run w = .ok middle) : StaysSmall middle rest := by
  intro before next after last split reached
  refine small (line :: before) next after last (by rw [split, List.cons_append]) ?_
  exact runLines_cons_eq_ok_iff.mpr ⟨middle, ran, reached⟩

/-- Tables never lose rows, so that it is enough to look at the end. -/
theorem staysSmall_of_runLines {last : Workspace} (ran : runLines w lines = .ok last)
    (small : ∀ id t, last.find? id = some t → t.rowCount < 2 ^ 53) : StaysSmall w lines := by
  intro before line after middle split reached id t found
  rw [split, runLines_append, reached] at ran
  obtain ⟨u, there, -, rows⟩ := Workspace.keeps_of_runLines ran found
  exact Nat.lt_of_le_of_lt rows (small id u there)

theorem StaysSmall.left {before after : List Line} (small : StaysSmall w (before ++ after)) :
    StaysSmall w before := by
  intro earlier line later middle split reached
  exact small earlier line (later ++ after) middle (by rw [split]; simp) reached

/-- A run leads from frames to frames, and fails where it fails on tables. -/
theorem Env.runLines_of (regular : ∀ id t, w.find? id = some t → t.Regular)
    (small : StaysSmall w lines) (formed : ∀ line ∈ lines, line.statement.Formed) :
    (of w).runLines lines = inRange ((Program.runLines w lines).map of) := by
  induction lines generalizing w with
  | nil => rfl
  | cons line rest ih =>
    obtain ⟨here, later⟩ := List.forall_mem_cons.mp formed
    unfold runLines Program.runLines
    rw [run_of ⟨regular, small.head⟩ here]
    cases ran : line.statement.run w with
    | error fault => rfl
    | ok middle =>
      have first : Program.runLines w [line] = .ok middle :=
        runLines_cons_eq_ok_iff.mpr ⟨middle, ran, rfl⟩
      exact ih (Workspace.regular_of_runLines first regular) (small.tail ran) later

theorem Env.evaluate_eq {s : Store}
    (regular : ∀ id t, (Workspace.start s).find? id = some t → t.Regular)
    (small : StaysSmall (.start s) lines) (formed : ∀ line ∈ lines, line.statement.Formed) :
    evaluate lines s = inRange (Program.evaluate lines s) := by
  have ran : (start s).runLines lines = inRange ((Program.runLines (.start s) lines).map of) :=
    runLines_of regular small formed
  unfold evaluate Program.evaluate
  rw [ran]
  cases Program.runLines (.start s) lines <;> rfl

/-- Every working copy has a list of cells for each column, as long as there are rows. -/
theorem Env.rectangular_of_runLines (regular : ∀ id t, w.find? id = some t → t.Regular)
    (small : StaysSmall w lines) (formed : ∀ line ∈ lines, line.statement.Formed) {env : Env}
    (ran : (of w).runLines lines = .ok env) {id : Ident} {f : Frame} (held : env.frames id = some f) :
    f.Rectangular := by
  rw [runLines_of regular small formed, inRange_eq_ok_iff] at ran
  cases reached : Program.runLines w lines with
  | error fault =>
    rw [reached] at ran
    cases ran
  | ok last =>
    rw [reached] at ran
    cases ran
    obtain ⟨t, copied, rfl⟩ := Option.map_eq_some_iff.mp held
    have found : last.find? id = some t := by rw [Workspace.find?, copied, Option.some_or]
    exact Frame.rectangular_load (Workspace.regular_of_runLines reached regular id t found)

end

/-- **Positions are in range.** Reading a text ends, and then every table literal has different column
names, no empty row and rows of its width. Carried out by position, the declarations and blocks of the
program do what they do on tables, and they never halt: a declaration finds a kind for every value, and the
evaluation of lines of the program on a sound store gives changes or a fault, if the tables have fewer than
`2 ^ 53` rows all along. After every line the working copies are rectangular. An index picks rows below the
number of rows only. -/
theorem positions_in_range (text : String) :
    ((∃ e, readProgram text = .error e) ∨
      ∃ paragraphs, readProgram text = .ok paragraphs ∧
        (∀ p ∈ paragraphs, ∀ line ∈ p.lines, line.statement.Formed ∧
          ∀ table names rows, line.statement.constants? = some (table, names, rows) →
            declareByPosition table names rows ≠ .error .outOfRange ∧
              declareByPosition table names rows = inRange (declare table names rows)) ∧
        ∀ lines, (∀ line ∈ lines, ∃ p ∈ paragraphs, line ∈ p.lines) →
          ∀ s : Store, s.Sound → StaysSmall (.start s) lines →
            Env.evaluate lines s ≠ .error .outOfRange ∧
            Env.evaluate lines s = inRange (evaluate lines s) ∧
            ∀ before env, before <+: lines → (Env.start s).runLines before = .ok env →
              ∀ id f, env.frames id = some f → f.Rectangular) ∧
    ∀ (index : List Value) (rowCount : Nat), rowCount < 2 ^ 53 →
      select index rowCount ≠ .error .outOfRange ∧
        ∀ rows, select index rowCount = .ok rows → ∀ r ∈ rows, r < rowCount := by
  refine ⟨?_, fun index rowCount small => ?_⟩
  · cases read : readProgram text with
    | error e => exact .inl ⟨e, rfl⟩
    | ok paragraphs =>
      have formed : ∀ p ∈ paragraphs, ∀ line ∈ p.lines, line.statement.Formed :=
        fun p inside line member => (lines_parsed read p inside line member).formed
      refine .inr ⟨paragraphs, rfl, fun p inside line member => ⟨formed p inside line member, ?_⟩, ?_⟩
      · intro table names rows constants
        have declared := declareByPosition_of_formed (formed p inside line member) constants
        exact ⟨declared ▸ inRange_ne_outOfRange _, declared⟩
      · intro lines own s sound small
        have regular : ∀ id t, (Workspace.start s).find? id = some t → t.Regular := fun id t found =>
          sound.regular_of_find? ((Workspace.find?_start s id).symm.trans found)
        have each : ∀ line ∈ lines, line.statement.Formed := by
          intro line member
          obtain ⟨p, inside, there⟩ := own line member
          exact formed p inside line there
        have evaluated := Env.evaluate_eq regular small each
        refine ⟨evaluated ▸ inRange_ne_outOfRange _, evaluated, ?_⟩
        rintro before env ⟨after, rfl⟩ reached id f held
        refine Env.rectangular_of_runLines regular small.left ?_ reached held
        exact fun line member => each line (List.mem_append_left after member)
  · exact ⟨select_eq small ▸ inRange_ne_outOfRange _, fun rows => select_lt small⟩

/-- A table is declared below a header. Then a row is added, the cell that a mask picks is set, and the row
that a number picks is copied. -/
def pairThenPick : String :=
  "#u = [a b | 1 0; 0 1]\n\n#t += [x: 0]\n#t.x\x7b#t.x == 1\x7d := 0\n#s = #t.x\x7b1\x7d"

/-- The declaration. -/
def declaredPair : Line :=
  ⟨1, .define "u" (.literal ⟨["a", "b"], [[.number .one, .number .zero], [.number .zero, .number .one]]⟩)⟩

/-- The lines of the block. -/
def addAndPick : List Line :=
  [⟨3, .append "t" ⟨["x"], [[.number .zero]]⟩⟩,
    ⟨4, .set "t" "x" (some (.binary .eq (.column "t" (some "x")) (.number .one))) .assign (.number .zero)⟩,
    ⟨5, .define "s" (.formula (.pick "t" (some "x") (.number .one)))⟩]

/-- The declaration and the block get along with the positions there are. -/
theorem positions_in_range_picking :
    readProgram pairThenPick = .ok [⟨none, 1, [declaredPair]⟩, ⟨none, 3, addAndPick⟩] ∧
      (∃ table names rows d, declaredPair.statement.constants? = some (table, names, rows) ∧
        declareByPosition table names rows = .ok d ∧ d.rows.length = 2) ∧
      (∃ changes, Env.evaluate addAndPick ⟨[numbers]⟩ = .ok changes ∧ changes.length = 4) ∧
      (∀ env, (Env.start ⟨[numbers]⟩).runLines addAndPick = .ok env →
        ∀ id f, env.frames id = some f → f.Rectangular) ∧
      ∀ rows, select [.bool true, .bool false] 2 = .ok rows → ∀ r ∈ rows, r < 2 := by
  have read : readProgram pairThenPick = .ok [⟨none, 1, [declaredPair]⟩, ⟨none, 3, addAndPick⟩] := by cbv
  obtain ⟨last, ran, counts⟩ : ∃ last, runLines (.start ⟨[numbers]⟩) addAndPick = .ok last ∧
      ∀ t ∈ last.frames.tables ++ last.base.tables, t.rowCount < 2 ^ 53 := by
    have counted : (runLines (.start ⟨[numbers]⟩) addAndPick).toOption.any (fun w =>
        (w.frames.tables ++ w.base.tables).all (·.rowCount < 2 ^ 53)) = true := by decide +kernel
    cases ran : runLines (.start ⟨[numbers]⟩) addAndPick with
    | error fault =>
      rw [ran] at counted
      cases counted
    | ok last =>
      rw [ran] at counted
      exact ⟨last, rfl, fun t member => of_decide_eq_true (List.all_eq_true.mp counted t member)⟩
  have small : StaysSmall (.start ⟨[numbers]⟩) addAndPick := by
    refine staysSmall_of_runLines ran fun id t found => counts t (List.mem_append.mpr ?_)
    rcases Option.or_eq_some_iff.mp found with copied | ⟨-, there⟩
    · exact .inl (List.mem_of_find?_eq_some copied)
    · exact .inr (List.mem_of_find?_eq_some there)
  obtain ⟨program, selected⟩ := positions_in_range pairThenPick
  obtain ⟨e, failed⟩ | ⟨paragraphs, read', declared, evaluated⟩ := program
  · cases read.symm.trans failed
  · obtain rfl := Except.ok.inj (read.symm.trans read')
    have second : (⟨none, 3, addAndPick⟩ : Paragraph) ∈ [⟨none, 1, [declaredPair]⟩, ⟨none, 3, addAndPick⟩] := by simp
    obtain ⟨-, same, shapes⟩ := evaluated addAndPick (fun line member => ⟨_, second, member⟩) ⟨[numbers]⟩
      sound_numbers small
    refine ⟨read, ?_, ?_, fun env reached => shapes addAndPick env List.prefix_rfl reached, ?_⟩
    · obtain ⟨-, positions⟩ := declared _ List.mem_cons_self declaredPair List.mem_cons_self
      obtain ⟨table, names, rows, d, known, done, two⟩ : ∃ table names rows d,
          declaredPair.statement.constants? = some (table, names, rows) ∧
            declare table names rows = .ok d ∧ d.rows.length = 2 := ⟨_, _, _, _, rfl, rfl, rfl⟩
      exact ⟨table, names, rows, d, known, (positions _ _ _ known).2.trans (done ▸ rfl), two⟩
    · have four : (evaluate addAndPick ⟨[numbers]⟩).toOption.any (·.length = 4) = true := by decide +kernel
      cases done : evaluate addAndPick ⟨[numbers]⟩ with
      | error fault =>
        rw [done] at four
        cases four
      | ok changes =>
        rw [done] at four
        exact ⟨changes, same.trans (done ▸ rfl), by simpa [Except.toOption] using four⟩
    · exact (selected [.bool true, .bool false] 2 (by decide)).2

/-- A row that is shorter than the header, as no literal that was read has one, is not got through. -/
example : (Env.start ⟨[numbers]⟩).appendRows "t" ⟨["x"], [[]]⟩ = .error .outOfRange := by decide +kernel

end Ripple.Program
