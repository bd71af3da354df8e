import Ripple.Proofs.FrameExpressions
import Ripple.Proofs.TableCopies

/-!
Statements on frames. From the frames of its working copies a block goes on to the frames of the working
copies that it goes on to with tables, and fails where it fails there (`Env.run_of`). It takes a position
that is not there nowhere: the rows of a literal are as long as its header, rows are checked before they
are written, and an index picks rows that are there.
-/

namespace Ripple.Program

/-! ## Setting cells -/

/-- What an assigned row is given, by the position of the row among those assigned. -/
def Assigned (values : List Value) (pick : Nat × Nat) (given : Nat × Value) : Prop :=
  pick.1 = given.1 ∧ values[if values.length = 1 then 0 else pick.2]? = some given.2

section

variable {values : List Value} {rows : List Nat}

theorem assignRows_of_ne_one (many : values.length ≠ 1) :
    assignRows values rows =
      if values.length = rows.length then .ok (rows.zip values)
      else .error (.assignedCount values.length rows.length) := by
  unfold assignRows
  split
  · exact absurd rfl many
  · rfl

theorem assigned_of_assignRows {given : List (Nat × Value)} (assigns : assignRows values rows = .ok given) :
    List.Forall₂ (Assigned values) rows.zipIdx given := by
  by_cases single : values.length = 1
  · obtain ⟨value, rfl⟩ := List.length_eq_one_iff.mp single
    cases assigns
    refine List.forall₂_iff_get.mpr ⟨by simp, fun i _ _ => ?_⟩
    simp [Assigned]
  · rw [assignRows_of_ne_one single] at assigns
    split at assigns
    · next same =>
      cases assigns
      refine List.forall₂_iff_get.mpr ⟨by simp [same], fun i inRows _ => ?_⟩
      have inside : i < values.length := by simpa [same] using inRows
      simp [Assigned, single, inside]
    · cases assigns

/-- Values are refused if they are neither one nor as many as the rows. -/
theorem assignRows_eq_error (wrong : values.length ≠ 1 ∧ values.length ≠ rows.length) :
    assignRows values rows = .error (.assignedCount values.length rows.length) := by
  rw [assignRows_of_ne_one wrong.1, if_neg wrong.2]

theorem exists_assignRows (right : ¬ (values.length ≠ 1 ∧ values.length ≠ rows.length)) :
    ∃ given, assignRows values rows = .ok given := by
  by_cases single : values.length = 1
  · obtain ⟨value, rfl⟩ := List.length_eq_one_iff.mp single
    exact ⟨_, rfl⟩
  · rw [assignRows_of_ne_one single]
    exact ⟨_, if_pos (not_not.mp fun differ => right ⟨single, differ⟩)⟩

end

namespace FrameDraft

variable {d : Draft} {op : SetOp} {row column : Nat}

theorem result_of {old : Value} (held : d.table.cell? row column = some old) (given : Value) :
    (of d).result op row column given = inRange (op.result old given) := by
  obtain ⟨c, declared, there⟩ := Table.cell_eq_some_iff.mp held
  unfold result SetOp.result
  cases op.operation? with
  | none => rfl
  | some op =>
    dsimp only [of]
    rw [reach_data declared]
    simp only [bind, Except.bind, reach_of_getElem? there]

/-- Rows that are there are set. -/
theorem setCells_of {table name : String} {kind : Kind} {values : List Value} {picks : List (Nat × Nat)}
    {given : List (Nat × Value)} (assigned : List.Forall₂ (Assigned values) picks given)
    (own : d.table.id = .of table) (regular : d.table.Regular)
    (inside : ∀ pick ∈ picks, pick.1 < d.table.rowCount)
    (takes : ∀ value : Value, value.kind = kind → d.table.checkKind column value = .ok ()) :
    setCells op table name column kind values (of d) picks =
      inRange ((Program.setCells op table name column kind d given).map of) := by
  induction assigned generalizing d with
  | nil => rfl
  | @cons pick given picks rest first others ih =>
    obtain ⟨row, position⟩ := pick
    obtain ⟨row', value⟩ := given
    obtain ⟨here, later⟩ := List.forall_mem_cons.mp inside
    obtain ⟨rfl, taken⟩ := first
    have writable (v : Value) (right : v.kind = kind) : d.table.checkWrite row column v = .ok () :=
      Table.checkWrite_eq_ok_iff.mpr ⟨takes v right, here⟩
    -- The cell is read before anything is known of the new value, so that it takes a value known to fit.
    have ofKind : kind.default.kind = kind := by cases kind <;> rfl
    obtain ⟨old, held, -⟩ := Table.cell_of_checkWrite regular (writable _ ofKind)
    unfold setCells Program.setCells
    rw [reach_of_getElem? taken, held, Option.getD_some]
    simp only [bind, Except.bind]
    rw [result_of held]
    refine inRange_step_map fun new _ => ?_
    by_cases right : new.kind = kind
    · have written : (of d).setCell (.of table) row column new = .ok (of (d.setCell row column new)) :=
        own ▸ setCell_of ⟨old, held⟩
      rw [if_pos right, if_pos right, written]
      refine ih ?_ (Draft.regular_setCell regular (writable new right)) ?_ ?_
      · rw [Draft.id_setCell, own]
      · rwa [Draft.rowCount_setCell]
      · intro v same
        rw [Table.checkKind_congr Draft.specs_setCell]
        exact takes v same
    · rw [if_neg right, if_neg right]
      rfl

variable {t : Table} {table : String} {names : List String} {rows : List Row}

/-- Values go to rows of a column that are there. -/
theorem assign_of {name : String} {c : Column} {values : List Value} {rows : List Nat}
    (own : t.id = .of table) (regular : t.Regular) (declared : t.columns[column]? = some c)
    (inside : ∀ row ∈ rows, row < t.rowCount) :
    assign (.load t) op table name column values rows =
      inRange ((assignRows values rows >>= Program.setCells op table name column
        (((t.specs[column]?).map ColumnSpec.kind).getD .number) (.ofTable t)).map of) := by
  unfold assign
  by_cases wrong : values.length ≠ 1 ∧ values.length ≠ rows.length
  · rw [if_pos wrong, assignRows_eq_error wrong]
    rfl
  · obtain ⟨given, assigns⟩ := exists_assignRows wrong
    have spec : t.specs[column]? = some c.spec := by simp [Table.specs, declared]
    rw [if_neg wrong, assigns, Frame.columns_load, reach_of_getElem? spec, spec]
    refine setCells_of (d := .ofTable t) (assigned_of_assignRows assigns) own regular ?_ ?_
    · rintro ⟨row, position⟩ member
      obtain ⟨there, same⟩ := List.mem_zipIdx' member
      exact inside row (same ▸ List.getElem_mem there)
    · exact fun v same => Table.checkKind_eq_ok_iff.mpr ⟨c, declared, same.symm⟩

theorem create_of : create table names rows = inRange ((createTable table names rows).map of) := by
  unfold create createTable
  dsimp only
  rw [forM_inRange]
  refine inRange_step_map fun _ checked => ?_
  rw [← Frame.load_empty (.of table) table]
  rw [← Table.specs_empty (.of table) table (newSpecs names rows)] at checked
  exact append_of (d := Workspace.newDraft table (newSpecs names rows)) (rows_of_checkRow checked)

theorem overwrite_of (own : t.id = .of table) (regular : t.Regular)
    (width : names ≠ [] → ∀ row ∈ rows, row.length = names.length) :
    overwrite (.load t) table names rows = inRange ((overwriteTable t table names rows).map of) := by
  unfold overwrite overwriteTable
  rw [Frame.reorder_load width]
  refine inRange_step_map fun arranged _ => ?_
  rw [Frame.columns_load, forM_inRange]
  refine inRange_step_map fun _ checked => ?_
  have fit := rows_of_checkRow checked
  rw [Frame.rows_load]
  by_cases short : arranged.length < t.rowCount
  · rw [if_pos short, if_pos short]
    rfl
  · rw [if_neg short, if_neg short]
    have fitAbove : ∀ row ∈ arranged.take t.rowCount, t.checkRow row = .ok () :=
      fun row member => fit row (List.mem_of_mem_take member)
    have inside : 0 + (arranged.take t.rowCount).length ≤ t.rowCount := by simp
    have sets : (Draft.ofTable t).Sets ((Draft.ofTable t).setRows 0 (arranged.take t.rowCount)) :=
      Draft.Sets.refl.setRows inside fitAbove
    have written : setRows ⟨.load t, []⟩ (.of table) 0 (arranged.take t.rowCount) =
        .ok (of ((Draft.ofTable t).setRows 0 (arranged.take t.rowCount))) :=
      own ▸ setRows_of (d := .ofTable t) regular inside fitAbove
    rw [written]
    refine (sets.id_eq.trans own) ▸ append_of fun row member => ?_
    rw [Table.checkRow_congr sets.specs_eq]
    exact fit row (List.mem_of_mem_drop member)

end FrameDraft

/-! ## Statements -/

/-- Rows with names are as long as there are names. -/
theorem width_of_eval {source : Source} {w : Workspace} {names : List String} {rows : List Row}
    (formed : source.Formed) (evaluated : source.eval w = .ok (names, rows)) :
    names ≠ [] → ∀ row ∈ rows, row.length = names.length := by
  intro given row member
  exact ((lengths_of_eval formed evaluated member).1.resolve_left given).symm

namespace Env

variable {w : Workspace} {table : String} {names : List String} {rows : List Row}

theorem setColumn_of (bounded : w.Bounded) (name : String) (index : Option Expr) (op : SetOp)
    (value : Expr) : (of w).setColumn table name index op value =
      inRange ((w.setColumn table name index op value).map FrameDraft.of) := by
  unfold setColumn Workspace.setColumn
  rw [eval_of bounded]
  refine inRange_step_map fun values _ => ?_
  have selected : index.mapM (of w).eval = inRange (index.mapM (Expr.eval w)) := by
    cases index with
    | none => rfl
    | some e =>
      rw [Option.mapM_some, Option.mapM_some, eval_of bounded]
      cases e.eval w <;> rfl
  rw [selected]
  refine inRange_step_map fun selector _ => ?_
  rw [frame_of]
  cases found : w.table table with
  | error e => rfl
  | ok t =>
    -- Only now is the index held against the rows of the table.
    have here := Workspace.table_eq_ok_iff.mp found
    change inRange (resolveColumn t.specs table (some name)) >>= _ =
      inRange ((findColumn t table (some name) >>= _).map _)
    rw [resolveColumn_specs]
    refine inRange_step_map fun column resolved => ?_
    obtain ⟨c, declared⟩ := declared_of_findColumn resolved
    change chooseRows selector t.rowCount >>= _ = _
    rw [chooseRows_eq (bounded.small _ t here)]
    exact inRange_step_map fun rows selects => FrameDraft.assign_of (Workspace.id_of_find? here)
      (bounded.regular _ t here) declared fun row among => selectRows_lt selects among

theorem appendRows_of (bounded : w.Bounded) {l : Literal} (formed : l.Formed) :
    (of w).appendRows table l = inRange ((w.appendRows table l).map FrameDraft.of) := by
  unfold appendRows Workspace.appendRows
  rw [evalRows_of bounded]
  refine inRange_step_map fun rows evaluated => ?_
  rw [frame_of]
  cases found : w.table table with
  | error e => rfl
  | ok t =>
    have own : t.id = .of table := Workspace.id_of_find? (Workspace.table_eq_ok_iff.mp found)
    have whole : (Source.literal l).Formed := formed
    have source : (Source.literal l).eval w = .ok (l.columns, rows) := bind_eq_ok_iff.mpr ⟨rows, evaluated, rfl⟩
    change (Frame.load t).reorder table l.columns rows >>= _ =
      inRange ((arrange table t.specs l.columns rows >>= _).map _)
    rw [Frame.reorder_load (width_of_eval whole source)]
    refine inRange_step_map fun arranged _ => ?_
    rw [forM_inRange]
    refine inRange_step_map fun _ checked => ?_
    exact own ▸ FrameDraft.append_of (d := .ofTable t) (rows_of_checkRow checked)

theorem define_of (bounded : w.Bounded) (width : names ≠ [] → ∀ row ∈ rows, row.length = names.length) :
    (of w).define table names rows = inRange ((w.defineTable table names rows).map FrameDraft.of) := by
  have new : ((of w).frames (.of table)).isNone ∧ ¬ (of w).store.contains (.of table) ↔
      w.find? (.of table) = none := by
    simp [of, Workspace.find?, Store.contains_eq_isSome_find?]
  unfold define Workspace.defineTable
  cases found : w.find? (.of table) with
  | none =>
    rw [if_pos (new.mpr found)]
    exact FrameDraft.create_of
  | some t =>
    have there : ¬ (((of w).frames (.of table)).isNone ∧ ¬ (of w).store.contains (.of table)) :=
      fun absent => absurd (found.symm.trans (new.mp absent)) (by simp)
    rw [if_neg there, frame_of, Workspace.table_eq_ok_iff.mpr found]
    exact FrameDraft.overwrite_of (Workspace.id_of_find? found) (bounded.regular _ t found) width

/-- The frame of a draft takes the place of the working copy. -/
theorem adopt_of (d : Draft) : of (w.adopt d) = (of w).adopt d.table.id (.of d) := by
  unfold of adopt Workspace.adopt FrameDraft.of
  rw [mk.injEq]
  refine ⟨rfl, funext fun id => ?_, rfl, rfl⟩
  rw [Store.find?_put]
  by_cases here : id = d.table.id
  · rw [if_pos here.symm, if_pos here, Option.map_some]
  · rw [if_neg (Ne.symm here), if_neg here]

theorem adopt_step {first : Except EvalFault Draft} (drafts : ∀ d, first = .ok d → w.Drafts table d) :
    (do return (of w).adopt (.of table) (← inRange (first.map FrameDraft.of))) =
      inRange ((do return w.adopt (← first)).map of) := by
  cases first with
  | error e => rfl
  | ok d =>
    have adopted : (of w).adopt (.of table) (.of d) = of (w.adopt d) := by
      rw [adopt_of, (drafts d rfl).id_eq]
    exact congrArg Except.ok adopted

/-- A statement leads from frames to frames, and fails where it fails on tables. -/
theorem run_of (bounded : w.Bounded) {s : Statement} (formed : s.Formed) :
    (of w).run s = inRange ((s.run w).map of) := by
  unfold run Statement.run Statement.action
  cases s with
  | watch => rfl
  | define table source =>
    dsimp only
    rw [evalSource_of bounded, bind_assoc]
    refine inRange_step_map ?_
    rintro ⟨names, rows⟩ evaluated
    dsimp only
    rw [define_of bounded (width_of_eval formed evaluated), bind_assoc]
    exact adopt_step fun d => Workspace.drafts_defineTable
  | set table column index op value =>
    dsimp only
    rw [setColumn_of bounded, bind_assoc]
    exact adopt_step fun d => Workspace.drafts_setColumn
  | append table l =>
    dsimp only
    rw [appendRows_of bounded formed, bind_assoc]
    exact adopt_step fun d => Workspace.drafts_appendRows
  | assign name value =>
    dsimp only
    rw [eval_of bounded, bind_assoc]
    exact inRange_step_map fun values _ => rfl

end Env

end Ripple.Program
