import Ripple.Proofs.Sequencing
import Ripple.Proofs.TableCopies

/-!
What a table holds that was defined by a formula. The values of the formula become the cells of its only
column, whether the table is made for them (`createTable`) or had a column before that is overwritten from
the top (`overwriteTable`). Only a table that is made for no values at all gets no column for them, and
then it can neither be read nor take the values that the formula has later on.
-/

namespace Ripple.Program

variable {w : Workspace} {table : String} {t : Table} {values : List Value}

/-! ## One column -/

/-- The rows of one column. -/
def singles (values : List Value) : List Row := values.map ([·])

@[simp] theorem filterMap_singles (values : List Value) :
    (singles values).filterMap (·[0]?) = values := by
  simp [singles, List.filterMap_map]

theorem columns_extend_singles {spec : ColumnSpec} {cells : List Value}
    (one : t.columns = [⟨spec, cells⟩]) (values : List Value) :
    (t.extend (singles values)).columns = [⟨spec, cells ++ values⟩] := by
  simp [Table.extend, one]

theorem Draft.columns_setCell {d : Draft} {spec : ColumnSpec} {front old : List Value} {o v : Value}
    (one : d.table.columns = [⟨spec, front ++ o :: old⟩]) :
    (d.setCell front.length 0 v).table.columns = [⟨spec, front ++ v :: old⟩] := by
  have here : (front ++ o :: old)[front.length]? = some o := by simp
  unfold Draft.setCell
  simp only [one, List.getElem?_cons_zero, here]
  split
  · next same =>
    obtain rfl := Option.some.inj same
    exact one
  · simp [Table.put, one]

/-- Rows written one below the other replace the cells that were there. -/
theorem Draft.columns_setRows {d : Draft} {spec : ColumnSpec} {front old : List Value}
    (one : d.table.columns = [⟨spec, front ++ old⟩]) (many : values.length = old.length) :
    (d.setRows front.length (singles values)).table.columns = [⟨spec, front ++ values⟩] := by
  induction values generalizing d front old with
  | nil =>
    obtain rfl := List.length_eq_zero_iff.mp many.symm
    exact one
  | cons v values ih =>
    cases old with
    | nil => cases many
    | cons o old =>
      have written : (d.setRow front.length 0 [v]).table.columns =
          [⟨spec, (front ++ [v]) ++ old⟩] := by
        rw [List.append_assoc]
        exact columns_setCell one
      have rest := ih written (Nat.succ.inj many)
      rw [List.length_append, List.length_singleton, List.append_assoc] at rest
      exact rest

/-- A column is overwritten from the top and made longer by what is left. -/
theorem Draft.columns_overwrite {spec : ColumnSpec} {cells : List Value}
    (one : t.columns = [⟨spec, cells⟩]) (rows : cells.length = t.rowCount)
    (enough : t.rowCount ≤ values.length) :
    (((ofTable t).setRows 0 ((singles values).take t.rowCount)).append
      ((singles values).drop t.rowCount)).table.columns = [⟨spec, values⟩] := by
  have many : (values.take t.rowCount).length = cells.length := by
    rw [List.length_take, rows, Nat.min_eq_left enough]
  have top : (ofTable t).table.columns = [⟨spec, [] ++ cells⟩] := one
  have written := columns_setRows top many
  rw [List.nil_append, singles, List.map_take] at written
  have longer := columns_extend_singles written (values.drop t.rowCount)
  rw [List.take_append_drop, singles, List.map_drop] at longer
  rw [table_append]
  exact longer

/-! ## Definitions -/

/-- A table that is defined by some values has a single column of them. -/
theorem column_of_defineTable {d : Draft} (some : values ≠ [])
    (regular : ∀ t, w.find? (.of table) = .some t → t.Regular)
    (defined : w.defineTable table [] (singles values) = .ok d) :
    ∃ spec, d.table.columns = [⟨spec, values⟩] := by
  obtain ⟨v, vs, rfl⟩ := List.exists_cons_of_ne_nil some
  unfold Workspace.defineTable at defined
  split at defined
  · obtain ⟨-, rfl⟩ := Workspace.createTable_cases defined
    have new : (Workspace.newDraft table (newSpecs [] (singles (v :: vs)))).table.columns =
        [⟨.positional 1 v.kind, []⟩] := rfl
    rw [Draft.table_append]
    exact ⟨_, columns_extend_singles new (v :: vs)⟩
  · next t found =>
    obtain ⟨arranged, arranges, fit, enough, -, rfl⟩ := Workspace.overwriteTable_cases defined
    obtain rfl : singles (v :: vs) = arranged := Except.ok.inj arranges
    obtain ⟨width, -⟩ := Table.checkRow_eq_ok_iff.mp (fit [v] List.mem_cons_self)
    obtain ⟨c, column⟩ := List.length_eq_one_iff.mp width.symm
    have fits := regular t found c (column ▸ List.mem_singleton_self c)
    rw [singles, List.length_map] at enough
    exact ⟨c.spec, Draft.columns_overwrite column fits.length_eq enough⟩

/-- A table that is defined by no values stays as it is, or is made without columns. -/
theorem defineTable_nil {d : Draft} (defined : w.defineTable table [] [] = .ok d) :
    d.table.rowCount = 0 ∧ (w.find? (.of table) = some d.table ∨
      w.find? (.of table) = none ∧ d.table.columns = []) := by
  unfold Workspace.defineTable at defined
  split at defined
  · next absent =>
    obtain ⟨-, rfl⟩ := Workspace.createTable_cases defined
    exact ⟨rfl, .inr ⟨absent, rfl⟩⟩
  · next t found =>
    obtain ⟨arranged, arranges, -, enough, -, rfl⟩ := Workspace.overwriteTable_cases defined
    obtain rfl : [] = arranged := Except.ok.inj arranges
    have none : t.rowCount = 0 := Nat.eq_zero_of_le_zero enough
    rw [List.take_nil, List.drop_nil, Draft.table_append]
    simp [Draft.setRows, Draft.ofTable, Table.extend_nil, none, found]

/-- A table without columns takes no values. -/
theorem defineTable_of_no_columns (found : w.find? (.of table) = some t) (bare : t.columns = [])
    (v : Value) (vs : List Value) :
    w.defineTable table [] (singles (v :: vs)) = .error (.rowWidth table 0 1) := by
  unfold Workspace.defineTable
  rw [found]
  simp [overwriteTable, arrange, singles, checkRow, Table.specs, bare, bind, Except.bind]

/-- The formula has no values and the table no columns, if it is there at all. -/
def Workspace.Bare (w : Workspace) (table : String) (values : List Value) : Prop :=
  values = [] ∧ ∀ t, w.find? (.of table) = some t → t.columns = []

theorem read_of_find? (found : w.find? (.of table) = some t) :
    w.read table none =
      if t.columns.isEmpty then .error (.noColumns table) else .ok (t.columnValues 0) := by
  unfold Workspace.read
  rw [Workspace.table_eq_ok_iff.mpr found]
  by_cases bare : t.columns.isEmpty <;> simp [bind, Except.bind, findColumn, bare, pure, Except.pure]

section Defined

variable {d : Draft} (regular : ∀ t, w.find? (.of table) = some t → t.Regular)
  (defined : w.defineTable table [] (singles values) = .ok d)
include regular defined

theorem plain_of_defineTable : d.table.Plain := by
  by_cases none : values = []
  · subst none
    exact .inr (defineTable_nil defined).1
  · obtain ⟨spec, one⟩ := column_of_defineTable none regular defined
    exact .inl ⟨by simp [Table.specs, one], by simp [one]⟩

/-- Where the table is as it was defined, it reads as the values of the formula. -/
theorem read_of_defineTable (full : ¬ w.Bare table values) {x : Workspace}
    (found : x.find? (.of table) = some d.table) : x.read table none = .ok values := by
  rw [read_of_find? found]
  by_cases none : values = []
  · subst none
    obtain ⟨empty, kept | ⟨absent, -⟩⟩ := defineTable_nil defined
    · have columns : d.table.columns ≠ [] := fun bare =>
        full ⟨rfl, fun t there => Option.some.inj (kept.symm.trans there) ▸ bare⟩
      obtain ⟨c, rest, listed⟩ := List.exists_cons_of_ne_nil columns
      have cells := (regular _ kept c (by simp [listed])).length_eq
      rw [empty, List.length_eq_zero_iff] at cells
      simp [listed, Table.columnValues, cells]
    · exact absurd ⟨rfl, fun t there => by cases absent.symm.trans there⟩ full
  · obtain ⟨spec, one⟩ := column_of_defineTable none regular defined
    simp [one, Table.columnValues]

omit regular in
theorem columns_of_bare (bare : w.Bare table values) : d.table.columns = [] := by
  obtain ⟨rfl, columns⟩ := bare
  obtain ⟨-, kept | ⟨-, none⟩⟩ := defineTable_nil defined
  · exact columns _ kept
  · exact none

end Defined

/-- The statement that defines a table by a formula, when it is carried out. -/
theorem exists_draft_of_run {e : Expr} {after : Workspace} (evaluated : e.eval w = .ok values)
    (ran : (Statement.define table (.formula e)).run w = .ok after) :
    ∃ d, w.defineTable table [] (singles values) = .ok d ∧ after = w.adopt d := by
  obtain ⟨action, acts, result⟩ := bind_eq_ok_iff.mp ran
  cases result
  obtain ⟨⟨names, rows⟩, source, acts⟩ := bind_eq_ok_iff.mp acts
  obtain ⟨d, defined, acts⟩ := bind_eq_ok_iff.mp acts
  cases acts
  simp only [Source.eval, evaluated, bind, Except.bind, pure, Except.pure, Except.ok.injEq,
    Prod.mk.injEq] at source
  obtain ⟨rfl, rfl⟩ := source
  exact ⟨d, defined, rfl⟩

/-- **A defined formula reads back its values, unless there is no column for them.** When a block has
defined a table by a formula and writes no more to it, then the table reads as the values that the formula
had, in the rest of the block and in every store that the changes of the block lead to. The exception is a
formula without values for a table that is not there or has no columns: such a table cannot be read
afterwards, and no formula with values can define it. If columns of one table have different identifiers
and the lines were parsed, then the changes do lead to a store. -/
theorem formula_reads_back {s : Store} (sound : s.Sound) {before more : List Line} {number : Nat}
    {table : String} {e : Expr} {w last : Workspace} {values : List Value}
    (reached : runLines (.start s) before = .ok w) (evaluated : e.eval w = .ok values)
    (ran : runLines (.start s) (before ++ ⟨number, .define table (.formula e)⟩ :: more) = .ok last)
    (kept : ∀ line ∈ more, ∀ r, line.statement.produceRegister? = some r → r.table ≠ .of table) :
    (¬ w.Bare table values → last.read table none = .ok values ∧
        ∀ r, carryOut s last.changes = .ok r →
          (Workspace.start r).read table none = .ok values) ∧
      (w.Bare table values → last.read table none = .error (.noColumns table) ∧
        ∀ r, carryOut s last.changes = .ok r →
          (Workspace.start r).read table none = .error (.noColumns table) ∧
            ∀ e' v vs, Expr.eval (.start r) e' = .ok (v :: vs) →
              (Statement.define table (.formula e')).run (.start r) =
                .error (.rowWidth table 0 1)) ∧
      (s.Tidy → (∀ line ∈ before ++ ⟨number, .define table (.formula e)⟩ :: more, line.Parsed) →
        Set.InjOn Ident.of (columnNames (before ++ ⟨number, .define table (.formula e)⟩ :: more)) →
          ∃ r, carryOut s last.changes = .ok r) := by
  have regular : ∀ t, w.find? (.of table) = some t → t.Regular := by
    refine Workspace.regular_of_runLines reached (fun id t found => ?_) (.of table)
    exact sound.regular_of_find? ((Workspace.find?_start s id).symm.trans found)
  have tail : runLines w (⟨number, .define table (.formula e)⟩ :: more) = .ok last := by
    rw [← ran, runLines_append, reached]
    rfl
  obtain ⟨after, first, tail⟩ := runLines_cons_eq_ok_iff.mp tail
  obtain ⟨d, defined, rfl⟩ := exists_draft_of_run evaluated first
  have plain := plain_of_defineTable regular defined
  have found : last.find? (.of table) = some d.table := by
    rw [Workspace.find?_of_runLines tail kept, Workspace.find?_adopt,
      if_pos (Workspace.drafts_defineTable defined).id_eq]
  have stored (r : Store) (done : carryOut s last.changes = .ok r) :
      (Workspace.start r).find? (.of table) = some d.table := by
    have plainLast : ∀ u, last.find? (.of table) = some u → u.Plain := fun u here =>
      Option.some.inj (found.symm.trans here) ▸ plain
    obtain ⟨new, adds, follows⟩ := Workspace.follows_of_runLines ran plainLast
    obtain rfl : last.changes = new := adds
    rw [Workspace.find?_start, ← follows s r sound (Workspace.find?_start s _) done, found]
  refine ⟨fun full => ?_, fun bare => ?_, fun tidy parsed injective => ?_⟩
  · have read {x : Workspace} (there : x.find? (.of table) = some d.table) :
        x.read table none = .ok values := read_of_defineTable regular defined full there
    exact ⟨read found, fun r done => read (stored r done)⟩
  · have columns := columns_of_bare defined bare
    have read {x : Workspace} (there : x.find? (.of table) = some d.table) :
        x.read table none = .error (.noColumns table) := by
      rw [read_of_find? there, columns]
      rfl
    refine ⟨read found, fun r done => ⟨read (stored r done), fun e' v vs some => ?_⟩⟩
    have refused := defineTable_of_no_columns (stored r done) columns v vs
    simp only [Statement.run, Statement.action, Source.eval, some, bind, Except.bind, pure,
      Except.pure]
    rw [← singles, refused]
  · obtain ⟨base, r, reflects⟩ := (Workspace.Reflects.start tidy).runLines
      (fun line member => (parsed line member).formed) injective ran
    exact ⟨r, (congrArg (carryOut · last.changes) base.symm).trans reflects.effective.carryOut⟩

/-- A block that defines a table by a formula. -/
def defining (e : Expr) : List Line := [⟨1, .define "s" (.formula e)⟩]

/-- A column is copied to a table that is not there yet. -/
theorem formula_reads_back_copied :
    ∃ last r, runLines (.start ⟨[numbers]⟩) (defining (.column "t" (some "x"))) = .ok last ∧
      carryOut ⟨[numbers]⟩ last.changes = .ok r ∧ last.read "s" none = .ok [.number .one] ∧
        (Workspace.start r).read "s" none = .ok [.number .one] := by
  have evaluated : Expr.eval (.start ⟨[numbers]⟩) (.column "t" (some "x")) = .ok [.number .one] := by
    decide +kernel
  obtain ⟨last, ran⟩ : ∃ last,
      runLines (.start ⟨[numbers]⟩) (defining (.column "t" (some "x"))) = .ok last := by
    refine ⟨⟨⟨[numbers]⟩, ⟨[⟨.of "s", "s", [⟨.positional 1 .number, [.number .one]⟩], 1⟩]⟩, [],
      [.define (.of "s") "s" [.positional 1 .number], .append (.of "s") [[.number .one]]]⟩, ?_⟩
    decide +kernel
  have tidy : (Store.mk [numbers]).Tidy := by
    refine ⟨sound_numbers.ascending, fun t member => ⟨sound_numbers.regular t member, ?_⟩⟩
    obtain rfl := List.mem_singleton.mp member
    exact List.nodup_singleton _
  have parsed : ∀ line ∈ defining (.column "t" (some "x")), line.Parsed := by
    intro line member
    obtain rfl := List.mem_singleton.mp member
    exact ⟨"#s = #t.x".toList, by cbv⟩
  have injective : Set.InjOn Ident.of (columnNames (defining (.column "t" (some "x")))) := by
    refine Set.InjOn.mono ?_ (Set.injOn_singleton Ident.of (toString 1))
    rintro name ⟨line, member, named⟩
    obtain rfl := List.mem_singleton.mp member
    simpa [Statement.columnNames, Source.columnNames] using named
  have reached : runLines (.start ⟨[numbers]⟩) [] = .ok (.start ⟨[numbers]⟩) := rfl
  have whole : runLines (.start ⟨[numbers]⟩)
      ([] ++ ⟨1, .define "s" (.formula (.column "t" (some "x")))⟩ :: []) = .ok last := ran
  obtain ⟨reads, -, leads⟩ := formula_reads_back sound_numbers reached evaluated whole (by simp)
  obtain ⟨r, done⟩ := leads tidy parsed injective
  obtain ⟨here, there⟩ := reads fun bare => by cases bare.1
  exact ⟨last, r, ran, done, here, there r done⟩

/-- The cells of the column that are greater than one: there are none. -/
def large : Expr :=
  .pick "t" (some "x") (.binary .gt (.column "t" (some "x")) (.number .one))

/-- The formula has the value of no cells at all, but the table that it defines cannot be read. -/
theorem formula_without_values_is_lost :
    (Store.mk [numbers]).Sound ∧ Expr.eval (.start ⟨[numbers]⟩) large = .ok [] ∧
      ∃ last r, runLines (.start ⟨[numbers]⟩) (defining large) = .ok last ∧
        carryOut ⟨[numbers]⟩ last.changes = .ok r ∧
        last.read "s" none = .error (.noColumns "s") ∧
        (Workspace.start r).read "s" none = .error (.noColumns "s") := by
  refine ⟨sound_numbers, by decide +kernel,
    ⟨⟨[numbers]⟩, ⟨[⟨.of "s", "s", [], 0⟩]⟩, [], [.define (.of "s") "s" []]⟩,
    (Store.mk [numbers]).put ⟨.of "s", "s", [], 0⟩, ?_, ?_, ?_, ?_⟩ <;> decide +kernel

end Ripple.Program
