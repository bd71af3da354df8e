import Ripple.Proofs.DraftCases

/-!
The working copies of a block show what its changes make of the store. `Workspace.Reflects` ties the
two together: the changes listed so far lead from the store to another one, none of them in vain, and
every table that the next statement finds, copied or not, is the table of that store. Each statement
keeps to this (`Reflects.run`) and so does a block (`Reflects.runLines`), provided that the columns of
the tables it creates get different identifiers.
-/

namespace Ripple.Program

/-- A new table has no rows yet but its columns. -/
theorem Draft.From.createTable {s : Store} {d : Draft} (tidy : s.Tidy) {table : String}
    {names : List String} {rows : List Row} (absent : s.find? (.of table) = none)
    (nonempty : ∀ row ∈ rows, row ≠ [])
    (distinct : ((newSpecs names rows).map ColumnSpec.id).Nodup)
    (created : Program.createTable table names rows = .ok d) : d.From s := by
  obtain ⟨fit, rfl⟩ := Workspace.createTable_cases created
  refine Draft.From.append tidy.sound (Draft.From.create tidy.sound absent distinct) ?_ fit
  intro some
  obtain ⟨row, member⟩ := List.exists_mem_of_ne_nil rows some
  exact (Table.ne_nil_iff_of_checkRow (fit row member)).mp (nonempty row member)

theorem Draft.From.overwriteTable {s : Store} {t : Table} {d : Draft} (tidy : s.Tidy)
    (found : s.find? t.id = some t) {table : String} {names : List String} {rows : List Row}
    (nonempty : ∀ row ∈ rows, row ≠ [])
    (overwritten : Program.overwriteTable t table names rows = .ok d) : d.From s := by
  obtain ⟨arranged, arranges, fit, -, sets, rfl⟩ := Workspace.overwriteTable_cases overwritten
  have old := (Draft.From.ofTable tidy.ascending found (tidy.of_find? found)).sets tidy.sound sets
  refine old.append tidy.sound ?_ ?_
  · intro some
    rw [Table.columns_ne_nil_iff_of_specs sets.specs_eq]
    refine columns_of_arrange nonempty arranges fit ?_
    rintro rfl
    exact some List.drop_nil
  · intro row member
    rw [Table.checkRow_congr sets.specs_eq]
    exact fit row (List.mem_of_mem_drop member)

/-- The changes listed so far lead from the store of the block to another one, and every table that
is found is the table of that store. -/
structure Workspace.Reflects (w : Workspace) (r : Store) : Prop where
  effective : Effective w.base w.changes r
  seen : ∀ id, w.find? id = r.find? id
  tidy : r.Tidy

namespace Workspace.Reflects

variable {w after : Workspace} {r : Store}

theorem start {s : Store} (tidy : s.Tidy) : (Workspace.start s).Reflects s where
  effective := .nil
  seen := find?_start s
  tidy := tidy

theorem adopt (reflects : w.Reflects r) {d : Draft} (done : d.From r) :
    (w.adopt d).Reflects (r.put d.table) where
  effective := reflects.effective.append done.effective
  seen id := by rw [find?_adopt, Store.find?_put, reflects.seen]
  tidy := Store.tidy_put reflects.tidy done.tidy

theorem find?_of_find? (reflects : w.Reflects r) {name : String} {t : Table}
    (found : w.find? (.of name) = some t) : r.find? t.id = some t := by
  rw [reflects.seen] at found
  exact Store.id_of_find? found ▸ found

theorem ofTable (reflects : w.Reflects r) {name : String} {t : Table}
    (found : w.find? (.of name) = some t) : (Draft.ofTable t).From r := by
  have here := reflects.find?_of_find? found
  exact .ofTable reflects.tidy.ascending here (reflects.tidy.of_find? here)

theorem setColumn (reflects : w.Reflects r) {table name : String} {index : Option Expr} {op : SetOp}
    {value : Expr} {d : Draft} (set : w.setColumn table name index op value = .ok d) :
    d.From r := by
  obtain ⟨t, found, sets⟩ := setColumn_cases set
  exact (reflects.ofTable found).sets reflects.tidy.sound sets

theorem appendRows (reflects : w.Reflects r) {table : String} {l : Literal} (formed : l.Formed)
    {d : Draft} (appended : w.appendRows table l = .ok d) : d.From r := by
  obtain ⟨rows, t, arranged, evaluated, found, arranges, fit, rfl⟩ := appendRows_cases appended
  exact (reflects.ofTable found).append reflects.tidy.sound
    (columns_of_arrange (formed.nonempty_of_eval evaluated) arranges fit) fit

theorem defineTable (reflects : w.Reflects r) {table : String} {source : Source}
    (formed : source.Formed) (injective : Set.InjOn Ident.of { name | name ∈ source.columnNames })
    {names : List String} {rows : List Row} (evaluated : source.eval w = .ok (names, rows)) {d : Draft}
    (defined : w.defineTable table names rows = .ok d) : d.From r := by
  have nonempty := (Source.eval_spec formed evaluated).1
  unfold Workspace.defineTable at defined
  split at defined
  · next absent =>
    rw [reflects.seen] at absent
    exact .createTable reflects.tidy absent nonempty
      (Source.distinct_newSpecs formed injective evaluated) defined
  · next t found =>
    rw [reflects.seen] at found
    exact .overwriteTable reflects.tidy (Store.id_of_find? found ▸ found) nonempty defined

/-- A statement that is carried out keeps working copies and store together. -/
theorem run (reflects : w.Reflects r) {s : Statement} (formed : s.Formed)
    (injective : Set.InjOn Ident.of { name | name ∈ s.columnNames }) (ran : s.run w = .ok after) :
    after.base = w.base ∧ ∃ q, after.Reflects q := by
  obtain ⟨action, acts, result⟩ := bind_eq_ok_iff.mp ran
  cases result
  cases s with
  | watch table column =>
    cases acts
    exact ⟨rfl, r, reflects⟩
  | define table source =>
    obtain ⟨⟨names, rows⟩, evaluated, acts⟩ := bind_eq_ok_iff.mp acts
    obtain ⟨d, defined, acts⟩ := bind_eq_ok_iff.mp acts
    cases acts
    exact ⟨rfl, _, reflects.adopt (reflects.defineTable formed injective evaluated defined)⟩
  | set table column index op value =>
    obtain ⟨d, set, acts⟩ := bind_eq_ok_iff.mp acts
    cases acts
    exact ⟨rfl, _, reflects.adopt (reflects.setColumn set)⟩
  | append table rows =>
    obtain ⟨d, appended, acts⟩ := bind_eq_ok_iff.mp acts
    cases acts
    exact ⟨rfl, _, reflects.adopt (reflects.appendRows formed appended)⟩
  | assign name value =>
    obtain ⟨values, -, acts⟩ := bind_eq_ok_iff.mp acts
    cases acts
    exact ⟨rfl, r, { reflects with }⟩

/-- So does a block as a whole. -/
theorem runLines (reflects : w.Reflects r) {lines : List Line}
    (formed : ∀ line ∈ lines, line.statement.Formed)
    (injective : Set.InjOn Ident.of (columnNames lines)) (ran : Program.runLines w lines = .ok after) :
    after.base = w.base ∧ ∃ q, after.Reflects q := by
  induction lines generalizing w r with
  | nil =>
    cases ran
    exact ⟨rfl, r, reflects⟩
  | cons line rest ih =>
    obtain ⟨middle, first, ran⟩ := runLines_cons_eq_ok_iff.mp ran
    have here : { name | name ∈ line.statement.columnNames } ⊆ columnNames (line :: rest) :=
      fun name member => ⟨line, List.mem_cons_self, member⟩
    obtain ⟨base, q, kept⟩ := reflects.run (formed line List.mem_cons_self) (injective.mono here) first
    rw [← base]
    exact ih kept (fun other member => formed other (List.mem_cons_of_mem _ member))
      (injective.mono columnNames_tail) ran

end Workspace.Reflects

end Ripple.Program
