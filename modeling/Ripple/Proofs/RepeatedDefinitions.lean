import Ripple.Proofs.Declarations
import Ripple.Proofs.ListedCells
import Ripple.Proofs.Mentions
import Ripple.Proofs.Sequencing
import Ripple.Proofs.TableCopies

/-!
Definitions that are carried out again. A table that was defined by some rows shows these rows, in the order
of its columns, and has no others (`defineTable_shows`); whoever defines it by the same rows finds every cell
written already and nothing left to add (`overwriteTable_of_shows`). So each definition of a block that reads
none of the tables it defines is idle where the block ended (`idle_of_runLines`), and idle statements make no
changes (`runLines_of_idle`).
-/

namespace Ripple

/-! ## Rows that are shown -/

/-- From a row on the table has the cells of some rows. -/
def Table.Shows (t : Table) (first : Nat) (rows : List Row) : Prop :=
  ∀ k values, rows[k]? = some values → ∀ i v, values[i]? = some v → t.cell? (first + k) i = some v

namespace Program

namespace Draft

variable {d : Draft} {t : Table} {row column first : Nat} {value : Value} {values : Row} {rows : List Row}

/-! ### Writing what is there -/

theorem setCell_of_cell (held : d.table.cell? row column = some value) : d.setCell row column value = d := by
  obtain ⟨c, declared, here⟩ := Table.cell_eq_some_iff.mp held
  unfold setCell
  simp only [declared, here, if_pos]

theorem setRow_of_cells
    (held : ∀ i v, values[i]? = some v → d.table.cell? row (column + i) = some v) :
    d.setRow row column values = d := by
  induction values generalizing column with
  | nil => rfl
  | cons value values ih =>
    have here : d.setCell row column value = d := setCell_of_cell (held 0 value rfl)
    rw [setRow, here]
    refine ih fun i v there => ?_
    rw [Nat.add_assoc, Nat.add_comm 1]
    exact held (i + 1) v there

/-- Rows that are shown are written without a change. -/
theorem setRows_of_shows (shows : d.table.Shows first rows) : d.setRows first rows = d := by
  induction rows generalizing first with
  | nil => rfl
  | cons values rows ih =>
    have here : d.setRow first 0 values = d :=
      setRow_of_cells fun i v there => by simpa using shows 0 values rfl i v there
    rw [setRows, here]
    refine ih fun k others there => ?_
    rw [Nat.add_assoc, Nat.add_comm 1]
    exact shows (k + 1) others there

/-! ### Cells after writing -/

theorem cell_setCell (d : Draft) (row column : Nat) (value : Value) (r i : Nat) :
    (d.setCell row column value).table.cell? r i =
      (d.table.cell? r i).map fun old => if column = i ∧ row = r then value else old := by
  have whole : (d.table.cell? r i).map (fun old => if column = i ∧ row = r then value else old) =
      (d.table.put row column value).cell? r i := by
    rw [Table.cell_put]
    split <;> simp
  rw [whole]
  unfold setCell
  split
  · next absent =>
    have nowhere : d.table.cell? row column = none := by simp [Table.cell?, absent]
    rw [Table.put_of_cell_none nowhere]
  · next c declared =>
    split
    · next same => rw [Table.put_cell (Table.cell_eq_some_iff.mpr ⟨c, declared, same⟩)]
    · rfl

theorem cell_setRow (d : Draft) (row column : Nat) (values : Row) (r i : Nat) :
    (d.setRow row column values).table.cell? r i =
      (d.table.cell? r i).map fun old =>
        if row = r ∧ column ≤ i then values.getD (i - column) old else old := by
  induction values generalizing d column with
  | nil => simp [setRow]
  | cons value values ih =>
    rw [setRow, ih, cell_setCell, Option.map_map]
    congr 1
    funext old
    rcases Nat.lt_trichotomy column i with later | rfl | earlier
    · have next : i - column = i - (column + 1) + 1 := by omega
      simp [next, later.le, Nat.succ_le_of_lt later, later.ne]
    · simp
    · simp [Nat.not_le_of_lt earlier, earlier.ne', Nat.not_le_of_lt (Nat.lt_succ_of_lt earlier)]

theorem cell_setRows (d : Draft) (first : Nat) (rows : List Row) (r i : Nat) :
    (d.setRows first rows).table.cell? r i =
      (d.table.cell? r i).map fun old =>
        if first ≤ r then ((rows[r - first]?).bind (·[i]?)).getD old else old := by
  induction rows generalizing d first with
  | nil => simp [setRows]
  | cons values rows ih =>
    rw [setRows, ih, cell_setRow, Option.map_map]
    congr 1
    funext old
    rcases Nat.lt_trichotomy first r with later | rfl | earlier
    · have next : r - first = r - (first + 1) + 1 := by omega
      simp [next, later.le, Nat.succ_le_of_lt later, later.ne]
    · simp
    · simp [Nat.not_le_of_lt earlier, earlier.ne', Nat.not_le_of_lt (Nat.lt_succ_of_lt earlier)]

end Draft

/-! ## Arranging -/

variable {table : String} {names : List String} {rows arranged : List Row} {t : Table} {d : Draft}

/-- Columns that have the names in their order are found one after the other. -/
theorem columnPlaces_of_ids (distinct : (names.map Ident.of).Nodup) {specs : List ColumnSpec} {k : Nat}
    (ids : specs.map ColumnSpec.id = (names.map Ident.of).drop k) :
    columnPlaces table names specs = .ok (List.range' k specs.length) := by
  induction specs generalizing k with
  | nil => rfl
  | cons spec specs ih =>
    have inside : k < (names.map Ident.of).length := by
      refine Nat.lt_of_not_le fun beyond => ?_
      rw [List.drop_eq_nil_of_le beyond] at ids
      cases ids
    rw [List.map_cons, List.drop_eq_getElem_cons inside] at ids
    obtain ⟨own, others⟩ := List.cons.inj ids
    have place : (names.findIdx? fun name => Ident.of name = spec.id) = some k := by
      rw [List.length_map] at inside
      refine List.findIdx?_eq_some_iff_getElem.mpr ⟨inside, by simp [own], fun j before same => ?_⟩
      have earlier := List.pairwise_iff_getElem.mp distinct j k (by simp; omega) (by simpa) before
      rw [own] at same
      exact earlier (by simpa using same)
    rw [columnPlaces, place, ih others]
    rfl

/-- Rows for a new table are in the order of its columns. -/
theorem arrange_newSpecs (uniform : Uniform names rows)
    (named : names = [] ∨ names.length = (newSpecs names rows).length)
    (distinct : ((newSpecs names rows).map ColumnSpec.id).Nodup) :
    arrange table (newSpecs names rows) names rows = .ok rows := by
  unfold arrange
  by_cases none : names = []
  · rw [if_pos (by simp [none])]
  · have many := named.resolve_left none
    have own : (newSpecs names rows).map ColumnSpec.name = names :=
      (names_newSpecs_sublist none rows).eq_of_length (by simpa using many.symm)
    have ids : (newSpecs names rows).map ColumnSpec.id = names.map Ident.of := by rw [ids_newSpecs, own]
    have places : columnPlaces table names (newSpecs names rows) =
        .ok (List.range (newSpecs names rows).length) := by
      rw [List.range_eq_range']
      exact columnPlaces_of_ids (ids ▸ distinct) ids
    have same : ∀ row ∈ rows, (List.range (newSpecs names rows).length).filterMap (row[·]?) = row := by
      intro row member
      rw [← uniform.width row member]
      exact Graph.filterMap_range_getElem? row
    rw [if_neg (by simpa using none), if_neg (not_not.mpr many), places]
    exact congrArg Except.ok ((List.map_congr_left same).trans (List.map_id' rows))

/-- A source that names columns has a name for each. -/
theorem length_names_of_eval {source : Source} {w : Workspace} (formed : source.Formed)
    (evaluated : source.eval w = .ok (names, rows)) :
    names = [] ∨ names.length = (newSpecs names rows).length := by
  by_cases none : names = []
  · exact .inl none
  · right
    cases rows with
    | nil => simp [newSpecs, none]
    | cons first rest =>
      obtain ⟨named, -⟩ := lengths_of_eval formed evaluated List.mem_cons_self
      have width := (uniform_of_eval formed evaluated).width first List.mem_cons_self
      exact (named.resolve_left none).trans width

/-! ## Defining twice -/

/-- The table shows these rows when they are arranged, and has no others. -/
structure Holds (t : Table) (table : String) (names : List String) (rows : List Row) (arranged : List Row) :
    Prop where
  arranges : arrange table t.specs names rows = .ok arranged
  fit : ∀ row ∈ arranged, checkRow table t.specs row = .ok ()
  count : arranged.length = t.rowCount
  shows : t.Shows 0 arranged

/-- Such a table is defined by the rows without a change. -/
theorem Holds.overwriteTable (holds : Holds t table names rows arranged) :
    overwriteTable t table names rows = .ok (.ofTable t) := by
  have written : (Draft.ofTable t).setRows 0 arranged = .ofTable t := Draft.setRows_of_shows holds.shows
  have fit : arranged.forM (checkRow table t.specs) = .ok () := forM_eq_ok_iff.mpr holds.fit
  simp only [Program.overwriteTable, holds.arranges, bind, Except.bind, fit, ← holds.count, Nat.lt_irrefl,
    if_false, List.take_length, List.drop_length, written]
  rfl

/-- What fits a table has the kinds of its columns. -/
theorem checkRow_of_fits {row : Row} (fit : t.checkRow row = .ok ()) : checkRow table t.specs row = .ok () := by
  obtain ⟨width, kinds⟩ := Table.checkRow_eq_ok_iff.mp fit
  rw [checkRow_eq_ok_iff]
  refine List.ext_getElem (by simp [Table.specs, width]) fun i inside _ => ?_
  have inRow : i < row.length := by simpa using inside
  obtain ⟨c, declared, same⟩ :=
    Table.checkKind_eq_ok_iff.mp (kinds i row[i] (List.getElem?_eq_getElem inRow))
  obtain ⟨_, rfl⟩ := List.getElem?_eq_some_iff.mp declared
  simpa [Table.specs] using same.symm

/-- Rows that were added are shown below those that were there. -/
theorem shows_extend (regular : t.Regular) (checked : ∀ row ∈ rows, t.checkRow row = .ok ())
    {above : List Row} (count : above.length = t.rowCount) (shows : t.Shows 0 above) :
    (t.extend rows).Shows 0 (above ++ rows) := by
  intro k values there i v held
  rw [Table.cell_extend regular checked]
  split
  · next old =>
    rw [List.getElem?_append_left (by omega)] at there
    exact shows k values there i v held
  · next new =>
    rw [List.getElem?_append_right (by omega), count] at there
    rw [Nat.zero_add, there, Option.bind_some, held]

/-- Rows that were written are shown, as the cells are there. -/
theorem shows_setRows {d : Draft} {first : Nat} (regular : d.table.Regular)
    (inside : first + rows.length ≤ d.table.rowCount)
    (fit : ∀ row ∈ rows, d.table.checkRow row = .ok ()) : (d.setRows first rows).table.Shows first rows := by
  intro k values there i v held
  obtain ⟨-, kinds⟩ := Table.checkRow_eq_ok_iff.mp (fit values (List.mem_of_getElem? there))
  have bound : k < rows.length := (List.getElem?_eq_some_iff.mp there).1
  have checked : d.table.checkWrite (first + k) i v = .ok () :=
    Table.checkWrite_eq_ok_iff.mpr ⟨kinds i v held, by omega⟩
  obtain ⟨old, cell, -⟩ := Table.cell_of_checkWrite regular checked
  rw [Draft.cell_setRows, cell]
  simp [there, held]

theorem holds_of_createTable (uniform : Uniform names rows)
    (named : names = [] ∨ names.length = (newSpecs names rows).length)
    (distinct : ((newSpecs names rows).map ColumnSpec.id).Nodup)
    (created : createTable table names rows = .ok d) : Holds d.table table names rows rows := by
  obtain ⟨fit, rfl⟩ := Workspace.createTable_cases created
  have specs : ((Table.empty (.of table) table (newSpecs names rows)).extend rows).specs =
      newSpecs names rows := by rw [Table.specs_extend, Table.specs_empty]
  have none : (Table.empty (.of table) table (newSpecs names rows)).Shows 0 [] :=
    fun _ _ there => absurd there (by simp)
  rw [Draft.table_append, Workspace.newDraft]
  constructor
  · rw [specs]
    exact arrange_newSpecs uniform named distinct
  · intro row member
    rw [specs, ← Table.specs_empty (.of table) table (newSpecs names rows)]
    exact checkRow_of_fits (fit row member)
  · exact (Nat.zero_add _).symm
  · exact shows_extend (Table.regular_empty _ _ _) fit rfl none

theorem holds_of_overwriteTable (regular : t.Regular)
    (overwritten : overwriteTable t table names rows = .ok d) :
    ∃ arranged, Holds d.table table names rows arranged := by
  obtain ⟨arranged, arranges, fit, enough, sets, rfl⟩ := Workspace.overwriteTable_cases overwritten
  have above : (arranged.take t.rowCount).length = t.rowCount := by
    rw [List.length_take, Nat.min_eq_left enough]
  have fitAbove : ∀ row ∈ arranged.take t.rowCount, t.checkRow row = .ok () :=
    fun row member => fit row (List.mem_of_mem_take member)
  have written : ((Draft.ofTable t).setRows 0 (arranged.take t.rowCount)).table.Shows 0
      (arranged.take t.rowCount) := shows_setRows regular (by simp [Draft.ofTable]) fitAbove
  have fitBelow : ∀ row ∈ arranged.drop t.rowCount,
      ((Draft.ofTable t).setRows 0 (arranged.take t.rowCount)).table.checkRow row = .ok () := by
    intro row member
    rw [Table.checkRow_congr sets.specs_eq]
    exact fit row (List.mem_of_mem_drop member)
  have shows := shows_extend (sets.regular regular) fitBelow (above.trans sets.rowCount_eq.symm) written
  rw [List.take_append_drop] at shows
  have specs : (((Draft.ofTable t).setRows 0 (arranged.take t.rowCount)).table.extend
      (arranged.drop t.rowCount)).specs = t.specs := by
    rw [Table.specs_extend, sets.specs_eq]
    rfl
  refine ⟨arranged, ?_⟩
  rw [Draft.table_append]
  constructor
  · rw [specs]
    exact arranges
  · intro row member
    rw [specs]
    exact checkRow_of_fits (fit row member)
  · rw [Table.extend, sets.rowCount_eq, List.length_drop]
    exact (Nat.add_sub_of_le enough).symm
  · exact shows

/-- A table that was defined holds what it was defined by. -/
theorem holds_of_defineTable {w : Workspace} {source : Source} (formed : source.Formed)
    (injective : Set.InjOn Ident.of { name | name ∈ source.columnNames })
    (regular : ∀ id t, w.find? id = some t → t.Regular) (evaluated : source.eval w = .ok (names, rows))
    (defined : w.defineTable table names rows = .ok d) :
    ∃ arranged, Holds d.table table names rows arranged := by
  unfold Workspace.defineTable at defined
  split at defined
  · exact ⟨rows, holds_of_createTable (uniform_of_eval formed evaluated)
      (length_names_of_eval formed evaluated) (Source.distinct_newSpecs formed injective evaluated) defined⟩
  · next t found => exact holds_of_overwriteTable (regular _ t found) defined

/-! ## Reading the same -/

/-- What a definition puts into its table depends on the tables that it reads and on the names. -/
theorem Source.eval_congr {w v : Workspace} (names : w.names = v.names) {source : Source}
    (tables : ∀ t c, (Statement.define table source).Mentions t c → w.find? (.of t) = v.find? (.of t)) :
    source.eval w = source.eval v := by
  cases source with
  | literal l =>
    have same : l.eval w = l.eval v := by
      refine mapM_congr fun cells inRows => mapM_congr fun e inRow => ?_
      have own : e.eval w = e.eval v := Expr.eval_congr (fun _ _ => by rw [names]) fun t c inner =>
        tables t c (.cell inRows inRow inner)
      simp only [Expr.evalCell, own]
    simp only [Source.eval, same]
  | formula e =>
    have own : e.eval w = e.eval v := Expr.eval_congr (fun _ _ => by rw [names]) fun t c inner =>
      tables t c (.formula inner)
    simp only [Source.eval, own]

/-! ## Lines that define -/

/-- The table that a statement defines. -/
def Statement.definedTable? : Statement → Option String
  | .define table _ => some table
  | _ => none

/-- The tables that lines define or read. -/
def tableNames (lines : List Line) : Set String :=
  { t | ∃ line ∈ lines, line.statement.definedTable? = some t ∨ ∃ c, line.statement.Mentions t c }

/-- The lines define different tables and read none of them. -/
structure Definitions (lines : List Line) : Prop where
  defines : ∀ line ∈ lines, line.statement.definedTable?.isSome
  formed : ∀ line ∈ lines, line.statement.Formed
  distinct : (lines.map fun line => line.statement.definedTable?).Nodup
  unread : ∀ line ∈ lines, ∀ t c, line.statement.Mentions t c →
    ∀ other ∈ lines, other.statement.definedTable? ≠ some t

theorem exists_of_definedTable? {s : Statement} (defines : s.definedTable?.isSome) :
    ∃ table source, s = .define table source := by
  cases s with
  | define table source => exact ⟨table, source, rfl⟩
  | _ => cases defines

variable {line : Line} {rest lines : List Line} {w v last : Workspace}

namespace Definitions

theorem tail (definitions : Definitions (line :: rest)) : Definitions rest where
  defines other member := definitions.defines other (List.mem_cons_of_mem _ member)
  formed other member := definitions.formed other (List.mem_cons_of_mem _ member)
  distinct := (List.nodup_cons.mp definitions.distinct).2
  unread other member t c mentions another inRest :=
    definitions.unread other (List.mem_cons_of_mem _ member) t c mentions another
      (List.mem_cons_of_mem _ inRest)

/-- A table is left alone that the lines do not define. -/
theorem find?_of_runLines (definitions : Definitions lines) {known : Set String}
    (injective : Set.InjOn Ident.of known) (inside : tableNames lines ⊆ known) {t : String} (mem : t ∈ known)
    (others : ∀ line ∈ lines, line.statement.definedTable? ≠ some t) (ran : runLines w lines = .ok last) :
    last.find? (.of t) = w.find? (.of t) := by
  refine Workspace.find?_of_runLines ran fun line member r produces same => ?_
  obtain ⟨table, source, defines⟩ := exists_of_definedTable? (definitions.defines line member)
  rw [defines] at produces
  cases produces
  have own : line.statement.definedTable? = some table := by
    rw [defines]
    rfl
  obtain rfl : table = t := injective (inside ⟨line, member, .inl own⟩) mem same
  exact others line member own

end Definitions

/-- The statement defines a table as it is. -/
def Statement.Idle (w : Workspace) (s : Statement) : Prop :=
  ∃ t, w.find? t.id = some t ∧ s.action w = .ok (.write (.ofTable t))

/-- Idle statements make no changes. -/
theorem runLines_of_idle (alike : w.Alike (fun _ => True) v)
    (idle : ∀ line ∈ lines, line.statement.Idle w) :
    ∃ after, runLines v lines = .ok after ∧ after.changes = v.changes := by
  induction lines generalizing v with
  | nil => exact ⟨v, rfl, rfl⟩
  | cons line rest ih =>
    obtain ⟨⟨t, found, acts⟩, others⟩ := List.forall_mem_cons.mp idle
    have same : line.statement.action v = .ok (.write (.ofTable t)) := by
      rw [← alike.action fun _ _ _ _ => trivial, acts]
    have next : w.Alike (fun _ => True) (v.adopt (.ofTable t)) := by
      refine ⟨fun id => ?_, alike.names⟩
      rw [Workspace.find?_adopt, alike.tables]
      split
      · next here => exact (alike.tables id).symm.trans (here ▸ found)
      · rfl
    obtain ⟨after, ran, changes⟩ := ih next others
    refine ⟨after, runLines_cons_eq_ok_iff.mpr ⟨_, ?_, ran⟩, ?_⟩
    · rw [Statement.run, same]
      rfl
    · rw [changes]
      exact List.append_nil _

/-- A definition is idle wherever the table is as the definition left it and everything it reads is as it
found it. -/
theorem idle_of_define {table : String} {source : Source} {middle : Workspace} (formed : source.Formed)
    (injective : Set.InjOn Ident.of { name | name ∈ source.columnNames })
    (regular : ∀ id t, w.find? id = some t → t.Regular)
    (ran : (Statement.define table source).run w = .ok middle) (names : last.names = w.names)
    (kept : last.find? (.of table) = middle.find? (.of table))
    (read : ∀ t c, (Statement.define table source).Mentions t c → last.find? (.of t) = w.find? (.of t)) :
    (Statement.define table source).Idle last := by
  obtain ⟨action, acts, result⟩ := bind_eq_ok_iff.mp ran
  obtain ⟨⟨header, rows⟩, evaluated, acts⟩ := bind_eq_ok_iff.mp acts
  obtain ⟨d, defined, acts⟩ := bind_eq_ok_iff.mp acts
  cases acts
  cases result
  obtain ⟨arranged, holds⟩ := holds_of_defineTable formed injective regular evaluated defined
  have id : d.table.id = .of table := (Workspace.drafts_defineTable defined).id_eq
  rw [Workspace.perform, Workspace.find?_adopt, if_pos id] at kept
  have again : source.eval last = .ok (header, rows) := (Source.eval_congr names read).trans evaluated
  refine ⟨d.table, id ▸ kept, ?_⟩
  simp only [Statement.action, again, Workspace.defineTable, kept, holds.overwriteTable, bind, Except.bind,
    pure, Except.pure]

theorem names_of_define {table : String} {source : Source} {middle : Workspace}
    (ran : (Statement.define table source).run w = .ok middle) : middle.names = w.names := by
  obtain ⟨action, acts, result⟩ := bind_eq_ok_iff.mp ran
  obtain ⟨_, -, acts⟩ := bind_eq_ok_iff.mp acts
  obtain ⟨d, -, acts⟩ := bind_eq_ok_iff.mp acts
  cases acts
  cases result
  rfl

theorem tableNames_tail : tableNames rest ⊆ tableNames (line :: rest) :=
  fun _ ⟨other, member, named⟩ => ⟨other, List.mem_cons_of_mem _ member, named⟩

/-- Where definitions ended, each of them is idle. -/
theorem idle_of_runLines (definitions : Definitions lines) {known : Set String}
    (tables : Set.InjOn Ident.of known) (inside : tableNames lines ⊆ known)
    (columns : Set.InjOn Ident.of (columnNames lines))
    (regular : ∀ id t, w.find? id = some t → t.Regular) (ran : runLines w lines = .ok last) :
    last.names = w.names ∧ ∀ line ∈ lines, line.statement.Idle last := by
  induction lines generalizing w with
  | nil =>
    cases ran
    exact ⟨rfl, by simp⟩
  | cons line rest ih =>
    obtain ⟨middle, first, later⟩ := runLines_cons_eq_ok_iff.mp ran
    have one : runLines w [line] = .ok middle := runLines_cons_eq_ok_iff.mpr ⟨middle, first, rfl⟩
    have insideRest := tableNames_tail.trans inside
    obtain ⟨names, others⟩ := ih definitions.tail insideRest (columns.mono columnNames_tail)
      (Workspace.regular_of_runLines one regular) later
    have unread := definitions.unread line List.mem_cons_self
    have formed := definitions.formed line List.mem_cons_self
    have mentioned : ∀ t c, line.statement.Mentions t c → t ∈ known := fun t c mentions =>
      inside ⟨line, List.mem_cons_self, .inr ⟨c, mentions⟩⟩
    have columnsHere : { name | name ∈ line.statement.columnNames } ⊆ columnNames (line :: rest) :=
      fun name named => ⟨line, List.mem_cons_self, named⟩
    obtain ⟨table, source, defines⟩ := exists_of_definedTable? (definitions.defines line List.mem_cons_self)
    have own : line.statement.definedTable? = some table := by
      rw [defines]
      rfl
    have named : table ∈ known := inside ⟨line, List.mem_cons_self, .inl own⟩
    have kept : last.find? (.of table) = middle.find? (.of table) := by
      refine definitions.tail.find?_of_runLines tables insideRest named (fun other member same => ?_) later
      exact (List.nodup_cons.mp definitions.distinct).1
        (List.mem_map.mpr ⟨other, member, same.trans own.symm⟩)
    have read : ∀ t c, line.statement.Mentions t c → last.find? (.of t) = w.find? (.of t) :=
      fun t c mentions =>
        definitions.find?_of_runLines tables inside (mentioned t c mentions) (unread t c mentions) ran
    rw [defines] at first formed columnsHere read
    have same : last.names = w.names := names.trans (names_of_define first)
    refine ⟨same, List.forall_mem_cons.mpr ⟨?_, others⟩⟩
    rw [defines]
    exact idle_of_define formed (columns.mono columnsHere) regular first same kept read

/-- **Defining again changes nothing.** A block that defines different tables, and reads none of them, asks
for changes that can be carried out; evaluated on the store with these changes, it asks for none. Columns of
one table have different identifiers, and so have the names that the lines use. -/
theorem definitions_settle {s : Store} (tidy : s.Tidy) {lines : List Line} (definitions : Definitions lines)
    (tables : Set.InjOn Ident.of (tableNames lines)) (columns : Set.InjOn Ident.of (columnNames lines))
    {changes : List Change} (asked : evaluate lines s = .ok changes) :
    ∃ r, carryOut s changes = .ok r ∧ evaluate lines r = .ok [] := by
  obtain ⟨last, ran, result⟩ := bind_eq_ok_iff.mp asked
  cases result
  obtain ⟨base, r, reflects⟩ :=
    (Workspace.Reflects.start tidy).runLines definitions.formed columns ran
  have regular : ∀ id t, (Workspace.start s).find? id = some t → t.Regular := by
    intro id t found
    exact tidy.sound.regular_of_find? ((Workspace.find?_start s id).symm.trans found)
  obtain ⟨names, idle⟩ := idle_of_runLines definitions tables Set.Subset.rfl columns regular ran
  have alike : last.Alike (fun _ => True) (.start r) := by
    refine ⟨fun id => ?_, fun name _ => by rw [names]; rfl⟩
    rw [reflects.seen, Workspace.find?_start]
  obtain ⟨after, again, none⟩ := runLines_of_idle alike idle
  refine ⟨r, ?_, ?_⟩
  · exact (congrArg (carryOut · last.changes) base.symm).trans reflects.effective.carryOut
  · rw [evaluate, again]
    exact congrArg Except.ok none

/-- One table is a copy of a column, and one is written out below a header. -/
def copyAndPair : List Line :=
  [⟨1, .define "s" (.formula (.column "t" (some "x")))⟩,
    ⟨2, .define "u" (.literal ⟨["x", "y"], [[.number .one, .text "a"], [.number .zero, .text "b"]]⟩)⟩]

/-- The tables are made first and then found as they should be. -/
theorem definitions_settle_copied :
    ∃ changes r, evaluate copyAndPair ⟨[numbers]⟩ = .ok changes ∧ changes.length = 4 ∧
      carryOut ⟨[numbers]⟩ changes = .ok r ∧ evaluate copyAndPair r = .ok [] := by
  have tidy : (Store.mk [numbers]).Tidy := by
    refine ⟨sound_numbers.ascending, fun t member => ⟨sound_numbers.regular t member, ?_⟩⟩
    obtain rfl := List.mem_singleton.mp member
    exact List.nodup_singleton _
  have parsed : ∀ line ∈ copyAndPair, line.Parsed := by
    have read : readProgram "#s = #t.x\n#u = [x y | 1, \"a\"; 0, \"b\"]" =
        .ok [⟨none, 1, copyAndPair⟩] := by cbv
    exact fun line member => lines_parsed read _ List.mem_cons_self line member
  have defines : ∀ line ∈ copyAndPair, line.statement.definedTable?.isSome := by decide
  have only : ∀ line ∈ copyAndPair, ∀ t c, line.statement.Mentions t c → t = "t" := by
    have reads : ∀ line ∈ copyAndPair, ∀ e ∈ line.statement.exprs, ∀ p ∈ e.reads, p.1 = "t" := by
      decide
    intro line member t c mentions
    rcases Statement.mentions_iff.mp mentions with ⟨e, inLine, inner⟩ | ⟨_, _, _, _, sets, -⟩
    · exact reads line member e inLine (t, c) (Expr.mem_reads_iff.mpr inner)
    · have table := defines line member
      rw [sets] at table
      cases table
  have definitions : Definitions copyAndPair := by
    refine ⟨defines, fun line member => (parsed line member).formed, by decide, ?_⟩
    intro line member t c mentions
    obtain rfl := only line member t c mentions
    decide
  have tables : Set.InjOn Ident.of (tableNames copyAndPair) := by
    have defined : ∀ line ∈ copyAndPair, ∀ t ∈ line.statement.definedTable?, t ∈ ["s", "u", "t"] := by
      decide
    have apart : ∀ a ∈ ["s", "u", "t"], ∀ b ∈ ["s", "u", "t"], Ident.of a = Ident.of b → a = b := by
      decide +kernel
    refine Set.InjOn.mono ?_ fun a inA b inB => apart a inA b inB
    rintro t ⟨line, member, own | ⟨c, mentions⟩⟩
    · exact defined line member t own
    · rw [only line member t c mentions]
      exact List.mem_of_elem_eq_true rfl
  have columns : Set.InjOn Ident.of (columnNames copyAndPair) := by
    have named : ∀ line ∈ copyAndPair, ∀ name ∈ line.statement.columnNames, name ∈ ["1", "x", "y"] := by
      decide +kernel
    have apart : ∀ a ∈ ["1", "x", "y"], ∀ b ∈ ["1", "x", "y"], Ident.of a = Ident.of b → a = b := by
      decide +kernel
    refine Set.InjOn.mono ?_ fun a inA b inB => apart a inA b inB
    rintro name ⟨line, member, own⟩
    exact named line member name own
  obtain ⟨changes, asked, four⟩ :
      ∃ changes, evaluate copyAndPair ⟨[numbers]⟩ = .ok changes ∧ changes.length = 4 := by
    refine ⟨[.define (.of "s") "s" [.positional 1 .number], .append (.of "s") [[.number .one]],
      .define (.of "u") "u" [.named "x" .number, .named "y" .text],
      .append (.of "u") [[.number .one, .text "a"], [.number .zero, .text "b"]]], ?_, rfl⟩
    decide +kernel
  obtain ⟨r, carried, again⟩ := definitions_settle tidy definitions tables columns asked
  exact ⟨changes, r, asked, four, carried, again⟩

end Program

end Ripple
