import Ripple.Table.Regular

/-!
What each operation on a table does can be taken back, and done again, exactly: a written cell by
writing the old value, an appended row by cutting the table off above it, and the row again by
growing the table and writing the cells one after the other. The tables compared are equal as
data, so names, declarations, row counts and the bits of every cell agree.
-/

namespace Ripple.Table

variable {t u : Table} {row column : Nat} {value : Value}

/-! ## Cells -/

theorem ext_columns (id : t.id = u.id) (name : t.name = u.name) (rowCount : t.rowCount = u.rowCount)
    (columns : ∀ i : Nat, t.columns[i]? = u.columns[i]?) : t = u := by
  cases t
  cases u
  simp only [mk.injEq] at *
  exact ⟨id, name, List.ext_getElem? columns, rowCount⟩

theorem columns_put (t : Table) (row column : Nat) (value : Value) (i : Nat) :
    (t.put row column value).columns[i]? =
      (t.columns[i]?).map fun c =>
        if column = i then { c with cells := c.cells.set row value } else c := by
  rw [put, List.getElem?_modify]
  rfl

theorem cell_eq_some_iff :
    t.cell? row column = some value ↔
      ∃ c, t.columns[column]? = some c ∧ c.cells[row]? = some value := by
  simp [cell?, Option.bind_eq_some_iff]

/-- A value that is put is in its own cell, if there is one, and in no other. -/
theorem cell_put (t : Table) (row column : Nat) (value : Value) (r i : Nat) :
    (t.put row column value).cell? r i =
      if column = i ∧ row = r then (t.cell? r i).map fun _ => value else t.cell? r i := by
  simp only [cell?, columns_put]
  cases t.columns[i]? with
  | none => simp
  | some c =>
    by_cases here : column = i
    · subst here
      simp only [Option.map_some, ↓reduceIte, true_and]
      exact List.getElem?_set'
    · simp [here]

/-- Putting the content of a cell into it changes nothing. -/
theorem put_cell (held : t.cell? row column = some value) : t.put row column value = t := by
  obtain ⟨c, found, inside⟩ := cell_eq_some_iff.mp held
  refine ext_columns rfl rfl rfl ?_
  intro i
  rw [columns_put]
  by_cases here : column = i
  · subst here
    obtain ⟨bound, same⟩ := List.getElem?_eq_some_iff.mp inside
    simp only [found, Option.map_some, ↓reduceIte, ← same, List.set_getElem_self]
  · simp [here]

/-- Nothing is put where there is no cell. -/
theorem put_of_cell_none (none : t.cell? row column = none) : t.put row column value = t := by
  refine ext_columns rfl rfl rfl ?_
  intro i
  rw [columns_put]
  cases found : t.columns[i]? with
  | none => rfl
  | some c =>
    by_cases here : column = i
    · subst here
      have beyond : c.cells.length ≤ row := by simpa [cell?, found] using none
      simp [List.set_eq_of_length_le beyond]
    · simp [here]

/-- Values can be put into different cells in either order. -/
theorem put_comm {r i : Nat} {other : Value} (t : Table) (apart : (row, column) ≠ (r, i)) :
    (t.put row column value).put r i other = (t.put r i other).put row column value := by
  refine ext_columns rfl rfl rfl ?_
  intro j
  simp only [columns_put, Option.map_map]
  congr 1
  funext c
  by_cases here : column = j <;> by_cases there : i = j <;> simp [here, there]
  have rows : row ≠ r := by
    rintro rfl
    exact apart (by rw [here, there])
  exact List.set_comm _ _ rows

/-- The last value put into a cell is the one that counts. -/
theorem put_put (t : Table) (row column : Nat) (first second : Value) :
    (t.put row column first).put row column second = t.put row column second := by
  refine ext_columns rfl rfl rfl ?_
  intro i
  simp only [columns_put, Option.map_map]
  congr 1
  funext c
  by_cases here : column = i <;> simp [here, List.set_set]

theorem cell_put_self (bound : t.cell? row column ≠ none) :
    (t.put row column value).cell? row column = some value := by
  cases held : t.cell? row column with
  | none => exact absurd held bound
  | some old =>
    obtain ⟨c, found, inside⟩ := cell_eq_some_iff.mp held
    obtain ⟨within, -⟩ := List.getElem?_eq_some_iff.mp inside
    refine cell_eq_some_iff.mpr ⟨{ c with cells := c.cells.set row value }, ?_, ?_⟩
    · simp [columns_put, found]
    · simp [List.getElem?_set_self within]

/-- In a regular table a cell of a right kind within the row count is there. -/
theorem cell_of_checkWrite (regular : t.Regular) (checked : t.checkWrite row column value = .ok ()) :
    ∃ old, t.cell? row column = some old ∧ old.kind = value.kind := by
  obtain ⟨kinds, inside⟩ := checkWrite_eq_ok_iff.mp checked
  obtain ⟨c, found, same⟩ := checkKind_eq_ok_iff.mp kinds
  have fits := regular c (List.mem_of_getElem? found)
  have within : row < c.cells.length := fits.length_eq ▸ inside
  refine ⟨c.cells[row], cell_eq_some_iff.mpr ⟨c, found, List.getElem?_eq_getElem within⟩, ?_⟩
  rw [fits.kind_eq _ (List.getElem_mem within), same]

/-- Which values a column takes is a matter of the declarations alone. -/
theorem checkKind_congr (same : t.specs = u.specs) :
    t.checkKind column value = .ok () ↔ u.checkKind column value = .ok () := by
  have declared : (t.columns[column]?).map Column.spec = (u.columns[column]?).map Column.spec := by
    simpa only [specs, List.getElem?_map] using congrArg (fun specs => specs[column]?) same
  rw [checkKind_eq_ok_iff, checkKind_eq_ok_iff]
  constructor
  · rintro ⟨c, found, right⟩
    rw [found, Option.map_some, eq_comm, Option.map_eq_some_iff] at declared
    obtain ⟨d, there, agree⟩ := declared
    exact ⟨d, there, agree ▸ right⟩
  · rintro ⟨d, found, right⟩
    rw [found, Option.map_some, Option.map_eq_some_iff] at declared
    obtain ⟨c, there, agree⟩ := declared
    exact ⟨c, there, agree ▸ right⟩

/-- Which column a name stands for is a matter of the declarations alone. -/
theorem resolve?_congr (same : t.specs = u.specs) (name : ColumnRef) :
    t.resolve? name = u.resolve? name := by
  have byId (key : Ident) : t.columnIndex? key = u.columnIndex? key := by
    have first (v : Table) : v.columnIndex? key = v.specs.findIdx? (·.id = key) := by
      rw [specs, List.findIdx?_map]
      rfl
    rw [first, first, same]
  have byPosition (position : Nat) : t.positionIndex? position = u.positionIndex? position := by
    have count : t.columns.length = u.columns.length := by
      simpa [specs] using congrArg List.length same
    rw [positionIndex?, positionIndex?, count]
  cases name <;> simp only [resolve?, byId, byPosition]

/-- What a successful write does: it puts the value, and names the old one if it differs. -/
theorem write_eq_ok_iff {old : Option Value} :
    t.write row column value = .ok (u, old) ↔
      t.checkWrite row column value = .ok () ∧ u = t.put row column value ∧
        old = (t.cell? row column).filter (· ≠ value) := by
  unfold write
  cases checked : t.checkWrite row column value with
  | error reason => simp [bind, Except.bind]
  | ok _ =>
    simp only [bind, Except.bind, true_and]
    cases found : t.cell? row column with
    | none => simp [put_of_cell_none found, eq_comm]
    | some held =>
      by_cases same : held = value
      · subst same
        simp [put_cell found, Option.filter, eq_comm]
      · simp [same, Option.filter, eq_comm]

@[simp] theorem rowCount_put : (t.put row column value).rowCount = t.rowCount := rfl

@[simp] theorem id_put : (t.put row column value).id = t.id := rfl

/-- Writing the old value back takes a write back. -/
theorem write_undo (regular : t.Regular) {old : Value}
    (written : t.write row column value = .ok (u, some old)) :
    u.write row column old = .ok (t, some value) := by
  obtain ⟨checked, rfl, replaced⟩ := write_eq_ok_iff.mp written
  obtain ⟨kinds, inside⟩ := checkWrite_eq_ok_iff.mp checked
  obtain ⟨held, found, kind⟩ := cell_of_checkWrite regular checked
  rw [found, Option.filter_some] at replaced
  split at replaced
  · next differ =>
    obtain rfl := Option.some.inj replaced
    obtain ⟨c, declared, right⟩ := checkKind_eq_ok_iff.mp kinds
    have kindsBack : t.checkKind column old = .ok () :=
      checkKind_eq_ok_iff.mpr ⟨c, declared, right.trans kind.symm⟩
    refine write_eq_ok_iff.mpr ⟨?_, ?_, ?_⟩
    · exact checkWrite_eq_ok_iff.mpr ⟨(checkKind_congr (specs_put ..)).mpr kindsBack, inside⟩
    · rw [put_put, put_cell found]
    · have back : value ≠ old := fun same => of_decide_eq_true differ same.symm
      rw [cell_put_self (by simp [found]), Option.filter_some, if_pos (decide_eq_true back)]
  · cases replaced

/-! ## Growing -/

theorem growTo_of_le {count : Nat} (long : count ≤ t.rowCount) : t.growTo count = t :=
  if_pos long

@[simp] theorem id_growTo (t : Table) (count : Nat) : (t.growTo count).id = t.id := by
  unfold growTo
  split <;> rfl

/-- A write that may grow the table puts the value into the grown table. -/
theorem writeExtending_eq_put (t : Table) (row : Nat)
    (kinds : t.checkKind column value = .ok ()) :
    ∃ old, t.writeExtending row column value =
      .ok ((t.growTo (row + 1)).put row column value, old) := by
  have inside : row < (t.growTo (row + 1)).rowCount := by
    rw [rowCount_growTo]
    omega
  have checked : (t.growTo (row + 1)).checkWrite row column value = .ok () :=
    checkWrite_eq_ok_iff.mpr ⟨(checkKind_congr (specs_growTo ..)).mpr kinds, inside⟩
  refine ⟨((t.growTo (row + 1)).cell? row column).filter (· ≠ value), ?_⟩
  simp only [writeExtending, kinds, bind, Except.bind]
  exact write_eq_ok_iff.mpr ⟨checked, rfl, rfl⟩

/-! ## Rows -/

/-- Puts values into the cells of a row from a column on. -/
def putRow (t : Table) (row column : Nat) : Row → Table
  | [] => t
  | value :: values => (t.put row column value).putRow row (column + 1) values

theorem columns_putRow (t : Table) (row column : Nat) (values : Row) (i : Nat) :
    (t.putRow row column values).columns[i]? =
      (t.columns[i]?).map fun c =>
        match (if column ≤ i then values[i - column]? else none) with
        | some value => { c with cells := c.cells.set row value }
        | none => c := by
  induction values generalizing t column with
  | nil => simp [putRow]
  | cons value values ih =>
    rw [putRow, ih, columns_put, Option.map_map]
    congr 1
    funext c
    rcases Nat.lt_trichotomy i column with before | here | after
    · simp [Nat.not_le.mpr before, Nat.not_le.mpr (Nat.lt_succ_of_lt before), Nat.ne_of_gt before]
    · subst here
      simp [Nat.not_le.mpr (Nat.lt_succ_self i)]
    · obtain ⟨k, rfl⟩ := Nat.exists_eq_add_of_lt after
      have first : column + k + 1 - column = k + 1 := by omega
      have later : column + k + 1 - (column + 1) = k := by omega
      simp [Nat.le_of_lt after, Nat.succ_le_of_lt after, Nat.ne_of_lt after, first, later]

@[simp] theorem rowCount_putRow (t : Table) (row column : Nat) (values : Row) :
    (t.putRow row column values).rowCount = t.rowCount := by
  induction values generalizing t column with
  | nil => rfl
  | cons value values ih => rw [putRow, ih, rowCount_put]

/-- Rows are only accepted by a table with columns. -/
theorem columns_ne_nil_of_checkRows {rows : List Row} (checked : t.checkRows rows = .ok ())
    (nonempty : rows ≠ []) : t.columns ≠ [] := by
  intro empty
  simp [checkRows, empty, nonempty] at checked

theorem extend_nil (t : Table) : t.extend [] = t := by
  refine ext_columns rfl rfl rfl ?_
  intro i
  simp [extend]

/-- Rows can be added one at a time. -/
theorem extend_cons (t : Table) (row : Row) (rows : List Row) :
    t.extend (row :: rows) = (t.extend [row]).extend rows := by
  refine ext_columns rfl rfl ?_ ?_
  · simp only [extend, List.length_cons, List.length_nil]
    omega
  · intro i
    simp only [extend, List.getElem?_mapIdx, Option.map_map]
    congr 1
    funext c
    cases inside : row[i]? <;> simp [inside]

@[simp] theorem id_putRow (t : Table) (row column : Nat) (values : Row) :
    (t.putRow row column values).id = t.id := by
  induction values generalizing t column with
  | nil => rfl
  | cons value values ih => rw [putRow, ih, id_put]

theorem name_putRow (t : Table) (row column : Nat) (values : Row) :
    (t.putRow row column values).name = t.name := by
  induction values generalizing t column with
  | nil => rfl
  | cons value values ih => exact ih (t.put row column value) (column + 1)

theorem columns_growTo (t : Table) (i : Nat) :
    (t.growTo (t.rowCount + 1)).columns[i]? =
      (t.columns[i]?).map (Column.growTo (t.rowCount + 1)) := by
  rw [growTo, if_neg (by omega), List.getElem?_map]

theorem columns_extend (t : Table) (rows : List Row) (i : Nat) :
    (t.extend rows).columns[i]? =
      (t.columns[i]?).map fun c => { c with cells := c.cells ++ rows.filterMap (·[i]?) } := by
  rw [extend, List.getElem?_mapIdx]

@[simp] theorem id_extend (t : Table) (rows : List Row) : (t.extend rows).id = t.id := rfl

theorem specs_extend (t : Table) (rows : List Row) : (t.extend rows).specs = t.specs := by
  refine List.ext_getElem? ?_
  intro i
  simp only [specs, List.getElem?_map, columns_extend, Option.map_map]
  rfl

/-- Which rows fit is a matter of the declarations alone. -/
theorem checkRow_congr (same : t.specs = u.specs) {values : Row} :
    t.checkRow values = .ok () ↔ u.checkRow values = .ok () := by
  have width : t.columns.length = u.columns.length := by
    simpa only [specs, List.length_map] using congrArg List.length same
  simp only [checkRow_eq_ok_iff, width, checkKind_congr same]

theorem columns_ne_nil_iff_of_specs (same : t.specs = u.specs) : t.columns ≠ [] ↔ u.columns ≠ [] := by
  have length := congrArg List.length same
  rw [specs, specs, List.length_map, List.length_map] at length
  rw [← List.length_pos_iff, ← List.length_pos_iff, length]

/-- A row that fits has cells if and only if there are columns. -/
theorem ne_nil_iff_of_checkRow {values : Row} (checked : t.checkRow values = .ok ()) :
    values ≠ [] ↔ t.columns ≠ [] := by
  have width := (checkRow_eq_ok_iff.mp checked).1
  rw [← List.length_pos_iff, ← List.length_pos_iff, width]

/-- Growing a regular table by one row and filling the row cell by cell appends it. -/
theorem putRow_growTo {values : Row} (regular : t.Regular)
    (width : values.length = t.columns.length) :
    (t.growTo (t.rowCount + 1)).putRow t.rowCount 0 values = t.extend [values] := by
  have grown : t.growTo (t.rowCount + 1) =
      { t with
        columns := t.columns.map (Column.growTo (t.rowCount + 1))
        rowCount := t.rowCount + 1 } := if_neg (by omega)
  refine ext_columns ?_ ?_ ?_ ?_
  · rw [id_putRow, grown, extend]
  · rw [name_putRow, grown, extend]
  · rw [rowCount_putRow, grown, extend, List.length_singleton]
  · intro i
    rw [columns_putRow, columns_growTo, columns_extend, Option.map_map]
    cases found : t.columns[i]? with
    | none => rfl
    | some c =>
      have inside : i < values.length := by
        rw [width]
        exact (List.getElem?_eq_some_iff.mp found).choose
      have length := (regular c (List.mem_of_getElem? found)).length_eq
      simp [List.getElem?_eq_getElem inside, Column.growTo, ← length]

theorem columns_truncate {count : Nat} (long : count < t.rowCount) (i : Nat) :
    (t.truncate count).columns[i]? =
      (t.columns[i]?).map fun c => { c with cells := c.cells.take count } := by
  rw [truncate, if_neg (Nat.not_le.mpr long), List.getElem?_map]

/-- Cutting a regular table off above an appended row removes the row. -/
theorem truncate_extend (regular : t.Regular) (values : Row) :
    (t.extend [values]).truncate t.rowCount = t := by
  have longer : t.rowCount < (t.extend [values]).rowCount := Nat.lt_succ_self _
  refine ext_columns ?_ ?_ ?_ ?_
  · rw [truncate, if_neg (Nat.not_le.mpr longer), extend]
  · rw [truncate, if_neg (Nat.not_le.mpr longer), extend]
  · rw [truncate, if_neg (Nat.not_le.mpr longer)]
  · intro i
    rw [columns_truncate longer, columns_extend, Option.map_map]
    cases found : t.columns[i]? with
    | none => rfl
    | some c =>
      have length := (regular c (List.mem_of_getElem? found)).length_eq
      simp [← length]

theorem truncate_of_le {count : Nat} (short : t.rowCount ≤ count) : t.truncate count = t :=
  if_pos short

end Ripple.Table
