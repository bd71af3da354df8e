import Ripple.Proofs.ChangeCases
import Ripple.Storage

/-!
The operations on stored tables go through to their end, whatever they are given: after any of
them the columns of every table are as many as were declared, of the declared kinds and as long as
the row count, so that no value meets a column of another kind and no cell is addressed that is not
there. What is stored is what the store of `Ripple.Store` says, and an operation that is refused
has not changed anything. Every operation is described by one relation, `Does`, between the steps
in place and the result for the table or the store that is kept.
-/

namespace Ripple

/-! ## Running steps -/

namespace InPlace

variable {σ α β : Type} {reason : Refusal}

theorem run_bind (first : InPlace σ α) (next : α → InPlace σ β) (s : σ) :
    (first >>= next).run s = (first.run s).bind fun (answer, s) =>
      match answer with
      | .ok a => (next a).run s
      | .error reason => some (.error reason, s) := by
  change (first.run s).bind (fun p => ExceptT.bindCont next p.1 p.2) = _
  congr 1
  funext ⟨answer, s⟩
  cases answer <;> rfl

theorem run_pure (a : α) (s : σ) : (pure a : InPlace σ α).run s = some (.ok a, s) := rfl

theorem run_get (s : σ) : (get : InPlace σ σ).run s = some (.ok s, s) := rfl

theorem run_modify (f : σ → σ) (s : σ) :
    (modify f : InPlace σ PUnit).run s = some (.ok (), f s) := rfl

theorem run_throw (s : σ) : (throw reason : InPlace σ α).run s = some (.error reason, s) := rfl

theorem run_check (result : Except Refusal α) (s : σ) :
    (check result : InPlace σ α).run s = some (result, s) := rfl

theorem run_reach (a : α) (s : σ) : (reach (some a) : InPlace σ α).run s = some (.ok a, s) := rfl

end InPlace

open InPlace

/-! ## Columns -/

namespace Cells

variable {c : Cells} {row : Nat} {value : Value}

theorem kind_ofKind (k : Kind) : (ofKind k).kind = k := by cases k <;> rfl

theorem values_ofKind (k : Kind) : (ofKind k).values = [] := by cases k <;> rfl

theorem length_values (c : Cells) : c.values.length = c.length := by
  cases c <;> exact List.length_map _

theorem kind_of_mem_values (held : value ∈ c.values) : value.kind = c.kind := by
  cases c <;>
  · obtain ⟨x, -, rfl⟩ := List.mem_map.mp held
    rfl

theorem get?_eq (c : Cells) (row : Nat) : c.get? row = c.values[row]? := by
  cases c <;> simp [get?, values]

/-- A value of the kind of the column replaces a cell that is there. -/
theorem exists_set? (kinds : c.kind = value.kind) (inside : row < c.length) :
    ∃ d, c.set? row value = some d ∧ d.kind = c.kind ∧ d.values = c.values.set row value := by
  cases c <;> cases value <;> cases kinds <;>
    exact ⟨_, congrArg (Option.map _) (if_pos inside), rfl, List.map_set⟩

/-- A value of the kind of the column is pushed. -/
theorem exists_push? (kinds : c.kind = value.kind) :
    ∃ d, c.push? value = some d ∧ d.kind = c.kind ∧ d.values = c.values ++ [value] := by
  cases c <;> cases value <;> cases kinds <;> exact ⟨_, rfl, rfl, List.map_append⟩

theorem kind_truncate (count : Nat) (c : Cells) : (c.truncate count).kind = c.kind := by
  cases c <;> rfl

theorem values_truncate (count : Nat) (c : Cells) :
    (c.truncate count).values = c.values.take count := by
  cases c <;> exact List.map_take

theorem kind_grow (count : Nat) (c : Cells) : (c.grow count).kind = c.kind := by cases c <;> rfl

/-- Making a column longer adds defaults of its kind and keeps what is there. -/
theorem values_grow {count : Nat} (longer : c.length ≤ count) :
    (c.grow count).values = c.values ++ List.replicate (count - c.length) c.kind.default := by
  cases c <;>
    simp [grow, resize, values, kind, Kind.default, length, List.take_of_length_le longer]

end Cells

/-! ## Stored tables -/

namespace Sheet

variable {sheet : Sheet} {row column : Nat} {value : Value} {i : Nat}

/-- There is one column for each declaration, of the declared kind, and all columns are as long as
the row count. -/
structure Sound (sheet : Sheet) : Prop where
  kinds_eq : sheet.data.map Cells.kind = sheet.specs.map ColumnSpec.kind
  length_eq : ∀ cells ∈ sheet.data, cells.length = sheet.rows

theorem sound_blank (id : Ident) (name : String) (specs : List ColumnSpec) :
    (blank id name specs).Sound where
  kinds_eq := by simp [blank, Cells.kind_ofKind]
  length_eq cells member := by
    obtain ⟨spec, -, rfl⟩ := List.mem_map.mp member
    rw [← Cells.length_values, Cells.values_ofKind]
    rfl

theorem table_blank (id : Ident) (name : String) (specs : List ColumnSpec) :
    (blank id name specs).table = Table.empty id name specs := by
  simp [table, blank, Table.empty, List.zipWith_map_right, Cells.values_ofKind]

theorem columns_table (sheet : Sheet) (i : Nat) :
    sheet.table.columns[i]? = (sheet.specs[i]?).bind fun spec =>
      (sheet.data[i]?).map fun cells => ⟨spec, cells.values⟩ := by
  simp only [table, List.getElem?_zipWith]
  cases sheet.specs[i]? <;> cases sheet.data[i]? <;> rfl

namespace Sound

variable (sound : sheet.Sound)
include sound

theorem length_data : sheet.data.length = sheet.specs.length := by
  simpa using congrArg List.length sound.kinds_eq

/-- A declared column is stored, with its kind and length. -/
theorem exists_cells {spec : ColumnSpec} (declared : sheet.specs[i]? = some spec) :
    ∃ cells, sheet.data[i]? = some cells ∧ cells.kind = spec.kind ∧ cells.length = sheet.rows ∧
      sheet.table.columns[i]? = some ⟨spec, cells.values⟩ := by
  have inside : i < sheet.data.length := by
    rw [sound.length_data]
    exact (List.getElem?_eq_some_iff.mp declared).choose
  have stored := List.getElem?_eq_getElem inside
  have kinds := congrArg (fun kinds => kinds[i]?) sound.kinds_eq
  simp only [List.getElem?_map, stored, declared, Option.map_some, Option.some.injEq] at kinds
  refine ⟨sheet.data[i], stored, kinds, sound.length_eq _ (List.getElem_mem inside), ?_⟩
  rw [columns_table, declared, stored]
  rfl

/-- A column of the table that is stored, with the cells that store it. -/
theorem exists_stored {c : Column} (found : sheet.table.columns[i]? = some c) :
    ∃ cells, sheet.data[i]? = some cells ∧ cells.kind = c.spec.kind ∧ cells.length = sheet.rows ∧
      cells.values = c.cells := by
  cases declared : sheet.specs[i]? with
  | none => simp [columns_table, declared] at found
  | some spec =>
    obtain ⟨cells, stored, kinds, length, column⟩ := sound.exists_cells declared
    obtain rfl := Option.some.inj (column.symm.trans found)
    exact ⟨cells, stored, kinds, length, rfl⟩

theorem specs_table : sheet.table.specs = sheet.specs := by
  refine List.ext_getElem? ?_
  intro i
  rw [Table.specs, List.getElem?_map]
  cases declared : sheet.specs[i]? with
  | none => rw [columns_table, declared]; rfl
  | some spec =>
    obtain ⟨cells, -, -, -, column⟩ := sound.exists_cells declared
    rw [column]
    rfl

theorem regular_table : sheet.table.Regular := by
  intro c member
  obtain ⟨i, found⟩ := List.mem_iff_getElem?.mp member
  obtain ⟨cells, -, kinds, length, values⟩ := sound.exists_stored found
  exact ⟨values ▸ (Cells.length_values cells).trans length,
    fun v held => (Cells.kind_of_mem_values (values ▸ held)).trans kinds⟩

/-! ### Checks -/

theorem checkKind_eq (column : Nat) (value : Value) :
    sheet.checkKind column value = sheet.table.checkKind column value := by
  unfold checkKind Table.checkKind
  cases declared : sheet.specs[column]? with
  | none =>
    rw [columns_table, declared]
    rfl
  | some spec =>
    obtain ⟨cells, -, -, -, found⟩ := sound.exists_cells declared
    rw [found]
    rfl

theorem checkWrite_eq (row column : Nat) (value : Value) :
    sheet.checkWrite row column value = sheet.table.checkWrite row column value := by
  rw [checkWrite, Table.checkWrite, sound.checkKind_eq]
  rfl

theorem checkKinds_eq (column : Nat) (values : Row) :
    sheet.checkKinds column values = sheet.table.checkKinds column values := by
  induction values generalizing column with
  | nil => rfl
  | cons value values ih => rw [checkKinds, Table.checkKinds, sound.checkKind_eq, ih]

theorem length_columns : sheet.table.columns.length = sheet.specs.length := by
  simpa [Table.specs] using congrArg List.length sound.specs_table

theorem checkRows_eq (rows : List Row) : sheet.checkRows rows = sheet.table.checkRows rows := by
  have width := sound.length_columns
  have each : sheet.checkRow = sheet.table.checkRow := by
    funext values
    rw [checkRow, Table.checkRow, sound.checkKinds_eq, width]
    rfl
  have columns : sheet.specs.isEmpty = sheet.table.columns.isEmpty := by
    rw [Bool.eq_iff_iff, List.isEmpty_iff_length_eq_zero, List.isEmpty_iff_length_eq_zero, width]
  rw [checkRows, Table.checkRows, each, columns]
  rfl

end Sound

/-! ### Changes -/

/-- A step in place does what a result says about the table that is kept: where the result is a
refusal it refuses and leaves everything, and otherwise it gives the answer and leaves a sound
table, kept under the same identifier, that is the table of the result. -/
def Does {α : Type} (step : InPlace Sheet α) (sheet : Sheet) : Except Refusal (Table × α) → Prop
  | .error reason => step.run sheet = some (.error reason, sheet)
  | .ok (t, answer) =>
    ∃ after, step.run sheet = some (.ok answer, after) ∧ after.Sound ∧ after.id = sheet.id ∧
      after.table = t

/-- Columns of other lengths, or with other values, but of the same kinds. -/
theorem sound_replace {data : List Cells} {rows : Nat} (sound : sheet.Sound)
    (kinds : data.map Cells.kind = sheet.data.map Cells.kind)
    (lengths : ∀ cells ∈ data, cells.length = rows) :
    Sound { sheet with data := data, rows := rows } where
  kinds_eq := kinds.trans sound.kinds_eq
  length_eq := lengths

/-- Replacing a cell of a column by one of the same kind. -/
theorem sound_set {cells changed : Cells} (sound : sheet.Sound)
    (stored : sheet.data[column]? = some cells) (keeps : changed.kind = cells.kind)
    (values : changed.values = cells.values.set row value) :
    Sound { sheet with data := sheet.data.set column changed } := by
  refine sound_replace sound ?_ ?_
  · refine List.ext_getElem? ?_
    intro i
    rw [List.map_set, List.getElem?_set', keeps]
    by_cases here : column = i
    · subst here
      simp [stored]
    · simp [here]
  · intro other member
    rcases List.mem_or_eq_of_mem_set member with old | rfl
    · exact sound.length_eq other old
    · rw [← Cells.length_values, values, List.length_set, Cells.length_values]
      exact sound.length_eq cells (List.mem_of_getElem? stored)

/-- Storing a cell of a column. -/
theorem table_set {cells : Cells} (stored : sheet.data[column]? = some cells) {changed : Cells}
    (values : changed.values = cells.values.set row value) :
    ({ sheet with data := sheet.data.set column changed } : Sheet).table =
      sheet.table.put row column value := by
  refine Table.ext_columns rfl rfl rfl ?_
  intro i
  rw [Table.columns_put, columns_table, columns_table]
  simp only [List.getElem?_set]
  by_cases here : column = i
  · subst here
    obtain ⟨inside, -⟩ := List.getElem?_eq_some_iff.mp stored
    rw [if_pos rfl, if_pos inside, stored]
    cases sheet.specs[column]? <;> simp [values]
  · cases sheet.specs[i]? <;> cases sheet.data[i]? <;> simp [here]

theorem write_does (sound : sheet.Sound) (row column : Nat) (value : Value) :
    sheet.Does (write row column value) (sheet.table.write row column value) := by
  unfold Table.write
  cases checked : sheet.table.checkWrite row column value with
  | error reason =>
    change (write row column value).run sheet = _
    simp only [write, run_bind, run_get, run_check, Option.bind_some, sound.checkWrite_eq, checked]
  | ok _ =>
    obtain ⟨kinds, within⟩ := Table.checkWrite_eq_ok_iff.mp checked
    obtain ⟨c, found, kind⟩ := Table.checkKind_eq_ok_iff.mp kinds
    obtain ⟨cells, stored, right, length, values⟩ := sound.exists_stored found
    obtain ⟨old, held, -⟩ := Table.cell_of_checkWrite sound.regular_table checked
    have get : cells.get? row = some old := by
      rw [Cells.get?_eq, values, ← held, Table.cell?, found]
      rfl
    simp only [bind, Except.bind, held]
    by_cases same : old = value
    · rw [if_pos same]
      refine ⟨sheet, ?_, sound, rfl, rfl⟩
      simp only [write, run_bind, run_get, run_check, Option.bind_some, sound.checkWrite_eq, checked,
        stored, run_reach, get, same, ↓reduceIte, run_pure]
    · rw [if_neg same]
      obtain ⟨changed, set, keeps, replaced⟩ :=
        Cells.exists_set? (right.trans kind) (Nat.lt_of_lt_of_eq within length.symm)
      refine ⟨{ sheet with data := sheet.data.set column changed }, ?_,
        sound_set sound stored keeps replaced, rfl, table_set stored replaced⟩
      simp only [write, run_bind, run_get, run_check, Option.bind_some, sound.checkWrite_eq,
        checked, stored, run_reach, get, Option.some.injEq, same, ↓reduceIte, set, run_modify,
        run_pure]

/-! ### Rows -/

/-- The values of a row are pushed to the columns that are left, if the kinds agree. -/
theorem run_pushRow {back : List Cells} {values : Row}
    (kinds : values.map Value.kind = back.map Cells.kind) (front : List Cells)
    (split : sheet.data = front ++ back) :
    ∃ longer, (pushRow front.length values).run sheet =
        some (.ok (), { sheet with data := front ++ longer }) ∧
      longer.map Cells.kind = back.map Cells.kind ∧
      longer.map Cells.values = List.zipWith (fun c v => c.values ++ [v]) back values := by
  induction values generalizing back front sheet with
  | nil =>
    obtain rfl : back = [] := by simpa using kinds
    exact ⟨[], by rw [← split]; rfl, rfl, rfl⟩
  | cons value values ih =>
    cases back with
    | nil => cases kinds
    | cons cells back =>
      rw [List.map_cons, List.map_cons, List.cons.injEq] at kinds
      obtain ⟨first, kinds⟩ := kinds
      obtain ⟨changed, pushed, keeps, added⟩ := Cells.exists_push? first.symm
      have stored : sheet.data[front.length]? = some cells := by simp [split]
      let next : Sheet := { sheet with data := sheet.data.set front.length changed }
      have after : next.data = (front ++ [changed]) ++ back := by simp [next, split]
      obtain ⟨longer, run, sameKinds, sameValues⟩ := ih kinds (front ++ [changed]) after
      refine ⟨changed :: longer, ?_, ?_, ?_⟩
      · rw [List.length_append, List.length_singleton, List.append_assoc,
          List.singleton_append] at run
        simp only [pushRow, run_bind, run_get, Option.bind_some, stored, run_reach, pushed,
          run_modify]
        exact run
      · rw [List.map_cons, List.map_cons, keeps, sameKinds]
      · rw [List.map_cons, List.zipWith_cons_cons, added, sameValues]

/-- A row that fits has the kinds of the columns. -/
theorem kinds_of_checkRow (sound : sheet.Sound) {values : Row}
    (checked : sheet.table.checkRow values = .ok ()) :
    values.map Value.kind = sheet.data.map Cells.kind := by
  obtain ⟨width, kinds⟩ := Table.checkRow_eq_ok_iff.mp checked
  have lengths : values.length = sheet.data.length := by
    rw [width, sound.length_columns, sound.length_data]
  refine List.ext_getElem (by simpa using lengths) ?_
  intro i inside _
  rw [List.length_map] at inside
  obtain ⟨c, found, right⟩ :=
    Table.checkKind_eq_ok_iff.mp (kinds i values[i] (List.getElem?_eq_getElem inside))
  obtain ⟨cells, stored, kind, -⟩ := sound.exists_stored found
  obtain ⟨_, here⟩ := List.getElem?_eq_some_iff.mp stored
  rw [List.getElem_map, List.getElem_map, here, kind, right]

/-- A row that fits is pushed as a whole. -/
theorem pushRow_extends (sound : sheet.Sound) {values : Row}
    (checked : sheet.table.checkRow values = .ok ()) :
    ∃ data, (pushRow 0 values).run sheet = some (.ok (), { sheet with data := data }) ∧
      Sound { sheet with data := data, rows := sheet.rows + 1 } ∧
      ({ sheet with data := data, rows := sheet.rows + 1 } : Sheet).table =
        sheet.table.extend [values] := by
  have kinds := kinds_of_checkRow sound checked
  obtain ⟨longer, run, sameKinds, sameValues⟩ := run_pushRow kinds [] rfl
  have width : values.length = sheet.data.length := by simpa using congrArg List.length kinds
  have each {i : Nat} {cells : Cells} (stored : sheet.data[i]? = some cells) :
      ∃ changed value, longer[i]? = some changed ∧ values[i]? = some value ∧
        changed.values = cells.values ++ [value] := by
    have inside : i < values.length := width ▸ (List.getElem?_eq_some_iff.mp stored).choose
    have added := congrArg (fun columns => columns[i]?) sameValues
    simp only [List.getElem?_map, List.getElem?_zipWith, stored,
      List.getElem?_eq_getElem inside, Option.map_eq_some_iff] at added
    obtain ⟨changed, there, same⟩ := added
    exact ⟨changed, values[i], there, List.getElem?_eq_getElem inside, same⟩
  refine ⟨longer, run, sound_replace sound sameKinds ?_, Table.ext_columns rfl rfl rfl ?_⟩
  · intro changed member
    obtain ⟨i, there⟩ := List.mem_iff_getElem?.mp member
    have inside : i < sheet.data.length := by
      have lengths := congrArg List.length sameKinds
      rw [List.length_map, List.length_map] at lengths
      exact lengths ▸ (List.getElem?_eq_some_iff.mp there).choose
    obtain ⟨_, value, again, -, same⟩ := each (List.getElem?_eq_getElem inside)
    obtain rfl := Option.some.inj (there.symm.trans again)
    rw [← Cells.length_values, same, List.length_append, Cells.length_values,
      sound.length_eq _ (List.getElem_mem inside), List.length_singleton]
  · intro i
    rw [Table.columns_extend, columns_table, columns_table]
    cases declared : sheet.specs[i]? with
    | none => rfl
    | some spec =>
      obtain ⟨cells, stored, -⟩ := sound.exists_cells declared
      obtain ⟨changed, value, there, given, same⟩ := each stored
      simp [stored, there, given, same]

/-- Rows that all fit are pushed one after the other. -/
theorem pushRows_extends {rows : List Row} (sound : sheet.Sound)
    (checked : ∀ values ∈ rows, sheet.table.checkRow values = .ok ()) :
    ∃ after, (pushRows rows).run sheet = some (.ok (), after) ∧ after.Sound ∧
      after.table = sheet.table.extend rows := by
  induction rows generalizing sheet with
  | nil => exact ⟨sheet, rfl, sound, (Table.extend_nil _).symm⟩
  | cons values rows ih =>
    obtain ⟨fits, checked⟩ := List.forall_mem_cons.mp checked
    obtain ⟨data, pushed, longer, extended⟩ := pushRow_extends sound fits
    obtain ⟨after, run, soundAfter, table⟩ := ih longer fun row member =>
      (Table.checkRow_congr (extended ▸ Table.specs_extend _ _)).mpr (checked row member)
    refine ⟨after, ?_, soundAfter, ?_⟩
    · simp only [pushRows, run_bind, pushed, Option.bind_some, run_modify, run]
    · rw [table, extended, ← Table.extend_cons]

theorem append_does (sound : sheet.Sound) (rows : List Row) :
    sheet.Does (append rows)
      ((sheet.table.append rows).map fun longer =>
        (longer, sheet.table.rowCount, longer.rowCount)) := by
  unfold Table.append
  cases checked : sheet.table.checkRows rows with
  | error reason =>
    change (append rows).run sheet = _
    simp only [append, run_bind, run_get, run_check, Option.bind_some, sound.checkRows_eq, checked]
  | ok _ =>
    obtain ⟨after, run, soundAfter, table⟩ := pushRows_extends sound fun values member =>
      Table.checkRow_of_checkRows checked member
    have rowCount : after.rows = (sheet.table.extend rows).rowCount := table ▸ rfl
    refine ⟨after, ?_, soundAfter, congrArg Table.id table, table⟩
    simp only [append, run_bind, run_get, run_check, Option.bind_some, sound.checkRows_eq, checked,
      run, run_pure, rowCount]
    rfl

/-! ### Growing and shrinking -/

theorem sound_map (sound : sheet.Sound) {change : Cells → Cells} {count : Nat}
    (kinds : ∀ c, (change c).kind = c.kind)
    (lengths : ∀ c ∈ sheet.data, (change c).length = count) :
    Sound { sheet with data := sheet.data.map change, rows := count } := by
  refine sound_replace sound ?_ ?_
  · rw [List.map_map]
    exact List.map_congr_left fun c _ => kinds c
  · intro c member
    obtain ⟨d, stored, rfl⟩ := List.mem_map.mp member
    exact lengths d stored

/-- Changing every column changes the table column by column. -/
theorem table_map (sound : sheet.Sound) {change : Cells → Cells} {column : Column → Column}
    {count : Nat} (agree : ∀ c ∈ sheet.data, ∀ spec : ColumnSpec, c.kind = spec.kind →
      column ⟨spec, c.values⟩ = ⟨spec, (change c).values⟩) :
    ({ sheet with data := sheet.data.map change, rows := count } : Sheet).table =
      { sheet.table with columns := sheet.table.columns.map column, rowCount := count } := by
  refine Table.ext_columns rfl rfl rfl ?_
  intro i
  change _ = (sheet.table.columns.map column)[i]?
  rw [columns_table, List.getElem?_map, List.getElem?_map, columns_table]
  cases declared : sheet.specs[i]? with
  | none => rfl
  | some spec =>
    obtain ⟨cells, stored, kinds, -⟩ := sound.exists_cells declared
    simp [stored, agree cells (List.mem_of_getElem? stored) spec kinds]

theorem growTo_does (sound : sheet.Sound) (count : Nat) :
    sheet.Does (growTo count) (.ok (sheet.table.growTo count, ())) := by
  by_cases long : count ≤ sheet.rows
  · refine ⟨sheet, ?_, sound, rfl, (Table.growTo_of_le long).symm⟩
    simp only [growTo, run_modify, long, ↓reduceIte]
  · have short {c : Cells} (member : c ∈ sheet.data) : c.length ≤ count :=
      sound.length_eq c member ▸ Nat.le_of_not_le long
    refine ⟨{ sheet with data := sheet.data.map (Cells.grow count), rows := count }, ?_, ?_, rfl, ?_⟩
    · simp only [growTo, run_modify, long, ↓reduceIte]
    · refine sound_map sound (Cells.kind_grow count) ?_
      intro c member
      rw [← Cells.length_values, Cells.values_grow (short member), List.length_append,
        List.length_replicate, Cells.length_values]
      exact Nat.add_sub_cancel' (short member)
    · unfold Table.growTo
      rw [if_neg (show ¬ count ≤ sheet.table.rowCount from long)]
      refine table_map sound ?_
      intro c member spec kinds
      rw [Column.growTo, Cells.values_grow (short member), Cells.length_values, kinds]

theorem truncate_does (sound : sheet.Sound) (count : Nat) :
    sheet.Does (truncate count) (.ok (sheet.table.truncate count, ())) := by
  by_cases short : sheet.rows ≤ count
  · refine ⟨sheet, ?_, sound, rfl, (Table.truncate_of_le short).symm⟩
    simp only [truncate, run_modify, short, ↓reduceIte]
  · refine ⟨{ sheet with data := sheet.data.map (Cells.truncate count), rows := count }, ?_, ?_, rfl, ?_⟩
    · simp only [truncate, run_modify, short, ↓reduceIte]
    · refine sound_map sound (Cells.kind_truncate count) ?_
      intro c member
      rw [← Cells.length_values, Cells.values_truncate, List.length_take, Cells.length_values,
        sound.length_eq c member]
      exact Nat.min_eq_left (Nat.le_of_not_le short)
    · unfold Table.truncate
      rw [if_neg (show ¬ sheet.table.rowCount ≤ count from short)]
      exact table_map sound fun c _ spec _ => by rw [Cells.values_truncate]

theorem writeExtending_does (sound : sheet.Sound) (row column : Nat) (value : Value) :
    sheet.Does (writeExtending row column value) (sheet.table.writeExtending row column value) := by
  cases checked : sheet.table.checkKind column value with
  | error reason =>
    simp only [Table.writeExtending, checked, bind, Except.bind]
    change (writeExtending row column value).run sheet = _
    simp only [writeExtending, run_bind, run_get, run_check, Option.bind_some, sound.checkKind_eq,
      checked]
  | ok _ =>
    obtain ⟨grown, grows, soundGrown, own, table⟩ := growTo_does sound (row + 1)
    obtain ⟨old, extended⟩ := Table.writeExtending_eq_put _ row checked
    -- once the value has the right kind, nothing after the growing is refused
    have written := extended
    simp only [Table.writeExtending, checked, bind, Except.bind, ← table] at written
    have does := write_does soundGrown row column value
    rw [written] at does
    obtain ⟨after, run, soundAfter, ownAfter, tableAfter⟩ := does
    rw [extended]
    refine ⟨after, ?_, soundAfter, ownAfter.trans own, table ▸ tableAfter⟩
    simp only [writeExtending, run_bind, run_get, run_check, Option.bind_some, sound.checkKind_eq,
      checked, grows, run]

end Sheet

/-! ## Stored stores -/

namespace Shelf

variable {α β : Type} {shelf : Shelf} {store : Store} {id : Ident} {sheet : Sheet}

/-- Every table is stored under its own identifier and is sound. -/
def Sound (shelf : Shelf) : Prop := ∀ id sheet, shelf id = some sheet → sheet.id = id ∧ sheet.Sound

/-- What is stored is sound, and is the tables of a store. -/
structure Shows (shelf : Shelf) (store : Store) : Prop where
  sound : shelf.Sound
  find?_eq : ∀ id, store.find? id = (shelf id).map Sheet.table

theorem shows_empty : empty.Shows .empty where
  sound id sheet none := by cases none
  find?_eq id := rfl

theorem place_self (stored : shelf id = some sheet) : shelf.place id (some sheet) = shelf := by
  funext key
  unfold place
  split
  · next same => rw [same, stored]
  · rfl

theorem shows_put (shows : shelf.Shows store) (sound : sheet.Sound) (own : sheet.id = id) :
    (shelf.place id (some sheet)).Shows (store.put sheet.table) where
  sound key other found := by
    unfold place at found
    split at found
    · next same =>
      cases found
      exact ⟨own.trans same.symm, sound⟩
    · exact shows.sound key other found
  find?_eq key := by
    rw [Store.find?_put, shows.find?_eq, place]
    by_cases here : key = id
    · simp [here, Sheet.table, own]
    · have elsewhere : sheet.table.id ≠ key := fun same => here (same.symm.trans own)
      simp [here, elsewhere]

theorem shows_erase (shows : shelf.Shows store) (id : Ident) :
    (shelf.place id none).Shows (store.erase id) where
  sound key other found := by
    unfold place at found
    split at found
    · cases found
    · exact shows.sound key other found
  find?_eq key := by
    rw [Store.find?_erase, shows.find?_eq, place]
    by_cases here : key = id
    · simp [here]
    · simp [here, Ne.symm here]

/-- A step in place does what a result says about the store that is kept: where the result is a
refusal it refuses and leaves everything, and otherwise it gives the answer and leaves the tables
of the store of the result. -/
def Does (step : InPlace Shelf α) (shelf : Shelf) : Except Refusal (Store × α) → Prop
  | .error reason => step.run shelf = some (.error reason, shelf)
  | .ok (store, answer) => ∃ after, step.run shelf = some (.ok answer, after) ∧ after.Shows store

/-- A step whose answer is given in other words. -/
theorem Does.map {step : InPlace Shelf α} {result : Except Refusal (Store × α)}
    (does : shelf.Does step result) (f : α → β) {other : Except Refusal (Store × β)}
    (same : other = result.map fun (store, answer) => (store, f answer)) :
    shelf.Does (do return f (← step)) other := by
  subst same
  cases result with
  | error reason =>
    have refused : step.run shelf = some (.error reason, shelf) := does
    change (step >>= fun a => pure (f a) : InPlace Shelf β).run shelf = some (.error reason, shelf)
    rw [run_bind, refused]
    rfl
  | ok result =>
    obtain ⟨after, run, shows⟩ := does
    refine ⟨after, ?_, shows⟩
    rw [run_bind, run]
    rfl

/-- What a step does to a table it does to the table in the store. -/
theorem within_does (shows : shelf.Shows store) (id : Ident) {step : InPlace Sheet α}
    (change : Table → Except Refusal (Table × α))
    (does : ∀ sheet : Sheet, sheet.Sound → sheet.Does step (change sheet.table)) :
    shelf.Does (within id step) (do
      let t ← store.get id
      let (t, answer) ← change t
      return (store.put t, answer)) := by
  have found := shows.find?_eq id
  cases stored : shelf id with
  | none =>
    simp only [Store.get, found, stored, Option.map_none, bind, Except.bind]
    change (within id step).run shelf = _
    simp only [within, run_bind, run_get, Option.bind_some, stored, run_throw]
  | some sheet =>
    obtain ⟨own, sound⟩ := shows.sound id sheet stored
    simp only [Store.get, found, stored, Option.map_some, bind, Except.bind]
    have outcome := does sheet sound
    cases changed : change sheet.table with
    | error reason =>
      rw [changed] at outcome
      have refused : step.run sheet = some (.error reason, sheet) := outcome
      change (within id step).run shelf = _
      simp only [within, run_bind, run_get, Option.bind_some, stored, refused, run_reach,
        run_modify, run_check, place_self stored]
    | ok result =>
      rw [changed] at outcome
      obtain ⟨after, run, soundAfter, same, table⟩ := outcome
      refine ⟨shelf.place id (some after), ?_, table ▸ shows_put shows soundAfter (same.trans own)⟩
      simp only [within, run_bind, run_get, Option.bind_some, stored, run, run_reach,
        run_modify, run_check]

/-! ### The operations -/

theorem writeCell_does (shows : shelf.Shows store) (id : Ident) (row column : Nat) (value : Value) :
    shelf.Does (within id (Sheet.write row column value)) (store.writeCell id row column value) :=
  within_does shows id (Table.write · row column value) fun _ sound =>
    Sheet.write_does sound row column value

theorem writeCellExtending_does (shows : shelf.Shows store) (id : Ident) (row column : Nat)
    (value : Value) :
    shelf.Does (within id (Sheet.writeExtending row column value))
      (store.writeCellExtending id row column value) :=
  within_does shows id (Table.writeExtending · row column value) fun _ sound =>
    Sheet.writeExtending_does sound row column value

theorem appendRows_does (shows : shelf.Shows store) (id : Ident) (rows : List Row) :
    shelf.Does (within id (Sheet.append rows)) (store.appendRows id rows) := by
  have same : store.appendRows id rows = do
      let t ← store.get id
      let (t, answer) ← (t.append rows).map fun longer => (longer, t.rowCount, longer.rowCount)
      return (store.put t, answer) := by
    unfold Store.appendRows
    cases store.get id with
    | error reason => rfl
    | ok t =>
      simp only [bind, Except.bind]
      cases t.append rows <;> rfl
  rw [same]
  exact within_does shows id _ fun _ sound => Sheet.append_does sound rows

theorem truncateRows_does (shows : shelf.Shows store) (id : Ident) (count : Nat) :
    shelf.Does (within id (Sheet.truncate count))
      ((store.truncateRows id count).map (·, ())) := by
  have same : ((store.truncateRows id count).map (·, ())) = do
      let t ← store.get id
      let (t, answer) ← .ok (t.truncate count, ())
      return (store.put t, answer) := by
    unfold Store.truncateRows
    cases store.get id <;> rfl
  rw [same]
  exact within_does shows id _ fun _ sound => Sheet.truncate_does sound count

theorem create_does (shows : shelf.Shows store) (id : Ident) (name : String)
    (specs : List ColumnSpec) (rows : List Row) :
    shelf.Does (create id name specs rows)
      ((store.create id name specs rows).map (·, ())) := by
  have contains : store.contains id = (shelf id).isSome := by
    rw [Store.contains_eq_isSome_find?, shows.find?_eq, Option.isSome_map]
  unfold Store.create
  rw [contains]
  cases stored : shelf id with
  | some sheet =>
    change (create id name specs rows).run shelf = some (.error (.tableExists id), shelf)
    simp only [create, run_bind, run_get, Option.bind_some, stored, Option.isSome_some, ↓reduceIte,
      run_throw]
  | none =>
    have outcome := Sheet.append_does (Sheet.sound_blank id name specs) rows
    rw [Sheet.table_blank] at outcome
    cases appended : (Table.empty id name specs).append rows with
    | error reason =>
      rw [appended] at outcome
      have refused : (Sheet.append rows).run (.blank id name specs) = some (.error reason, _) :=
        outcome
      change (create id name specs rows).run shelf = some (.error reason, shelf)
      simp only [create, run_bind, run_get, Option.bind_some, stored, Option.isSome_none,
        Bool.false_eq_true, ↓reduceIte, refused, run_reach, run_check]
    | ok t =>
      rw [appended] at outcome
      obtain ⟨after, run, sound, own, table⟩ := outcome
      refine ⟨shelf.place id (some after), ?_, table ▸ shows_put shows sound own⟩
      simp only [create, run_bind, run_get, Option.bind_some, stored, Option.isSome_none,
        Bool.false_eq_true, ↓reduceIte, run, run_reach, run_check, run_modify]

theorem drop_does (shows : shelf.Shows store) (id : Ident) :
    shelf.Does (drop id) (.ok (store.erase id, shelf id)) :=
  ⟨shelf.place id none, rfl, shows_erase shows id⟩

theorem revert_does (shows : shelf.Shows store) (effect : Effect) :
    shelf.Does (revert effect) ((effect.revert store).map (·, ())) := by
  cases effect with
  | cell id row column old new =>
    cases old with
    | none => exact truncateRows_does shows id row
    | some old =>
      have same : ((Effect.cell id row column (some old) new).revert store).map (·, ()) =
          (store.writeCell id row column old).map fun done => (done.1, ()) := by
        simp only [Effect.revert]
        cases store.writeCell id row column old <;> rfl
      exact (writeCell_does shows id row column old).map (fun _ => ()) same
  | created id name specs =>
    have found := shows.find?_eq id
    simp only [Effect.revert, Store.drop]
    rw [Store.contains_eq_isSome_find?, found, Option.isSome_map]
    cases stored : shelf id with
    | none =>
      have absent : shelf.place id none = shelf := by
        funext key
        by_cases here : key = id <;> simp [place, here, stored]
      change (revert (.created id name specs)).run shelf = some (.error (.noSuchTable id), shelf)
      simp only [revert, run_bind, drop, run_get, Option.bind_some, run_modify, stored, run_pure,
        Option.isNone_none, ↓reduceIte, run_throw, absent]
    | some sheet =>
      refine ⟨shelf.place id none, ?_, shows_erase shows id⟩
      simp only [revert, run_bind, drop, run_get, Option.bind_some, run_modify, stored, run_pure,
        Option.isNone_some, Bool.false_eq_true, ↓reduceIte]

theorem replay_does (shows : shelf.Shows store) (effect : Effect) :
    shelf.Does (replay effect) ((effect.replay store).map (·, ())) := by
  cases effect with
  | cell id row column old new =>
    have same : ((Effect.cell id row column old new).replay store).map (·, ()) =
        (store.writeCellExtending id row column new).map fun done => (done.1, ()) := by
      simp only [Effect.replay]
      cases store.writeCellExtending id row column new <;> rfl
    exact (writeCellExtending_does shows id row column new).map (fun _ => ()) same
  | created id name specs => exact create_does shows id name specs []

/-- An operation in place does what it does to a store. -/
theorem Operation.does (shows : shelf.Shows store) (operation : Operation) :
    shelf.Does operation.run (operation.perform store) := by
  cases operation with
  | create id name specs rows =>
    refine (create_does shows id name specs rows).map (fun _ => Answer.done) ?_
    simp only [perform]
    cases store.create id name specs rows <;> rfl
  | drop id =>
    refine (drop_does shows id).map (fun sheet => Answer.removed (sheet.map Sheet.table)) ?_
    simp only [perform, shows.find?_eq]
    rfl
  | writeCell id row column value =>
    refine (writeCell_does shows id row column value).map Answer.replaced ?_
    simp only [perform]
    cases store.writeCell id row column value <;> rfl
  | writeCellExtending id row column value =>
    refine (writeCellExtending_does shows id row column value).map Answer.replaced ?_
    simp only [perform]
    cases store.writeCellExtending id row column value <;> rfl
  | appendRows id rows =>
    refine (appendRows_does shows id rows).map (fun span => Answer.added span.1 span.2) ?_
    simp only [perform]
    cases store.appendRows id rows <;> rfl
  | truncateRows id count =>
    refine (truncateRows_does shows id count).map (fun _ => Answer.done) ?_
    simp only [perform]
    cases store.truncateRows id count <;> rfl
  | clear => exact ⟨empty, rfl, shows_empty⟩
  | revert effect =>
    refine (revert_does shows effect).map (fun _ => Answer.done) ?_
    simp only [perform]
    cases effect.revert store <;> rfl
  | replay effect =>
    refine (replay_does shows effect).map (fun _ => Answer.done) ?_
    simp only [perform]
    cases effect.replay store <;> rfl

/-! ### Runs -/

/-- Every operation goes through, with the answer that it has for the store; if it is refused then
nothing was changed. -/
theorem Operation.runs (shows : shelf.Shows store) (operation : Operation) :
    ∃ after, operation.run.run shelf = some ((operation.serve store).1, after) ∧
      after.Shows (operation.serve store).2 ∧
      ∀ reason, (operation.serve store).1 = .error reason → after = shelf := by
  have does := Operation.does shows operation
  unfold serve
  cases performed : operation.perform store with
  | error reason =>
    rw [performed] at does
    exact ⟨shelf, does, shows, fun _ _ => rfl⟩
  | ok result =>
    rw [performed] at does
    obtain ⟨after, run, showsAfter⟩ := does
    exact ⟨after, run, showsAfter, fun reason refused => by cases refused⟩

theorem runAll_shows (shows : shelf.Shows store) (operations : List Operation) :
    ∃ after, runAll operations shelf = some ((performAll operations store).1, after) ∧
      after.Shows (performAll operations store).2 := by
  induction operations generalizing shelf store with
  | nil => exact ⟨shelf, rfl, shows⟩
  | cons operation operations ih =>
    obtain ⟨next, run, showsNext, -⟩ := operation.runs shows
    obtain ⟨after, runRest, showsAfter⟩ := ih showsNext
    refine ⟨after, ?_, showsAfter⟩
    simp only [runAll, run, runRest, Option.bind_eq_bind, Option.bind_some, Option.pure_def]
    rfl

/-- **Stored tables keep their shape, and refused operations leave no trace.** From an empty store
any operations, refused or not, are carried out in place to their end: no value is brought to a
column of another kind and no cell is addressed that is not there. Then every table is stored under
its own identifier, with one column for each declaration, of the declared kind and as long as the
row count; answers and tables are those of the store that is kept by `performAll`. Whatever
operation comes next goes through as well, and if it is refused what is stored is exactly what was
stored before. -/
theorem storage_keeps_shape (operations : List Operation) :
    ∃ shelf, runAll operations empty = some ((performAll operations .empty).1, shelf) ∧
      shelf.Sound ∧
      (∀ id, (performAll operations .empty).2.find? id = (shelf id).map Sheet.table) ∧
      ∀ operation : Operation, ∃ answer after, operation.run.run shelf = some (answer, after) ∧
        ∀ reason, answer = .error reason → after = shelf := by
  obtain ⟨shelf, run, shows⟩ := runAll_shows shows_empty operations
  refine ⟨shelf, run, shows.sound, shows.find?_eq, ?_⟩
  intro operation
  obtain ⟨after, next, -, kept⟩ := operation.runs shows
  exact ⟨_, after, next, kept⟩

end Shelf

end Ripple
