import Ripple.Program.Frame
import Ripple.Proofs.RepeatedDefinitions

/-!
Frames show tables. The working copy of a regular table has a list of cells for each column, all as long as
there are rows and of the kind of the column (`Frame.Rectangular`). Writing a draft on such a frame takes
every position where there is something, as long as rows were checked first, and leads to the frame of the
table that is drafted (`FrameDraft.setRows_of`, `FrameDraft.append_of`).
-/

namespace Ripple.Program

/-! ## Results that take no positions -/

section

variable {ε α β : Type}

@[simp] theorem inRange_ok (a : α) : inRange (.ok a : Except ε α) = .ok a := rfl

@[simp] theorem inRange_error (e : ε) : inRange (.error e : Except ε α) = .error (.fault e) := rfl

theorem inRange_ne_outOfRange (result : Except ε α) : inRange result ≠ .error .outOfRange := by
  cases result <;> rintro ⟨⟩

theorem inRange_eq_ok_iff {result : Except ε α} {a : α} : inRange result = .ok a ↔ result = .ok a := by
  cases result <;> simp

/-- A step that takes no positions goes on to one that takes none. -/
theorem inRange_step {first : Except ε α} {next : α → Except (Halt ε) β} {spec : α → Except ε β}
    (same : ∀ a, first = .ok a → next a = inRange (spec a)) :
    inRange first >>= next = inRange (first >>= spec) := by
  cases first with
  | error e => rfl
  | ok a => exact same a rfl

theorem inRange_step_map {γ : Type} {first : Except ε α} {shown : β → γ}
    {next : α → Except (Halt ε) γ} {spec : α → Except ε β}
    (same : ∀ a, first = .ok a → next a = inRange ((spec a).map shown)) :
    inRange first >>= next = inRange ((first >>= spec).map shown) := by
  cases first with
  | error e => rfl
  | ok a => exact same a rfl

theorem mapM_inRange (f : α → Except ε β) (items : List α) :
    items.mapM (fun x => inRange (f x)) = inRange (items.mapM f) := by
  induction items with
  | nil => rfl
  | cons x rest ih =>
    rw [List.mapM_cons, List.mapM_cons, ih]
    exact inRange_step fun y _ => inRange_step fun ys _ => rfl

theorem forM_inRange (f : α → Except ε Unit) (items : List α) :
    (items.forM fun x => inRange (f x)) = inRange (items.forM f) := by
  induction items with
  | nil => rfl
  | cons x rest ih =>
    change (inRange (f x) >>= fun _ => rest.forM fun x => inRange (f x)) =
      inRange (f x >>= fun _ => rest.forM f)
    exact inRange_step fun _ _ => ih

theorem reach_of_getElem? {items : List α} {position : Nat} {item : α}
    (there : items[position]? = some item) : (reach items position : Except (Halt ε) α) = .ok item := by
  rw [reach, there]

theorem exchange_of_lt {items : List α} {position : Nat} {item : α} (inside : position < items.length) :
    (exchange items position item : Except (Halt ε) (List α)) = .ok (items.set position item) :=
  if_pos inside

theorem mapM_of_ok {δ : Type} {f : α → Except δ β} {g : α → β} {items : List α}
    (each : ∀ x ∈ items, f x = .ok (g x)) : items.mapM f = .ok (items.map g) :=
  (mapM_congr each).trans List.mapM_pure

/-- Positions that are there are all reached. -/
theorem mapM_reach {items : List α} {positions : List Nat} (inside : ∀ i ∈ positions, i < items.length) :
    positions.mapM (reach items) = (.ok (positions.filterMap (items[·]?)) : Except (Halt ε) (List α)) := by
  induction positions with
  | nil => rfl
  | cons i rest ih =>
    obtain ⟨here, later⟩ := List.forall_mem_cons.mp inside
    have there := List.getElem?_eq_getElem here
    rw [List.mapM_cons, reach_of_getElem? there, ih later, List.filterMap_cons_some there]
    rfl

end

/-! ## Frames of tables -/

/-- There is a list of cells for each column, as long as there are rows and of the kind of the column. -/
structure Frame.Rectangular (f : Frame) : Prop where
  count : f.data.length = f.columns.length
  cells : ∀ (i : Nat) (spec : ColumnSpec) (cells : List Value), f.columns[i]? = some spec →
    f.data[i]? = some cells → cells.length = f.rows ∧ ∀ v ∈ cells, v.kind = spec.kind

namespace Frame

variable {t : Table} {table : String} {names : List String} {rows : List Row}

@[simp] theorem columns_load (t : Table) : (load t).columns = t.specs := rfl

@[simp] theorem rows_load (t : Table) : (load t).rows = t.rowCount := rfl

theorem lt_of_columnPlaces {specs : List ColumnSpec} {places : List Nat}
    (found : columnPlaces table names specs = .ok places) : ∀ i ∈ places, i < names.length := by
  induction specs generalizing places with
  | nil =>
    cases found
    simp
  | cons spec specs ih =>
    unfold columnPlaces at found
    split at found
    · cases found
    · next place here =>
      obtain ⟨others, later, result⟩ := bind_eq_ok_iff.mp found
      cases result
      exact List.forall_mem_cons.mpr ⟨(List.findIdx?_eq_some_iff_getElem.mp here).1, ih later⟩

theorem load_eq (t : Table) : load t = ⟨t.specs, t.columns.map Column.cells, t.rowCount⟩ := by
  rw [load, mk.injEq]
  refine ⟨rfl, List.ext_getElem (by simp) fun i inside _ => ?_, rfl⟩
  have there : i < t.columns.length := by simpa using inside
  simp [Table.columnValues, there]

theorem load_empty (id : Ident) (name : String) (specs : List ColumnSpec) :
    load (.empty id name specs) = empty specs := by
  rw [load_eq, Table.specs_empty, empty, Table.empty, mk.injEq]
  exact ⟨rfl, List.map_map, rfl⟩

theorem rectangular_load (regular : t.Regular) : (load t).Rectangular := by
  rw [load_eq]
  refine ⟨by simp [Table.specs], fun i spec cells declared held => ?_⟩
  rw [List.getElem?_map] at held
  obtain ⟨c, column, rfl⟩ := Option.map_eq_some_iff.mp held
  have fits := regular c (List.mem_of_getElem? column)
  obtain rfl : c.spec = spec := by simpa [Table.specs, column] using declared
  exact ⟨fits.length_eq, fits.kind_eq⟩

/-- Rows that are as long as there are names are brought into order. -/
theorem reorder_load (width : names ≠ [] → ∀ row ∈ rows, row.length = names.length) :
    (load t).reorder table names rows = inRange (arrange table t.specs names rows) := by
  unfold reorder arrange
  rw [columns_load]
  by_cases none : names = []
  · simp [none]
  · have given : ¬ names.isEmpty = true := by simpa using none
    rw [if_neg given, if_neg given]
    by_cases many : names.length ≠ t.specs.length
    · rw [if_pos many, if_pos many]
      rfl
    · rw [if_neg many, if_neg many]
      cases places : columnPlaces table names t.specs with
      | error e => rfl
      | ok order =>
        have inside : ∀ row ∈ rows, ∀ i ∈ order, i < row.length := fun row member i placed =>
          width none row member ▸ lt_of_columnPlaces places i placed
        exact mapM_of_ok fun row member => mapM_reach (inside row member)

end Frame

/-! ## Drafts on frames -/

/-- The draft of a table on its frame. -/
def FrameDraft.of (d : Draft) : FrameDraft := ⟨.load d.table, d.changes⟩

namespace FrameDraft

variable {d : Draft} {row column first : Nat} {value : Value} {values : Row} {rows : List Row} {t : Table}

theorem reach_data {c : Column} (declared : t.columns[column]? = some c) :
    (reach (Frame.load t).data column : Except (Halt EvalFault) (List Value)) = .ok c.cells := by
  refine reach_of_getElem? ?_
  rw [Frame.load_eq, List.getElem?_map, declared]
  rfl

theorem load_put {c : Column} (declared : t.columns[column]? = some c) :
    Frame.load (t.put row column value) =
      { Frame.load t with data := (Frame.load t).data.set column (c.cells.set row value) } := by
  rw [Frame.load_eq, Frame.load_eq, Table.specs_put, Frame.mk.injEq]
  refine ⟨rfl, List.ext_getElem? fun i => ?_, rfl⟩
  rw [List.getElem?_map, Table.columns_put, List.getElem?_set, List.getElem?_map]
  by_cases here : column = i
  · subst here
    obtain ⟨inside, rfl⟩ := List.getElem?_eq_some_iff.mp declared
    simp [inside]
  · simp [here]

/-- A cell that is there is written. -/
theorem setCell_of (held : ∃ old, d.table.cell? row column = some old) :
    (of d).setCell d.table.id row column value = .ok (of (d.setCell row column value)) := by
  obtain ⟨old, held⟩ := held
  obtain ⟨c, declared, there⟩ := Table.cell_eq_some_iff.mp held
  have inColumns : column < (Frame.load d.table).data.length := by
    simpa [Frame.load_eq] using (List.getElem?_eq_some_iff.mp declared).1
  have spec : (Frame.load d.table).columns[column]? = some c.spec := by
    simp [Frame.load_eq, Table.specs, declared]
  unfold setCell
  rw [of, reach_data declared]
  simp only [bind, Except.bind, reach_of_getElem? there]
  by_cases same : old = value
  · subst same
    rw [if_pos rfl, Draft.setCell_of_cell held]
    rfl
  · have changed : d.setCell row column value =
        ⟨d.table.put row column value, d.changes ++ [.set d.table.id row (.id c.spec.id) value]⟩ := by
      unfold Draft.setCell
      rw [declared]
      exact if_neg fun here => same (Option.some.inj (there.symm.trans here))
    rw [if_neg same, exchange_of_lt (List.getElem?_eq_some_iff.mp there).1, changed]
    simp only [exchange_of_lt inColumns, reach_of_getElem? spec, pure, Except.pure, of, load_put declared]

theorem setRow_of (regular : d.table.Regular) (inside : row < d.table.rowCount)
    (kinds : ∀ i v, values[i]? = some v → d.table.checkKind (column + i) v = .ok ()) :
    (of d).setRow d.table.id row column values = .ok (of (d.setRow row column values)) := by
  induction values generalizing d column with
  | nil => rfl
  | cons value values ih =>
    have checked : d.table.checkWrite row column value = .ok () :=
      Table.checkWrite_eq_ok_iff.mpr ⟨kinds 0 value rfl, inside⟩
    obtain ⟨old, held, -⟩ := Table.cell_of_checkWrite regular checked
    rw [setRow, setCell_of ⟨old, held⟩, Draft.setRow]
    refine Draft.id_setCell (d := d) ▸ ih (Draft.regular_setCell regular checked) ?_ ?_
    · rwa [Draft.rowCount_setCell]
    · intro i v there
      rw [Table.checkKind_congr Draft.specs_setCell, Nat.add_assoc, Nat.add_comm 1]
      exact kinds (i + 1) v there

/-- Rows that fit are written where rows are. -/
theorem setRows_of (regular : d.table.Regular) (inside : first + rows.length ≤ d.table.rowCount)
    (fit : ∀ values ∈ rows, d.table.checkRow values = .ok ()) :
    (of d).setRows d.table.id first rows = .ok (of (d.setRows first rows)) := by
  induction rows generalizing d first with
  | nil => rfl
  | cons values rows ih =>
    rw [List.length_cons] at inside
    obtain ⟨here, later⟩ := List.forall_mem_cons.mp fit
    obtain ⟨-, kinds⟩ := Table.checkRow_eq_ok_iff.mp here
    have sets : d.Sets (d.setRow first 0 values) :=
      Draft.Sets.refl.setRow (by omega) (by simpa using kinds)
    rw [setRows, setRow_of regular (by omega) (by simpa using kinds), Draft.setRows]
    refine sets.id_eq ▸ ih (sets.regular regular) ?_ ?_
    · rw [sets.rowCount_eq]
      omega
    · intro values' member
      rw [Table.checkRow_congr sets.specs_eq]
      exact later values' member

/-- The cells of a row are pushed to the columns one after the other. -/
theorem pushRow_append (front back : List (List Value)) (width : values.length = back.length) :
    pushRow (front ++ back) front.length values =
      .ok (front ++ List.zipWith (fun cells value => cells ++ [value]) back values) := by
  induction values generalizing front back with
  | nil =>
    obtain rfl := List.length_eq_zero_iff.mp width.symm
    rfl
  | cons value values ih =>
    cases back with
    | nil => cases width
    | cons cells back =>
      -- The columns before this one have their cells already.
      have there : (front ++ cells :: back)[front.length]? = some cells := by simp
      have inside : front.length < (front ++ cells :: back).length := by simp
      have pushed : (front ++ cells :: back).set front.length (cells ++ [value]) =
          (front ++ [cells ++ [value]]) ++ back := by simp
      have rest := ih (front ++ [cells ++ [value]]) back (Nat.succ.inj width)
      rw [List.length_append, List.length_singleton] at rest
      rw [pushRow, reach_of_getElem? there]
      simp only [bind, Except.bind, exchange_of_lt inside, pushed, rest]
      simp

theorem pushRow_load (width : values.length = t.columns.length) :
    pushRow (Frame.load t).data 0 values = .ok (Frame.load (t.extend [values])).data := by
  have long : values.length = (t.columns.map Column.cells).length := by simpa using width
  have pushed := pushRow_append [] (t.columns.map Column.cells) long
  rw [Frame.load_eq, Frame.load_eq]
  refine pushed.trans (congrArg Except.ok ?_)
  refine List.ext_getElem (by simp [Table.extend, width]) fun i inside _ => ?_
  have inRow : i < values.length := by simpa [width] using inside
  simp [Table.extend, inRow]

theorem pushRows_load (fit : ∀ values ∈ rows, t.checkRow values = .ok ()) :
    rows.foldlM (pushRow · 0) (Frame.load t).data = .ok (Frame.load (t.extend rows)).data := by
  induction rows generalizing t with
  | nil => rw [Table.extend_nil]; rfl
  | cons values rows ih =>
    obtain ⟨here, later⟩ := List.forall_mem_cons.mp fit
    obtain ⟨width, -⟩ := Table.checkRow_eq_ok_iff.mp here
    rw [List.foldlM_cons, pushRow_load width, Table.extend_cons t values rows]
    exact ih fun row member => (Table.checkRow_congr (Table.specs_extend ..)).mpr (later row member)

/-- Rows that fit are added. -/
theorem append_of (fit : ∀ values ∈ rows, d.table.checkRow values = .ok ()) :
    (of d).append d.table.id rows = .ok (of (d.append rows)) := by
  unfold append Draft.append
  by_cases none : rows.isEmpty
  · rw [if_pos none, if_pos none]
  · rw [if_neg none, if_neg none]
    have pushed := pushRows_load fit
    have longer : Frame.load (d.table.extend rows) =
        { Frame.load d.table with
          data := (Frame.load (d.table.extend rows)).data
          rows := (Frame.load d.table).rows + rows.length } := by
      rw [Frame.load_eq, Frame.load_eq, Table.specs_extend]
      rfl
    simp only [of, bind, Except.bind, pushed, pure, Except.pure]
    rw [← longer]

end FrameDraft

end Ripple.Program
