import Ripple.Proofs.ColumnNames
import Ripple.Proofs.Drafts

/-!
How statements draft tables. Each of the three kinds of statement that write a table finds it, or sees that
there is none, checks what it is going to write and only then writes it to the draft; the lemmas named
`…_cases` say so once. Cells that are there already are written one by one (`Draft.Sets`), and then rows
that fit are added.
-/

namespace Ripple.Program

/-! ## Checks -/

theorem kinds_of_checkKinds {table : String} {specs : List ColumnSpec} {row : Row}
    (checked : checkKinds table specs row = .ok ()) {i : Nat} {spec : ColumnSpec} {v : Value}
    (declared : specs[i]? = some spec) (held : row[i]? = some v) : spec.kind = v.kind := by
  induction specs generalizing row i with
  | nil => simp at declared
  | cons first specs ih =>
    cases row with
    | nil => simp at held
    | cons value values =>
      unfold checkKinds at checked
      split at checked
      · next same =>
        cases i with
        | zero =>
          obtain rfl := Option.some.inj declared
          obtain rfl := Option.some.inj held
          exact same
        | succ i => exact ih checked declared held
      · cases checked

/-- The check of a row against a working copy is as strict as that of the table itself. -/
theorem checkRow_of_checkRow {t : Table} {table : String} {row : Row}
    (checked : checkRow table t.specs row = .ok ()) : t.checkRow row = .ok () := by
  unfold checkRow at checked
  split at checked
  · next width =>
    refine Table.checkRow_eq_ok_iff.mpr ⟨by simpa [Table.specs] using width, ?_⟩
    intro i v held
    have inside : i < t.specs.length := width ▸ (List.getElem?_eq_some_iff.mp held).1
    have inColumns : i < t.columns.length := by simpa [Table.specs] using inside
    refine Table.checkKind_eq_ok_iff.mpr ⟨_, List.getElem?_eq_getElem inColumns, ?_⟩
    refine kinds_of_checkKinds checked (i := i) ?_ held
    simp [Table.specs, inColumns]
  · cases checked

theorem rows_of_checkRow {t : Table} {table : String} {rows : List Row}
    (checked : rows.forM (checkRow table t.specs) = .ok ()) :
    ∀ row ∈ rows, t.checkRow row = .ok () :=
  fun row member => checkRow_of_checkRow (forM_eq_ok_iff.mp checked row member)

/-- A table that takes rows has columns: rows are not empty, and names are as many as columns. -/
theorem columns_of_arrange {t : Table} {table : String} {names : List String}
    {rows arranged : List Row} (nonempty : ∀ row ∈ rows, row ≠ [])
    (arranges : arrange table t.specs names rows = .ok arranged)
    (checked : ∀ row ∈ arranged, t.checkRow row = .ok ()) (some : arranged ≠ []) :
    t.columns ≠ [] := by
  unfold arrange at arranges
  split at arranges
  · cases arranges
    obtain ⟨row, member⟩ := List.exists_mem_of_ne_nil rows some
    exact (Table.ne_nil_iff_of_checkRow (checked row member)).mp (nonempty row member)
  · next given =>
    split at arranges
    · cases arranges
    · next same =>
      rintro bare
      rw [ne_eq, not_not, Table.specs, bare] at same
      exact given (by simpa using same)

theorem declared_of_findColumn {t : Table} {table : String} {name : Option String} {column : Nat}
    (found : findColumn t table name = .ok column) : ∃ c, t.columns[column]? = some c := by
  have inside : column < t.columns.length := by
    unfold findColumn at found
    split at found
    · split at found
      · cases found
      · next some =>
        cases found
        simpa [List.length_pos_iff] using some
    · split at found
      · next index first =>
        cases found
        exact (List.findIdx?_eq_some_iff_getElem.mp first).1
      · split at found
        · next index position =>
          cases found
          obtain ⟨p, -, positioned⟩ := Option.bind_eq_some_iff.mp position
          unfold Table.positionIndex? at positioned
          split at positioned
          · cases positioned
            omega
          · cases positioned
        · cases found
  exact ⟨_, List.getElem?_eq_getElem inside⟩

/-! ## Picked rows -/

theorem maskRows_lt {mask : List Bool} {first r : Nat} (picked : r ∈ maskRows first mask) :
    r < first + mask.length := by
  induction mask generalizing first with
  | nil => cases picked
  | cons b mask ih =>
    rw [List.length_cons]
    cases b with
    | false =>
      have later : r < first + 1 + mask.length := ih picked
      omega
    | true =>
      rcases List.mem_cons.mp picked with rfl | later
      · omega
      · have bound := ih later
        omega

theorem rowOf_lt {rowCount r : Nat} {v : Value} (row : rowOf rowCount v = .ok r) : r < rowCount := by
  unfold rowOf at row
  split at row
  · split at row
    · split at row
      · cases row
        omega
      · cases row
    · cases row
  · cases row

/-- An index picks rows that are there. -/
theorem pickRows_lt {index : List Value} {rowCount : Nat} {rows : List Nat}
    (picks : pickRows index rowCount = .ok rows) {r : Nat} (picked : r ∈ rows) : r < rowCount := by
  unfold pickRows at picks
  split at picks
  · next all _ =>
    cases picks
    cases all with
    | true => simpa using picked
    | false => simp at picked
  · next mask _ _ =>
    split at picks
    · next whole =>
      cases picks
      simpa [whole] using maskRows_lt picked
    · cases picks
  · obtain ⟨v, -, row⟩ := mem_of_mapM picks picked
    exact rowOf_lt row

theorem selectRows_lt {selector : Option (List Value)} {rowCount : Nat} {rows : List Nat}
    (selects : selectRows selector rowCount = .ok rows) {r : Nat} (selected : r ∈ rows) :
    r < rowCount := by
  cases selector with
  | some selector => exact pickRows_lt selects selected
  | none =>
    cases selects
    exact List.mem_range.mp selected

/-- Values are given to the selected rows only. -/
theorem mem_of_assignRows {values : List Value} {rows : List Nat} {given : List (Nat × Value)}
    (assigns : assignRows values rows = .ok given) {pair : Nat × Value} (member : pair ∈ given) :
    pair.1 ∈ rows := by
  unfold assignRows at assigns
  split at assigns
  · cases assigns
    obtain ⟨row, selected, rfl⟩ := List.mem_map.mp member
    exact selected
  · split at assigns
    · cases assigns
      exact (List.of_mem_zip member).1
    · cases assigns

/-! ## Tables of a workspace -/

namespace Workspace

variable {w : Workspace}

theorem id_of_find? {id : Ident} {t : Table}
    (found : w.find? id = some t) : t.id = id := by
  rcases Option.or_eq_some_iff.mp found with copied | ⟨-, base⟩
  · exact Store.id_of_find? copied
  · exact Store.id_of_find? base

theorem find?_start (s : Store) (id : Ident) : (start s).find? id = s.find? id := by
  simp [find?, start, Store.find?_empty]

theorem table_eq_ok_iff {table : String} {t : Table} :
    w.table table = .ok t ↔ w.find? (.of table) = some t := by
  unfold Workspace.table
  split
  · next here => simp [here]
  · next absent => simp [absent]

/-- After a draft was adopted, its identifier leads to it. -/
theorem find?_adopt (w : Workspace) (d : Draft) (id : Ident) :
    (w.adopt d).find? id = if d.table.id = id then some d.table else w.find? id := by
  simp only [find?, adopt, Store.find?_put]
  split <;> rfl

end Workspace

/-- Lines run exactly if the first one does and then the others. -/
theorem runLines_cons_eq_ok_iff {w after : Workspace} {line : Line} {rest : List Line} :
    runLines w (line :: rest) = .ok after ↔
      ∃ middle, line.statement.run w = .ok middle ∧ runLines middle rest = .ok after := by
  rw [runLines]
  cases line.statement.run w <;> simp

/-! ## Drafts of statements -/

theorem Draft.Sets.setCells {d e after : Draft} (sets : d.Sets e) {op : SetOp} {table name : String}
    {column : Nat} {kind : Kind} {given : List (Nat × Value)}
    (inside : ∀ pair ∈ given, pair.1 < d.table.rowCount)
    (takes : ∀ value : Value, value.kind = kind → d.table.checkKind column value = .ok ())
    (set : Program.setCells op table name column kind e given = .ok after) : d.Sets after := by
  induction given generalizing e with
  | nil =>
    cases set
    exact sets
  | cons pair rest ih =>
    obtain ⟨row, given⟩ := pair
    obtain ⟨here, later⟩ := List.forall_mem_cons.mp inside
    obtain ⟨value, -, set⟩ := bind_eq_ok_iff.mp set
    split at set
    · next right =>
      refine ih (sets.cell (Table.checkWrite_eq_ok_iff.mpr ⟨?_, ?_⟩)) later set
      · exact (Table.checkKind_congr sets.specs_eq).mpr (takes value right)
      · exact sets.rowCount_eq ▸ here
    · cases set

theorem Draft.table_append (d : Draft) (rows : List Row) : (d.append rows).table = d.table.extend rows := by
  unfold Draft.append
  split
  · next none => rw [List.isEmpty_iff.mp none, Table.extend_nil]
  · rfl

namespace Workspace

variable {w : Workspace} {table : String} {t : Table} {d : Draft} {names : List String} {rows : List Row}

theorem setColumn_cases {name : String} {index : Option Expr} {op : SetOp} {value : Expr}
    (set : w.setColumn table name index op value = .ok d) :
    ∃ t, w.find? (.of table) = some t ∧ (Draft.ofTable t).Sets d := by
  obtain ⟨values, -, set⟩ := bind_eq_ok_iff.mp set
  obtain ⟨selector, -, set⟩ := bind_eq_ok_iff.mp set
  obtain ⟨t, found, set⟩ := bind_eq_ok_iff.mp set
  obtain ⟨column, resolved, set⟩ := bind_eq_ok_iff.mp set
  obtain ⟨rows, selects, set⟩ := bind_eq_ok_iff.mp set
  obtain ⟨given, assigns, set⟩ := bind_eq_ok_iff.mp set
  obtain ⟨c, declared⟩ := declared_of_findColumn resolved
  refine ⟨t, table_eq_ok_iff.mp found, Draft.Sets.refl.setCells ?_ ?_ set⟩
  · intro pair member
    exact selectRows_lt selects (mem_of_assignRows assigns member)
  · intro v same
    refine Table.checkKind_eq_ok_iff.mpr ⟨c, declared, ?_⟩
    simpa [Table.specs, declared] using same.symm

theorem appendRows_cases {l : Literal} (appended : w.appendRows table l = .ok d) :
    ∃ rows t arranged, l.eval w = .ok rows ∧ w.find? (.of table) = some t ∧
      arrange table t.specs l.columns rows = .ok arranged ∧
      (∀ row ∈ arranged, t.checkRow row = .ok ()) ∧ d = (Draft.ofTable t).append arranged := by
  obtain ⟨rows, evaluated, appended⟩ := bind_eq_ok_iff.mp appended
  obtain ⟨t, found, appended⟩ := bind_eq_ok_iff.mp appended
  obtain ⟨arranged, arranges, appended⟩ := bind_eq_ok_iff.mp appended
  obtain ⟨_, checked, result⟩ := bind_eq_ok_iff.mp appended
  cases result
  exact ⟨rows, t, arranged, evaluated, table_eq_ok_iff.mp found, arranges, rows_of_checkRow checked,
    rfl⟩

/-- The draft of a new table before it has rows. -/
def newDraft (table : String) (specs : List ColumnSpec) : Draft :=
  ⟨.empty (.of table) table specs, [.define (.of table) table specs]⟩

theorem createTable_cases (created : createTable table names rows = .ok d) :
    (∀ row ∈ rows, (newDraft table (newSpecs names rows)).table.checkRow row = .ok ()) ∧
      d = (newDraft table (newSpecs names rows)).append rows := by
  obtain ⟨_, checked, result⟩ := bind_eq_ok_iff.mp created
  cases result
  rw [← Table.specs_empty (.of table) table (newSpecs names rows)] at checked
  exact ⟨rows_of_checkRow checked, rfl⟩

theorem overwriteTable_cases (overwritten : overwriteTable t table names rows = .ok d) :
    ∃ arranged, arrange table t.specs names rows = .ok arranged ∧
      (∀ row ∈ arranged, t.checkRow row = .ok ()) ∧ t.rowCount ≤ arranged.length ∧
      (Draft.ofTable t).Sets ((Draft.ofTable t).setRows 0 (arranged.take t.rowCount)) ∧
      d = ((Draft.ofTable t).setRows 0 (arranged.take t.rowCount)).append
        (arranged.drop t.rowCount) := by
  obtain ⟨arranged, arranges, overwritten⟩ := bind_eq_ok_iff.mp overwritten
  obtain ⟨_, checked, overwritten⟩ := bind_eq_ok_iff.mp overwritten
  have fit := rows_of_checkRow checked
  split at overwritten
  · cases overwritten
  · next enough =>
    cases overwritten
    refine ⟨arranged, arranges, fit, Nat.not_lt.mp enough, Draft.Sets.refl.setRows ?_ ?_, rfl⟩
    · simp [Draft.ofTable]
    · intro row member
      exact fit row (List.mem_of_mem_take member)

end Workspace

end Ripple.Program
