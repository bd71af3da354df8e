import Ripple.Table

/-!
# Regular tables

A table is regular if every column is as long as the row count says and holds values of its own
kind only. A table without rows is regular, and a regular table stays regular where a cell is
written and where rows are added.
-/

namespace Ripple

/-- Checking every item succeeds exactly if every item passes the check. -/
theorem forM_eq_ok_iff {ε α : Type} {check : α → Except ε Unit} {items : List α} :
    items.forM check = .ok () ↔ ∀ x ∈ items, check x = .ok () := by
  induction items with
  | nil => simp [pure, Except.pure]
  | cons x rest ih =>
    rw [List.forM_eq_forM] at ih
    cases first : check x <;> simp [first, ih, bind, Except.bind]

/-- A column of so many cells, all of its kind. -/
structure Column.Fits (count : Nat) (c : Column) : Prop where
  length_eq : c.cells.length = count
  kind_eq : ∀ v ∈ c.cells, v.kind = c.spec.kind

namespace Table

/-- Every column fits the row count. -/
def Regular (t : Table) : Prop := ∀ c ∈ t.columns, c.Fits t.rowCount

theorem regular_empty (id : Ident) (name : String) (specs : List ColumnSpec) :
    (empty id name specs).Regular := by
  intro c member
  obtain ⟨spec, -, rfl⟩ := List.mem_map.1 member
  exact ⟨rfl, fun v none => by cases none⟩

/-! ## Growing and shrinking -/

theorem specs_growTo (t : Table) (count : Nat) : (t.growTo count).specs = t.specs := by
  unfold growTo specs
  split
  · rfl
  · simp [Column.growTo, Function.comp_def]

theorem rowCount_growTo (t : Table) (count : Nat) :
    (t.growTo count).rowCount = max t.rowCount count := by
  unfold growTo
  split
  · omega
  · change count = _
    omega

theorem rowCount_truncate (t : Table) (count : Nat) :
    (t.truncate count).rowCount = min t.rowCount count := by
  unfold truncate
  split
  · omega
  · change count = _
    omega

/-! ## Writing cells -/

theorem checkKind_eq_ok_iff {t : Table} {column : Nat} {value : Value} :
    t.checkKind column value = .ok () ↔
      ∃ c, t.columns[column]? = some c ∧ c.spec.kind = value.kind := by
  unfold checkKind
  cases t.columns[column]? with
  | none => simp
  | some c => by_cases same : c.spec.kind = value.kind <;> simp [same]

theorem checkWrite_eq_ok_iff {t : Table} {row column : Nat} {value : Value} :
    t.checkWrite row column value = .ok () ↔
      t.checkKind column value = .ok () ∧ row < t.rowCount := by
  unfold checkWrite
  cases t.checkKind column value with
  | error reason => simp [bind, Except.bind]
  | ok _ =>
    by_cases inside : row < t.rowCount
    · simp [bind, Except.bind, pure, Except.pure, inside, Nat.not_le.2 inside]
    · simp [bind, Except.bind, inside, Nat.not_lt.1 inside]

theorem specs_put (t : Table) (row column : Nat) (value : Value) :
    (t.put row column value).specs = t.specs := by
  refine List.ext_getElem? ?_
  intro i
  simp only [specs, put, List.getElem?_map, List.getElem?_modify]
  cases t.columns[i]? with
  | none => rfl
  | some c => by_cases here : column = i <;> simp [here]

theorem fits_set {c : Column} {count : Nat} (h : c.Fits count) {value : Value}
    (right : c.spec.kind = value.kind) (row : Nat) :
    Column.Fits count { c with cells := c.cells.set row value } where
  length_eq := by simpa using h.length_eq
  kind_eq v member := by
    rcases List.mem_or_eq_of_mem_set member with old | new
    · exact h.kind_eq v old
    · exact new ▸ right.symm

theorem regular_put {t : Table} (h : t.Regular) {row column : Nat} {value : Value}
    (right : t.checkKind column value = .ok ()) : (t.put row column value).Regular := by
  obtain ⟨target, found, same⟩ := checkKind_eq_ok_iff.1 right
  intro c member
  obtain ⟨i, at_i⟩ := List.mem_iff_getElem?.1 member
  rw [put, List.getElem?_modify] at at_i
  obtain ⟨d, old, changed⟩ := Option.map_eq_some_iff.1 at_i
  have fits := h d (List.mem_of_getElem? old)
  by_cases here : column = i
  · subst here
    obtain rfl : d = target := Option.some.inj (old.symm.trans found)
    rw [if_pos rfl] at changed
    exact changed ▸ fits_set fits same row
  · rw [if_neg here] at changed
    exact changed ▸ fits

/-! ## Adding rows -/

theorem checkKinds_eq_ok_iff {t : Table} {column : Nat} {row : Row} :
    t.checkKinds column row = .ok () ↔
      ∀ i v, row[i]? = some v → t.checkKind (column + i) v = .ok () := by
  induction row generalizing column with
  | nil => simp [checkKinds]
  | cons v rest ih =>
    cases first : t.checkKind column v with
    | error reason =>
      simp only [checkKinds, first, bind, Except.bind, reduceCtorEq, false_iff]
      intro every
      have := every 0 v rfl
      simp [first] at this
    | ok _ =>
      simp only [checkKinds, first, bind, Except.bind, ih]
      constructor
      · intro later i w found
        cases i with
        | zero => simpa using Option.some.inj found ▸ first
        | succ i => simpa [Nat.add_assoc, Nat.add_comm 1] using later i w found
      · intro every i w found
        simpa [Nat.add_assoc, Nat.add_comm 1] using every (i + 1) w found

theorem checkRow_eq_ok_iff {t : Table} {row : Row} :
    t.checkRow row = .ok () ↔
      row.length = t.columns.length ∧ ∀ i v, row[i]? = some v → t.checkKind i v = .ok () := by
  unfold checkRow
  by_cases width : row.length = t.columns.length <;> simp [width, checkKinds_eq_ok_iff]

theorem checkRow_of_checkRows {t : Table} {rows : List Row} (h : t.checkRows rows = .ok ())
    {row : Row} (member : row ∈ rows) : t.checkRow row = .ok () := by
  unfold checkRows at h
  split at h
  · cases h
  · exact forM_eq_ok_iff.mp h row member

theorem length_filterMap_getElem? {rows : List Row} {i : Nat} (h : ∀ row ∈ rows, i < row.length) :
    (rows.filterMap (·[i]?)).length = rows.length := by
  induction rows with
  | nil => rfl
  | cons row rest ih =>
    have inside := h row List.mem_cons_self
    simp [List.getElem?_eq_getElem inside, ih fun r member => h r (List.mem_cons_of_mem row member)]

theorem regular_extend {t : Table} (h : t.Regular) {rows : List Row}
    (checked : ∀ row ∈ rows, t.checkRow row = .ok ()) : (t.extend rows).Regular := by
  have right (row : Row) (added : row ∈ rows) := checkRow_eq_ok_iff.1 (checked row added)
  intro c member
  obtain ⟨i, inside, rfl⟩ := List.mem_mapIdx.1 member
  have fits := h t.columns[i] (List.getElem_mem inside)
  refine ⟨?_, fun v found => ?_⟩
  · have added : (rows.filterMap (·[i]?)).length = rows.length :=
      length_filterMap_getElem? fun row new => (right row new).1 ▸ inside
    simp [extend, fits.length_eq, added]
  · rcases List.mem_append.1 found with old | new
    · exact fits.kind_eq v old
    · obtain ⟨row, added, at_i⟩ := List.mem_filterMap.1 new
      obtain ⟨d, column, same⟩ := checkKind_eq_ok_iff.1 ((right row added).2 i v at_i)
      rw [List.getElem?_eq_getElem inside] at column
      exact Option.some.inj column ▸ same.symm

theorem regular_append {t u : Table} (h : t.Regular) {rows : List Row}
    (appended : t.append rows = .ok u) : u.Regular := by
  unfold append at appended
  cases checked : t.checkRows rows with
  | error reason => simp [checked, bind, Except.bind] at appended
  | ok _ =>
    simp only [checked, bind, Except.bind, pure, Except.pure, Except.ok.injEq] at appended
    exact appended ▸ regular_extend h fun row added => checkRow_of_checkRows checked added

end Table

end Ripple
