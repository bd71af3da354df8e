import Mathlib.Data.List.Nodup
import Ripple.Event
import Ripple.Proofs.RecordedEntries

/-!
What effects list. The effects of changes list every cell that is not as it was, and none that is not
there afterwards; the tables that they create are those that are there afterwards and were not before
(`Accounts`). This is so of one change (`Change.Leads.accounts`), and of changes one after the other as
nothing that is there goes away again (`Performed.accounts`).
-/

namespace Ripple

/-- The cells that effects are on, as often as they are written. -/
def listedCells (effects : List Effect) : List CellAddress := effects.filterMap Effect.address?

/-- The tables that effects create. -/
def listedTables (effects : List Effect) : List Ident := effects.filterMap Effect.createdTable?

/-- What is at an address. -/
def Store.at? (s : Store) (cell : CellAddress) : Option Value := s.cell? cell.table cell.row cell.column

/-- From one store to another by some effects: they account for all that is different. -/
structure Accounts (s : Store) (effects : List Effect) (r : Store) : Prop where
  /-- What is different is listed, -/
  changed : ∀ cell, r.at? cell ≠ s.at? cell → cell ∈ listedCells effects
  /-- and what is listed is there. -/
  listed : ∀ cell ∈ listedCells effects, (r.at? cell).isSome
  /-- No cell goes away. -/
  cells : ∀ cell, (s.at? cell).isSome → (r.at? cell).isSome
  created : ∀ id, id ∈ listedTables effects ↔ s.contains id = false ∧ r.contains id = true
  /-- No table goes away. -/
  tables : ∀ id, s.contains id → r.contains id
  once : (listedTables effects).Nodup

variable {s r q : Store} {effects : List Effect} {t : Table} {id : Ident} {change : Change}
  {outcome : Outcome}

/-! ## Appended rows -/

theorem mem_listedCells_appendEffects {first : Nat} {rows : List Row} {cell : CellAddress} :
    cell ∈ listedCells (appendEffects id first rows) ↔
      cell.table = id ∧ first ≤ cell.row ∧
        ∃ values, rows[cell.row - first]? = some values ∧ cell.column < values.length := by
  obtain ⟨table, row, column⟩ := cell
  simp only [listedCells, appendEffects, List.mem_filterMap, List.mem_flatMap, List.mem_map,
    Prod.exists, List.mk_mem_zipIdx_iff_le_and_getElem?_sub]
  constructor
  · rintro ⟨effect, ⟨values, r, ⟨after, there⟩, value, c, ⟨-, inside⟩, rfl⟩, address⟩
    cases address
    exact ⟨rfl, after, values, there, (List.getElem?_eq_some_iff.mp inside).1⟩
  · rintro ⟨rfl, after, values, there, inside⟩
    exact ⟨_, ⟨values, row, ⟨after, there⟩, values[column], column,
      ⟨Nat.zero_le _, List.getElem?_eq_getElem inside⟩, rfl⟩, rfl⟩

theorem listedTables_appendEffects (id : Ident) (first : Nat) (rows : List Row) :
    listedTables (appendEffects id first rows) = [] := by
  refine List.filterMap_eq_nil_iff.mpr ?_
  intro effect member
  simp only [appendEffects, List.mem_flatMap, List.mem_map] at member
  obtain ⟨_, -, _, -, rfl⟩ := member
  rfl

/-- Where every row has a cell, they stand below one another. -/
theorem getElem?_filterMap_getElem? {rows : List Row} {i : Nat} (wide : ∀ row ∈ rows, i < row.length)
    (k : Nat) : (rows.filterMap (·[i]?))[k]? = (rows[k]?).bind (·[i]?) := by
  induction rows generalizing k with
  | nil => rfl
  | cons row rest ih =>
    have inside := List.getElem?_eq_getElem (wide row List.mem_cons_self)
    rw [List.filterMap_cons_some (f := (·[i]?)) inside]
    cases k with
    | zero => exact inside.symm
    | succ k => exact ih (fun r member => wide r (List.mem_cons_of_mem row member)) k

/-- Below the last row of a regular table there are no cells. -/
theorem Table.cell_eq_none_of_le (regular : t.Regular) {row i : Nat} (below : t.rowCount ≤ row) :
    t.cell? row i = none := by
  unfold cell?
  cases declared : t.columns[i]? with
  | none => rfl
  | some c =>
    have length := (regular c (List.mem_of_getElem? declared)).length_eq
    exact List.getElem?_eq_none (length ▸ below)

/-- The rows that were there are as they were, and below them stand the new ones. -/
theorem Table.cell_extend (regular : t.Regular) {rows : List Row}
    (checked : ∀ values ∈ rows, t.checkRow values = .ok ()) (row i : Nat) :
    (t.extend rows).cell? row i =
      if row < t.rowCount then t.cell? row i else (rows[row - t.rowCount]?).bind (·[i]?) := by
  have width (values : Row) (member : values ∈ rows) : values.length = t.columns.length :=
    (checkRow_eq_ok_iff.mp (checked values member)).1
  simp only [cell?, columns_extend]
  cases declared : t.columns[i]? with
  | none =>
    have beyond := List.getElem?_eq_none_iff.mp declared
    have nowhere : (rows[row - t.rowCount]?).bind (·[i]?) = none := by
      rw [Option.bind_eq_none_iff]
      intro values there
      exact List.getElem?_eq_none (width values (List.mem_of_getElem? there) ▸ beyond)
    simp [nowhere]
  | some c =>
    obtain ⟨inside, -⟩ := List.getElem?_eq_some_iff.mp declared
    have length := (regular c (List.mem_of_getElem? declared)).length_eq
    simp only [Option.map_some, Option.bind_eq_bind, Option.bind_some]
    rw [List.getElem?_append, length,
      getElem?_filterMap_getElem? fun values member => (width values member).symm ▸ inside]

/-! ## One change -/

namespace Accounts

/-- Where nothing is done, there is nothing to account for. -/
theorem refl (s : Store) : Accounts s [] s where
  changed cell differ := absurd rfl differ
  listed cell member := absurd member List.not_mem_nil
  cells cell there := there
  created id := by simp [listedTables]
  tables id there := there
  once := List.nodup_nil

theorem trans {first second : List Effect} (before : Accounts s first q) (after : Accounts q second r) :
    Accounts s (first ++ second) r where
  changed cell differ := by
    rw [listedCells, List.filterMap_append, List.mem_append]
    by_cases same : q.at? cell = s.at? cell
    · exact .inr (after.changed cell (same ▸ differ))
    · exact .inl (before.changed cell same)
  listed cell member := by
    rw [listedCells, List.filterMap_append, List.mem_append] at member
    rcases member with earlier | later
    · exact after.cells cell (before.listed cell earlier)
    · exact after.listed cell later
  cells cell there := after.cells cell (before.cells cell there)
  created id := by
    have kept := before.tables id
    have kept' := after.tables id
    have made := before.created id
    have made' := after.created id
    rw [listedTables, List.filterMap_append, List.mem_append]
    unfold listedTables at made made'
    rw [made, made']
    revert kept kept'
    cases s.contains id <;> cases q.contains id <;> cases r.contains id <;> simp
  tables id there := after.tables id (before.tables id there)
  once := by
    rw [listedTables, List.filterMap_append]
    refine before.once.append after.once ?_
    intro id earlier later
    have there := ((before.created id).mp earlier).2
    have absent := ((after.created id).mp later).1
    exact absurd (there.symm.trans absent) (by decide)

end Accounts

theorem Store.contains_put {u : Table} : (s.put u).contains id = (u.id == id || s.contains id) := by
  rw [contains_eq_isSome_find?, contains_eq_isSome_find?, find?_put]
  by_cases here : u.id = id <;> simp [here]

/-- Another table in the place of one makes no difference to which tables there are. -/
theorem Store.contains_put_of_find? {u : Table} (found : s.find? u.id = some t) (id : Ident) :
    (s.put u).contains id = s.contains id := by
  rw [contains_put]
  by_cases here : u.id = id
  · subst here
    simp [contains_eq_isSome_find?, found]
  · simp [here]

/-- A change of one table accounts for itself if the cells of the table are accounted for. -/
theorem accounts_put {u : Table} (found : s.find? u.id = some t)
    (none : listedTables effects = [])
    (changed : ∀ row i, u.cell? row i ≠ t.cell? row i → ⟨u.id, row, i⟩ ∈ listedCells effects)
    (listed : ∀ cell ∈ listedCells effects, cell.table = u.id ∧ (u.cell? cell.row cell.column).isSome)
    (kept : ∀ row i, (t.cell? row i).isSome → (u.cell? row i).isSome) :
    Accounts s effects (s.put u) where
  changed := by
    rintro ⟨id, row, i⟩ differ
    obtain rfl : u.id = id := Store.id_of_put_ne differ
    refine changed row i ?_
    rwa [Store.at?, Store.at?, Store.cell_put_self rfl, Store.cell_of_find? found] at differ
  listed := by
    rintro ⟨id, row, i⟩ member
    obtain ⟨rfl, there⟩ := listed _ member
    rwa [Store.at?, Store.cell_put_self rfl]
  cells := by
    rintro ⟨id, row, i⟩ there
    rw [Store.at?] at there ⊢
    by_cases here : u.id = id
    · subst here
      rw [Store.cell_of_find? found] at there
      rw [Store.cell_put_self rfl]
      exact kept row i there
    · rwa [Store.cell_put_other here]
  created id := by simp [none, Store.contains_put_of_find? found]
  tables id there := by rwa [Store.contains_put_of_find? found]
  once := none ▸ List.nodup_nil

/-- A cell that is written is the only one that is different. -/
theorem accounts_written {row index : Nat} {old value : Value} (found : s.find? t.id = some t)
    (held : t.cell? row index = some old) :
    Accounts s [.cell t.id row index (some old) value] (s.put (t.put row index value)) := by
  have after (r i : Nat) := Table.cell_put t row index value r i
  refine accounts_put (t := t) found rfl ?_ ?_ ?_
  · intro r i changed
    rw [after] at changed
    split at changed
    · next here =>
      obtain ⟨rfl, rfl⟩ := here
      exact List.mem_singleton_self _
    · exact absurd rfl changed
  · intro cell member
    obtain rfl := List.mem_singleton.mp member
    refine ⟨rfl, ?_⟩
    rw [after, if_pos ⟨rfl, rfl⟩, held]
    rfl
  · intro r i there
    rw [after]
    split
    · simpa using there
    · exact there

/-- Rows that are added differ from nothing, as there were no cells below the last row. -/
theorem accounts_appended {rows : List Row} (regular : t.Regular) (found : s.find? t.id = some t)
    (checked : t.checkRows rows = .ok ()) :
    Accounts s (appendEffects t.id t.rowCount rows) (s.put (t.extend rows)) := by
  have after := Table.cell_extend regular fun _ member => Table.checkRow_of_checkRows checked member
  refine accounts_put (t := t) found (listedTables_appendEffects ..) ?_ ?_ ?_
  · intro row i changed
    rw [after] at changed
    split at changed
    · exact absurd rfl changed
    · next below =>
      rw [Table.cell_eq_none_of_le regular (Nat.le_of_not_lt below)] at changed
      obtain ⟨value, there⟩ := Option.ne_none_iff_exists'.mp changed
      obtain ⟨values, here, inside⟩ := Option.bind_eq_some_iff.mp there
      exact mem_listedCells_appendEffects.mpr ⟨rfl, Nat.le_of_not_lt below, values, here,
        (List.getElem?_eq_some_iff.mp inside).1⟩
  · rintro ⟨id, row, i⟩ member
    obtain ⟨own, below, values, there, inside⟩ := mem_listedCells_appendEffects.mp member
    refine ⟨own, ?_⟩
    simp only at below there inside
    rw [after, if_neg (Nat.not_lt.mpr below), there, Option.bind_some, List.getElem?_eq_getElem inside]
    rfl
  · intro row i there
    rw [after, if_pos]
    · exact there
    · refine Nat.lt_of_not_le fun below => ?_
      rw [Table.cell_eq_none_of_le regular below] at there
      cases there

/-- A table that is created has no cells yet. -/
theorem accounts_created {name : String} {specs : List ColumnSpec} (absent : s.find? id = none) :
    Accounts s [.created id name specs] (s.put (.empty id name specs)) := by
  have missing : s.contains id = false := Store.contains_eq_false_iff.mpr absent
  have same (cell : CellAddress) : (s.put (.empty id name specs)).at? cell = s.at? cell := by
    by_cases here : id = cell.table
    · rw [Store.at?, Store.at?, Store.cell_put_self (u := .empty id name specs) here, Store.cell?,
        ← here, absent]
      simp [Table.cell?, Table.empty]
    · exact Store.cell_put_other (u := .empty id name specs) here
  refine ⟨?_, ?_, ?_, ?_, ?_, ?_⟩
  · intro cell changed
    exact absurd (same cell) changed
  · intro cell member
    cases member
  · intro cell there
    rwa [same]
  · intro other
    rw [Store.contains_put]
    by_cases here : id = other
    · subst here
      simp [listedTables, Effect.createdTable?, Table.empty, missing]
    · simp [listedTables, Effect.createdTable?, Table.empty, here, Ne.symm here]
  · intro other there
    rw [Store.contains_put, there, Bool.or_true]
  · exact List.nodup_singleton id

/-- What a change comes to accounts for all that is different. -/
theorem Change.Leads.accounts (sound : s.Sound) (leads : change.Leads s outcome) :
    Accounts s outcome.effects outcome.store := by
  cases leads with
  | kept => exact .refl s
  | noRows => exact .refl s
  | present => exact .refl s
  | @written id t _ _ _ _ _ _ found _ _ held =>
    obtain rfl : t.id = id := Store.id_of_find? found
    exact accounts_written found held
  | @appended id t _ found _ checked =>
    obtain rfl : t.id = id := Store.id_of_find? found
    exact accounts_appended (sound.regular_of_find? found) found checked
  | created absent => exact accounts_created absent

/-- So do changes one after the other. -/
theorem Performed.accounts (sound : s.Sound) (performed : Performed s effects r) :
    Accounts s effects r := by
  induction performed with
  | nothing => exact .refl s
  | change before applied ih =>
    have soundQ := (before.tracks sound).1
    exact ih.trans (((Change.apply_eq_ok_iff soundQ _).mp applied).accounts soundQ)

end Ripple
