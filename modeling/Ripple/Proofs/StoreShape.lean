import Ripple.Proofs.Diff
import Ripple.Proofs.Touches

/-!
Stores that differ in cells only. Two stores are of one shape if they have the same tables with the same
columns and row counts, and they agree on some columns if these hold the same cells. Writing cells keeps
the shape and alters no column but those that it touches (`carryOut_sets`), and writes within some
columns do the same on all stores of one shape that agree there (`carryOut_congr`).
-/

namespace Ripple

/-! ## Stores of one shape -/

/-- The name, the declarations and the row count of a table. -/
def Table.shape (t : Table) : String × List ColumnSpec × Nat := (t.name, t.specs, t.rowCount)

theorem Table.shape_put (t : Table) (row index : Nat) (value : Value) :
    (t.put row index value).shape = t.shape := by
  simp only [shape, specs_put, rowCount_put]
  rfl

namespace Store

/-- Both stores have the same tables with the same columns and row counts. -/
def SameShape (s r : Store) : Prop :=
  ∀ id, (s.find? id).map Table.shape = (r.find? id).map Table.shape

/-- The identifier that a column is declared with. -/
def columnKey? (s : Store) (id : Ident) (index : Nat) : Option Ident := do
  let t ← s.find? id
  let spec ← t.specs[index]?
  return spec.id

/-- Of the columns with such registers all cells are the same. -/
def AgreeOn (columns : Register → Prop) (s r : Store) : Prop :=
  ∀ id index key row, s.columnKey? id index = some key → columns ⟨id, some key⟩ →
    s.cell? id row index = r.cell? id row index

variable {s r q : Store} {t u : Table} {id : Ident} {columns : Register → Prop}

theorem SameShape.refl (s : Store) : s.SameShape s := fun _ => rfl

theorem SameShape.symm (same : s.SameShape r) : r.SameShape s := fun id => (same id).symm

theorem SameShape.trans (first : s.SameShape r) (second : r.SameShape q) : s.SameShape q :=
  fun id => (first id).trans (second id)

/-- Where one store has a table, the other has one with the same columns and rows. -/
theorem SameShape.exists_table (same : s.SameShape r) (found : s.find? id = some t) :
    ∃ u, r.find? id = some u ∧ u.specs = t.specs ∧ u.rowCount = t.rowCount := by
  have shape := same id
  rw [found, Option.map_some, eq_comm, Option.map_eq_some_iff] at shape
  obtain ⟨u, there, shape⟩ := shape
  simp only [Table.shape, Prod.mk.injEq] at shape
  exact ⟨u, there, shape.2.1, shape.2.2⟩

theorem columnKey?_eq (s : Store) (id : Ident) (index : Nat) :
    s.columnKey? id index =
      ((s.find? id).map Table.shape).bind fun shape => (shape.2.1[index]?).map ColumnSpec.id := by
  unfold columnKey?
  cases s.find? id with
  | none => rfl
  | some t => cases here : t.specs[index]? <;> simp [Table.shape, here]

theorem columnKey?_of_find? (found : s.find? id = some t) (index : Nat) :
    s.columnKey? id index = (t.columns[index]?).map (·.spec.id) := by
  rw [columnKey?_eq, found]
  simp [Table.shape, Table.specs, Function.comp_def]

theorem SameShape.columnKey? (same : s.SameShape r) (id : Ident) (index : Nat) :
    s.columnKey? id index = r.columnKey? id index := by
  rw [columnKey?_eq, columnKey?_eq, same id]

theorem AgreeOn.refl (columns : Register → Prop) (s : Store) : s.AgreeOn columns s :=
  fun _ _ _ _ _ _ => rfl

theorem AgreeOn.symm (agree : s.AgreeOn columns r) (same : s.SameShape r) : r.AgreeOn columns s :=
  fun id index key row declared inside =>
    (agree id index key row ((same.columnKey? id index).trans declared) inside).symm

theorem AgreeOn.trans (first : s.AgreeOn columns r) (same : s.SameShape r)
    (second : r.AgreeOn columns q) : s.AgreeOn columns q :=
  fun id index key row declared inside =>
    (first id index key row declared inside).trans
      (second id index key row ((same.columnKey? id index).symm.trans declared) inside)

/-- Stores that agree on some columns agree on fewer. -/
theorem AgreeOn.mono {fewer : Register → Prop} (agree : s.AgreeOn columns r)
    (inside : ∀ id key, fewer ⟨id, some key⟩ → columns ⟨id, some key⟩) : s.AgreeOn fewer r :=
  fun id index key row declared own => agree id index key row declared (inside id key own)

/-- Where no column is declared there are no cells. -/
theorem cell_eq_none {index : Nat} (undeclared : s.columnKey? id index = none) (row : Nat) :
    s.cell? id row index = none := by
  cases found : s.find? id with
  | none => simp [cell?, found]
  | some t =>
    cases there : t.columns[index]? with
    | none => simp [cell?, found, Table.cell?, there]
    | some c => simp [columnKey?, found, Table.specs, there] at undeclared

/-- Putting a table of the same shape in the place of another keeps the shape of the store. -/
theorem sameShape_put (found : s.find? id = some t) (own : u.id = id) (shape : u.shape = t.shape) :
    s.SameShape (s.put u) := by
  intro other
  rw [find?_put]
  by_cases here : u.id = other
  · rw [if_pos here, ← here, own, found, Option.map_some, Option.map_some, shape]
  · rw [if_neg here]

/-- A sound store is given by its shape and its cells. -/
theorem eq_of_sameShape (soundS : s.Sound) (soundR : r.Sound) (same : s.SameShape r)
    (cells : ∀ id row index, s.cell? id row index = r.cell? id row index) : s = r := by
  refine eq_of_find?_eq soundS.ascending soundR.ascending ?_
  intro id
  have shape := same id
  cases foundS : s.find? id with
  | none =>
    rw [foundS, Option.map_none, eq_comm, Option.map_eq_none_iff] at shape
    exact shape.symm
  | some t =>
    rw [foundS, Option.map_some, eq_comm, Option.map_eq_some_iff] at shape
    obtain ⟨u, foundR, shape⟩ := shape
    simp only [Table.shape, Prod.mk.injEq] at shape
    obtain ⟨name, specs, count⟩ := shape
    have own : t.id = u.id := (id_of_find? foundS).trans (id_of_find? foundR).symm
    rw [foundR, Option.some.injEq]
    refine Table.ext_columns own name.symm count.symm ?_
    intro i
    have declared : (u.columns[i]?).map Column.spec = (t.columns[i]?).map Column.spec := by
      simpa only [Table.specs, List.getElem?_map] using congrArg (fun specs => specs[i]?) specs
    have content (row : Nat) : t.cell? row i = u.cell? row i := by
      rw [← cell_of_find? foundS, ← cell_of_find? foundR, cells]
    cases there : t.columns[i]? with
    | none =>
      rw [there, Option.map_none, Option.map_eq_none_iff] at declared
      exact declared.symm
    | some c =>
      rw [there, Option.map_some, Option.map_eq_some_iff] at declared
      obtain ⟨d, here, spec⟩ := declared
      have same : c.cells = d.cells := by
        refine List.ext_getElem? ?_
        intro row
        simpa [Table.cell?, there, here] using content row
      cases c
      cases d
      simp only [here, Option.some.injEq, Column.mk.injEq]
      exact ⟨spec.symm, same⟩

/-- So a sound store is given by its shape and its columns. -/
theorem eq_of_agreeOn (soundS : s.Sound) (soundR : r.Sound) (same : s.SameShape r)
    (agree : s.AgreeOn (fun _ => True) r) : s = r := by
  refine eq_of_sameShape soundS soundR same ?_
  intro id row index
  cases declared : s.columnKey? id index with
  | none =>
    have gone := (same.columnKey? id index).symm.trans declared
    rw [cell_eq_none declared, cell_eq_none gone]
  | some key => exact agree id index key row declared trivial

end Store

/-! ## Writes -/

/-- The change writes a cell. -/
def Change.IsSet (change : Change) : Prop :=
  ∃ id row name value, change = .set id row name value

/-- The change writes a cell, and on the store that is a cell of such a column. -/
def Change.Within (columns : Register → Prop) (s : Store) (change : Change) : Prop :=
  ∃ id row name value, change = .set id row name value ∧
    ∀ t index key, s.find? id = some t → t.resolve? name = some index →
      s.columnKey? id index = some key → columns ⟨id, some key⟩

variable {s r : Store} {change : Change} {changes : List Change} {outcome : Outcome}
  {columns : Register → Prop}

theorem Change.Within.isSet (within : change.Within columns s) : change.IsSet := by
  obtain ⟨id, row, name, value, rfl, -⟩ := within
  exact ⟨id, row, name, value, rfl⟩

theorem sameShape_of_set (isSet : change.IsSet) (applied : change.apply s = .ok outcome) :
    s.SameShape outcome.store := by
  obtain ⟨id, row, name, value, rfl⟩ := isSet
  obtain ⟨t, index, c, found, -, -, ⟨-, rfl⟩ | ⟨old, -, -, after, -⟩⟩ := Change.set_cases applied
  · exact Store.sameShape_put found (Store.id_of_find? found) rfl
  · rw [after]
    exact Store.sameShape_put found (Table.id_put.trans (Store.id_of_find? found))
      (Table.shape_put t row index value)

/-- A write alters no column but the one that it lists. -/
theorem agree_of_set (isSet : change.IsSet) (applied : change.apply s = .ok outcome)
    (untouched : ∀ q ∈ outcome.touched, ¬ columns q) : s.AgreeOn columns outcome.store := by
  intro id index key row declared inside
  refine Decidable.byContradiction fun changed => ?_
  rcases Change.touched_of_cell_ne applied (Ne.symm changed) with
    ⟨-, t, c, found, there, touched⟩ | ⟨⟨rows, rfl⟩, -⟩
  · have own : c.spec.id = key := by
      simpa [Store.columnKey?, found, Table.specs, there] using declared
    exact untouched ⟨id, some c.spec.id⟩ (by simp [touched]) (own ▸ inside)
  · obtain ⟨_, _, _, _, ⟨⟩⟩ := isSet

/-- Writes keep the store sound and its shape, and alter no column but those that they touch. -/
theorem carryOut_sets (sound : s.Sound) (sets : ∀ change ∈ changes, change.IsSet)
    (done : carryOut s changes = .ok r) :
    r.Sound ∧ s.SameShape r ∧
      ∀ columns : Register → Prop, (∀ q, TouchedBy s changes q → ¬ columns q) →
        s.AgreeOn columns r := by
  induction changes generalizing s with
  | nil =>
    cases done
    exact ⟨sound, .refl _, fun columns _ => .refl columns _⟩
  | cons change rest ih =>
    obtain ⟨outcome, applied, later⟩ := bind_eq_ok_iff.mp done
    have isSet := sets change List.mem_cons_self
    have first := sameShape_of_set isSet applied
    have middle := ((Change.apply_eq_ok_iff sound change).mp applied).sound_diff sound
    obtain ⟨last, second, agree⟩ :=
      ih middle.1 (fun c member => sets c (List.mem_cons_of_mem _ member)) later
    refine ⟨last, first.trans second, ?_⟩
    intro columns untouched
    have here : s.AgreeOn columns outcome.store := agree_of_set isSet applied fun q member =>
      untouched q (.here ((Change.touched_iff applied).mp member))
    exact here.trans first (agree columns fun q touched => untouched q (.later applied touched))

/-! ## Writes within some columns -/

/-- On which columns a write is, is a matter of the shape alone. -/
theorem Change.Within.congr (same : s.SameShape r) (within : change.Within columns s) :
    change.Within columns r := by
  obtain ⟨id, row, name, value, rfl, inside⟩ := within
  refine ⟨id, row, name, value, rfl, ?_⟩
  intro u index key found resolved declared
  obtain ⟨t, there, specs, -⟩ := same.symm.exists_table found
  refine inside t index key there ?_ ((same.columnKey? id index).trans declared)
  rw [Table.resolve?_congr specs, resolved]

/-- Writes within some columns touch no other ones. -/
theorem columns_of_touched (within : ∀ change ∈ changes, change.Within columns s) {q : Register}
    (touched : TouchedBy s changes q) : columns q ∧ ∃ id key, q = ⟨id, some key⟩ := by
  induction touched with
  | here touches =>
    obtain ⟨id, row, name, value, rfl, inside⟩ := within _ List.mem_cons_self
    cases touches with
    | @set id t row index name value old c found resolved declared held differ =>
      refine ⟨inside t index c.spec.id found resolved ?_, id, c.spec.id, rfl⟩
      simp [Store.columnKey?, found, Table.specs, declared]
  | later applied touched ih =>
    have first := sameShape_of_set (within _ List.mem_cons_self).isSet applied
    exact ih fun change later => (within change (List.mem_cons_of_mem _ later)).congr first

/-- So writes within some columns leave all others as they are. -/
theorem agree_of_within (sound : s.Sound) (within : ∀ change ∈ changes, change.Within columns s)
    (done : carryOut s changes = .ok r) : s.AgreeOn (¬ columns ·) r := by
  have sets : ∀ change ∈ changes, change.IsSet := fun change member => (within change member).isSet
  obtain ⟨-, -, agree⟩ := carryOut_sets sound sets done
  exact agree _ fun q touched outside => outside (columns_of_touched within touched).1

/-- A write that is accepted on one store is accepted on another of its shape, in the same column. -/
private theorem accepted_congr {id : Ident} {t : Table} {row index : Nat} {name : ColumnRef}
    {value : Value} (same : s.SameShape r) (found : s.find? id = some t)
    (resolved : t.resolve? name = some index) (checked : t.checkWrite row index value = .ok ()) :
    ∃ u c d, r.find? id = some u ∧ u.resolve? name = some index ∧
      u.checkWrite row index value = .ok () ∧ t.columns[index]? = some c ∧
      u.columns[index]? = some d ∧ d.spec = c.spec := by
  obtain ⟨u, there, specs, count⟩ := same.exists_table found
  obtain ⟨kinds, inside⟩ := Table.checkWrite_eq_ok_iff.mp checked
  have kinds' := (Table.checkKind_congr specs).mpr kinds
  obtain ⟨c, declared, -⟩ := Table.checkKind_eq_ok_iff.mp kinds
  obtain ⟨d, declared', -⟩ := Table.checkKind_eq_ok_iff.mp kinds'
  have spec : u.specs[index]? = t.specs[index]? := congrArg (fun specs => specs[index]?) specs
  rw [Table.specs, Table.specs, List.getElem?_map, List.getElem?_map, declared, declared'] at spec
  exact ⟨u, c, d, there, (Table.resolve?_congr specs name).trans resolved,
    Table.checkWrite_eq_ok_iff.mpr ⟨kinds', count ▸ inside⟩, declared, declared',
    Option.some.inj spec⟩

/-- The same value in the same cell of stores that agree on some columns. -/
private theorem agree_put {id : Ident} {t u : Table} (found : s.find? id = some t)
    (there : r.find? id = some u) (agree : s.AgreeOn columns r) (row index : Nat) (value : Value) :
    (s.put (t.put row index value)).AgreeOn columns (r.put (u.put row index value)) := by
  intro id' i key row' declared inside
  have own : (t.put row index value).id = id := Table.id_put.trans (Store.id_of_find? found)
  have own' : (u.put row index value).id = id := Table.id_put.trans (Store.id_of_find? there)
  have shape : s.SameShape (s.put (t.put row index value)) :=
    Store.sameShape_put found own (Table.shape_put t row index value)
  have before := agree id' i key row' ((shape.columnKey? id' i).trans declared) inside
  by_cases here : id = id'
  · subst here
    rw [Store.cell_of_find? found, Store.cell_of_find? there] at before
    rw [Store.cell_put_self own, Store.cell_put_self own', Table.cell_put, Table.cell_put, before]
  · rw [Store.cell_put_other (own ▸ here), Store.cell_put_other (own' ▸ here), before]

/-- A write does the same on stores that agree in its column. -/
theorem Change.Within.apply_congr (soundS : s.Sound) (soundR : r.Sound) (same : s.SameShape r)
    (agree : s.AgreeOn columns r) (within : change.Within columns s)
    (applied : change.apply s = .ok outcome) :
    ∃ outcome', change.apply r = .ok outcome' ∧ outcome'.touched = outcome.touched ∧
      outcome.store.AgreeOn columns outcome'.store := by
  obtain ⟨id, row, name, value, rfl, inside⟩ := within
  have cells {t u : Table} {index : Nat} {c : Column} (found : s.find? id = some t)
      (resolved : t.resolve? name = some index) (declared : t.columns[index]? = some c)
      (there : r.find? id = some u) : u.cell? row index = t.cell? row index := by
    have key : s.columnKey? id index = some c.spec.id := by
      simp [Store.columnKey?, found, Table.specs, declared]
    rw [← Store.cell_of_find? found, ← Store.cell_of_find? there]
    exact (agree id index _ row key (inside t index _ found resolved key)).symm
  cases (Change.apply_eq_ok_iff soundS _).mp applied with
  | @kept _ t _ index _ _ found resolved checked held =>
    obtain ⟨u, c, d, there, resolved', checked', declared, -, -⟩ :=
      accepted_congr same found resolved checked
    have held' := (cells found resolved declared there).trans held
    exact ⟨_, (Change.apply_eq_ok_iff soundR _).mpr (.kept there resolved' checked' held'), rfl, agree⟩
  | @written _ t _ index _ _ old c found resolved checked held differ declared =>
    obtain ⟨u, c', d, there, resolved', checked', again, declared', spec⟩ :=
      accepted_congr same found resolved checked
    obtain rfl := Option.some.inj (declared.symm.trans again)
    have held' := (cells found resolved declared there).trans held
    refine ⟨_, (Change.apply_eq_ok_iff soundR _).mpr
      (.written there resolved' checked' held' differ declared'), ?_, ?_⟩
    · rw [spec]
    · exact agree_put found there agree row index value

/-- Writes within some columns do the same on stores that agree on these: they succeed on both, touch
the same registers and lead to stores that agree on the columns again. -/
theorem carryOut_congr {q : Store} (soundS : s.Sound) (soundR : r.Sound) (same : s.SameShape r)
    (agree : s.AgreeOn columns r) (within : ∀ change ∈ changes, change.Within columns s)
    (done : carryOut s changes = .ok q) :
    ∃ q', carryOut r changes = .ok q' ∧ q.AgreeOn columns q' ∧
      ∀ x, TouchedBy s changes x ↔ TouchedBy r changes x := by
  induction changes generalizing s r with
  | nil =>
    cases done
    exact ⟨r, rfl, agree, fun x => by simp [touchedBy_nil]⟩
  | cons change rest ih =>
    obtain ⟨outcome, applied, carried⟩ := bind_eq_ok_iff.mp done
    have first := within change List.mem_cons_self
    obtain ⟨outcome', applied', touched, agree'⟩ := first.apply_congr soundS soundR same agree applied
    have shape := sameShape_of_set first.isSet applied
    have shape' := sameShape_of_set first.isSet applied'
    have sound := ((Change.apply_eq_ok_iff soundS change).mp applied).sound_diff soundS
    have sound' := ((Change.apply_eq_ok_iff soundR change).mp applied').sound_diff soundR
    obtain ⟨q', carried', agree'', touches⟩ := ih sound.1 sound'.1
      (shape.symm.trans (same.trans shape')) agree'
      (fun c member => (within c (List.mem_cons_of_mem _ member)).congr shape) carried
    refine ⟨q', bind_eq_ok_iff.mpr ⟨outcome', applied', carried'⟩, agree'', fun x => ?_⟩
    rw [touchedBy_cons_iff applied, touchedBy_cons_iff applied', touched, touches]

end Ripple
