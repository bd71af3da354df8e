import Ripple.Program.Evaluation
import Ripple.Proofs.Diff
import Ripple.Proofs.Touches

/-!
Working copies as stores. A `Draft` is written beside the store, by checks of its own; `Draft.From`
says that the changes listed with it lead from the store to the same store with the draft in it, one
after the other, none of them refused and none of them idle. What this takes of a table, besides
being regular, is that no two of its columns have the same identifier (`Table.Tidy`): changes name
columns by identifiers, drafts by positions.
-/

namespace Ripple

/-! ## Tidy tables -/

/-- A regular table whose columns have different identifiers. -/
structure Table.Tidy (t : Table) : Prop where
  regular : t.Regular
  distinct : (t.specs.map ColumnSpec.id).Nodup

/-- Every table is kept once, under its own identifier, and is tidy. -/
structure Store.Tidy (s : Store) : Prop where
  ascending : s.Ascending
  tidy : ∀ t ∈ s.tables, t.Tidy

variable {s r q : Store} {t u : Table} {id : Ident} {row column : Nat} {value : Value}

theorem Store.Tidy.sound (tidy : s.Tidy) : s.Sound where
  ascending := tidy.ascending
  regular t member := (tidy.tidy t member).regular

theorem Store.Tidy.of_find? (tidy : s.Tidy) (found : s.find? id = some t) : t.Tidy :=
  tidy.tidy t (List.mem_of_find?_eq_some found)

theorem Store.tidy_empty : Store.empty.Tidy := ⟨ascending_empty, fun _ none => by cases none⟩

theorem Store.tidy_put (tidy : s.Tidy) (own : t.Tidy) : (s.put t).Tidy where
  ascending := ascending_put tidy.ascending t
  tidy u member := by
    rcases mem_place member with rfl | old
    · exact own
    · exact tidy.tidy u old

namespace Table

@[simp] theorem specs_empty (id : Ident) (name : String) (specs : List ColumnSpec) :
    (empty id name specs).specs = specs := by
  simp [Table.specs, Table.empty, Function.comp_def]

theorem tidy_empty {name : String} {specs : List ColumnSpec}
    (distinct : (specs.map ColumnSpec.id).Nodup) : (empty id name specs).Tidy where
  regular := regular_empty id name specs
  distinct := (specs_empty id name specs).symm ▸ distinct

theorem Tidy.put (tidy : t.Tidy) (right : t.checkKind column value = .ok ()) :
    (t.put row column value).Tidy where
  regular := regular_put tidy.regular right
  distinct := (specs_put t row column value).symm ▸ tidy.distinct

theorem Tidy.extend (tidy : t.Tidy) {rows : List Row}
    (checked : ∀ row ∈ rows, t.checkRow row = .ok ()) : (t.extend rows).Tidy where
  regular := regular_extend tidy.regular checked
  distinct := (specs_extend t rows).symm ▸ tidy.distinct

/-- Among different identifiers the one of a column leads to it. -/
theorem Tidy.columnIndex? (tidy : t.Tidy) {c : Column} (declared : t.columns[column]? = some c) :
    t.columnIndex? c.spec.id = some column := by
  obtain ⟨inside, rfl⟩ := List.getElem?_eq_some_iff.mp declared
  refine List.findIdx?_eq_some_iff_getElem.mpr ⟨inside, by simp, ?_⟩
  intro j before same
  have earlier := List.pairwise_iff_getElem.mp tidy.distinct j column
    (by simpa [Table.specs] using Nat.lt_trans before inside) (by simpa [Table.specs] using inside)
    before
  exact earlier (by simpa [Table.specs] using same)

/-- Rows that fit one by one can be appended, if there are columns. -/
theorem checkRows_eq_ok {rows : List Row} (columns : t.columns ≠ [])
    (checked : ∀ row ∈ rows, t.checkRow row = .ok ()) : t.checkRows rows = .ok () := by
  rw [checkRows, if_neg (by simp [columns])]
  exact forM_eq_ok_iff.mpr checked

end Table

theorem Store.tidy_create {name : String} {specs : List ColumnSpec} {rows : List Row} (tidy : s.Tidy)
    (distinct : (specs.map ColumnSpec.id).Nodup) (created : s.create id name specs rows = .ok r) :
    r.Tidy := by
  unfold Store.create at created
  split at created
  · cases created
  · obtain ⟨u, appended, placed⟩ := bind_eq_ok_iff.mp created
    obtain ⟨_, checked, whole⟩ := bind_eq_ok_iff.mp appended
    cases placed
    cases whole
    exact Store.tidy_put tidy
      ((Table.tidy_empty distinct).extend fun row new => Table.checkRow_of_checkRows checked new)

/-! ## Effective changes -/

/-- The changes lead from one store to the other, one after the other, and each has an effect. -/
inductive Effective : Store → List Change → Store → Prop
  | nil {s : Store} : Effective s [] s
  | cons {s r : Store} {change : Change} {rest : List Change} {outcome : Outcome}
      (applied : change.apply s = .ok outcome) (effect : outcome.effects ≠ [])
      (others : Effective outcome.store rest r) : Effective s (change :: rest) r

namespace Effective

variable {changes later : List Change}

theorem append (first : Effective s changes r) (second : Effective r later q) :
    Effective s (changes ++ later) q := by
  induction first with
  | nil => exact second
  | cons applied effect _ ih => exact .cons applied effect (ih second)

theorem carryOut (effective : Effective s changes r) : carryOut s changes = .ok r := by
  induction effective with
  | nil => rfl
  | cons applied _ _ ih =>
    rw [Ripple.carryOut, applied]
    exact ih

end Effective

namespace Program

/-! ## Drafts -/

/-- The changes of the draft lead from the store to the one that has the draft. -/
structure Draft.From (s : Store) (d : Draft) : Prop where
  effective : Effective s d.changes (s.put d.table)
  tidy : d.table.Tidy

namespace Draft

variable {d : Draft}

@[simp] theorem specs_setCell : (d.setCell row column value).table.specs = d.table.specs := by
  unfold setCell
  split
  · rfl
  · split
    · rfl
    · exact Table.specs_put ..

@[simp] theorem rowCount_setCell : (d.setCell row column value).table.rowCount = d.table.rowCount := by
  unfold setCell
  split
  · rfl
  · split <;> rfl

@[simp] theorem id_setCell : (d.setCell row column value).table.id = d.table.id := by
  unfold setCell
  split
  · rfl
  · split <;> rfl

theorem regular_setCell (regular : d.table.Regular)
    (checked : d.table.checkWrite row column value = .ok ()) :
    (d.setCell row column value).table.Regular := by
  unfold setCell
  split
  · exact regular
  · split
    · exact regular
    · exact Table.regular_put regular (Table.checkWrite_eq_ok_iff.mp checked).1

/-- The other draft comes of this one by writing cells that are there. -/
inductive Sets (d : Draft) : Draft → Prop
  | refl : Sets d d
  | cell {e : Draft} {row column : Nat} {value : Value} (sets : Sets d e)
      (checked : e.table.checkWrite row column value = .ok ()) :
      Sets d (e.setCell row column value)

namespace Sets

variable {e : Draft}

theorem specs_eq (sets : d.Sets e) : e.table.specs = d.table.specs := by
  induction sets with
  | refl => rfl
  | cell _ _ ih => rw [specs_setCell, ih]

theorem rowCount_eq (sets : d.Sets e) : e.table.rowCount = d.table.rowCount := by
  induction sets with
  | refl => rfl
  | cell _ _ ih => rw [rowCount_setCell, ih]

theorem id_eq (sets : d.Sets e) : e.table.id = d.table.id := by
  induction sets with
  | refl => rfl
  | cell _ _ ih => rw [id_setCell, ih]

theorem regular (sets : d.Sets e) (before : d.table.Regular) : e.table.Regular := by
  induction sets with
  | refl => exact before
  | cell _ checked ih => exact regular_setCell ih checked

theorem setRow (sets : d.Sets e) (inside : row < d.table.rowCount) {values : Row}
    (kinds : ∀ i v, values[i]? = some v → d.table.checkKind (column + i) v = .ok ()) :
    d.Sets (e.setRow row column values) := by
  induction values generalizing e column with
  | nil => exact sets
  | cons value values ih =>
    have first : e.table.checkWrite row column value = .ok () := by
      refine Table.checkWrite_eq_ok_iff.mpr ⟨?_, sets.rowCount_eq ▸ inside⟩
      exact (Table.checkKind_congr sets.specs_eq).mpr (kinds 0 value rfl)
    refine ih (sets.cell first) ?_
    intro i v at_i
    rw [Nat.add_assoc, Nat.add_comm 1]
    exact kinds (i + 1) v at_i

theorem setRows (sets : d.Sets e) {rows : List Row} (inside : row + rows.length ≤ d.table.rowCount)
    (checked : ∀ values ∈ rows, d.table.checkRow values = .ok ()) : d.Sets (e.setRows row rows) := by
  induction rows generalizing e row with
  | nil => exact sets
  | cons values rows ih =>
    rw [List.length_cons] at inside
    obtain ⟨first, others⟩ := List.forall_mem_cons.mp checked
    obtain ⟨-, kinds⟩ := Table.checkRow_eq_ok_iff.mp first
    exact ih (sets.setRow (by omega) (by simpa using kinds)) (by omega) others

end Sets

namespace From

/-- One more change, which has an effect on the draft. -/
theorem change (done : From s d) {change : Change} {effects : List Effect} {touched : List Register}
    (applied : change.apply (s.put d.table) = .ok ⟨(s.put d.table).put u, effects, touched⟩)
    (effect : effects ≠ []) (same : d.table.id = u.id) (tidy : u.Tidy) :
    From s ⟨u, d.changes ++ [change]⟩ where
  effective := by
    rw [Store.put_put _ same] at applied
    exact done.effective.append (.cons applied effect .nil)
  tidy := tidy

theorem ofTable (ascending : s.Ascending) (found : s.find? t.id = some t) (tidy : t.Tidy) :
    From s (.ofTable t) where
  effective := by
    rw [Draft.ofTable, Store.put_of_find? ascending found]
    exact .nil
  tidy := tidy

variable (sound : s.Sound)
include sound

theorem create {name : String} {specs : List ColumnSpec} (absent : s.find? id = none)
    (distinct : (specs.map ColumnSpec.id).Nodup) :
    From s ⟨.empty id name specs, [.define id name specs]⟩ where
  effective := by
    have applied := (Change.apply_eq_ok_iff sound (.define id name specs)).mpr
      (.created absent)
    exact .cons applied (by simp) .nil
  tidy := Table.tidy_empty distinct

theorem setCell (done : From s d) (checked : d.table.checkWrite row column value = .ok ()) :
    From s (d.setCell row column value) := by
  have found : (s.put d.table).find? d.table.id = some d.table := Store.find?_put_self rfl
  have placed : (s.put d.table).Sound := Store.sound_put sound done.tidy.regular
  obtain ⟨old, held, -⟩ := Table.cell_of_checkWrite done.tidy.regular checked
  obtain ⟨kinds, -⟩ := Table.checkWrite_eq_ok_iff.mp checked
  unfold Draft.setCell
  split
  · exact done
  · next c declared =>
    have here : d.table.cell? row column = c.cells[row]? := by
      simp [Table.cell?, declared]
    split
    · exact done
    · next differ =>
      rw [← here, held, Option.some.injEq] at differ
      exact done.change
        ((Change.apply_eq_ok_iff placed _).mpr
          (.written found (done.tidy.columnIndex? declared) checked held differ declared))
        (by simp) rfl (done.tidy.put kinds)

theorem sets {e : Draft} (done : From s d) (sets : d.Sets e) : From s e := by
  induction sets with
  | refl => exact done
  | cell _ checked ih => exact ih.setCell sound checked

theorem append (done : From s d) {rows : List Row} (columns : rows ≠ [] → d.table.columns ≠ [])
    (checked : ∀ values ∈ rows, d.table.checkRow values = .ok ()) : From s (d.append rows) := by
  have found : (s.put d.table).find? d.table.id = some d.table := Store.find?_put_self rfl
  have placed : (s.put d.table).Sound := Store.sound_put sound done.tidy.regular
  unfold Draft.append
  split
  · exact done
  · next some =>
    rw [List.isEmpty_iff] at some
    have fit := Table.checkRows_eq_ok (columns some) checked
    refine done.change
      ((Change.apply_eq_ok_iff placed _).mpr (.appended found some fit)) ?_ rfl
      (done.tidy.extend checked)
    obtain ⟨values, rest, rfl⟩ := List.exists_cons_of_ne_nil some
    have cells : values ≠ [] :=
      (Table.ne_nil_iff_of_checkRow (checked values List.mem_cons_self)).mpr (columns some)
    simp [appendEffects_cons, rowEffects, cells]

end From

end Draft

end Program

end Ripple
