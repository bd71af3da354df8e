import Ripple.History
import Ripple.Proofs.ChangeCases

/-!
Effects as two-way differences. `Diff s effects r` says that doing the effects again leads from
`s` to `r` and undoing them, the last one first, leads from `r` back to `s`, with no effect
refused on the way. Differences compose, and whatever a change does to a sound store is one: the
effects listed for it are exactly what lies between the store before and the store after.
-/

namespace Ripple

open History (runSteps)

/-- The effects lead from one store to the other and back. -/
structure Diff (s : Store) (effects : List Effect) (r : Store) : Prop where
  /-- Doing all effects again. -/
  forth : runSteps Effect.replay s effects = (r, .ok ())
  /-- Undoing all effects, the last one first. -/
  back : runSteps Effect.revert r effects.reverse = (s, .ok ())

variable {s r q : Store} {t u : Table} {id : Ident} {row column : Nat} {value : Value}

/-- Steps are all done exactly if the first one is and then the others. -/
theorem runSteps_cons_eq_ok_iff {step : Effect → Store → Except Refusal Store} {effect : Effect}
    {rest : List Effect} :
    runSteps step s (effect :: rest) = (r, .ok ()) ↔
      ∃ middle, step effect s = .ok middle ∧ runSteps step middle rest = (r, .ok ()) := by
  rw [runSteps]
  cases step effect s <;> simp

/-- A place in two lists is one in the second or one in the first. -/
theorem split_of_append {α : Type} {first second before after : List α} {x : α}
    (split : first ++ second = before ++ x :: after) :
    (∃ inner, before = first ++ inner ∧ second = inner ++ x :: after) ∨
      ∃ inner, first = before ++ x :: inner ∧ after = inner ++ second := by
  rcases List.append_eq_append_iff.mp split with ⟨inner, left, right⟩ | ⟨inner, left, right⟩
  · exact .inl ⟨inner, left, right⟩
  · cases inner with
    | nil => exact .inl ⟨[], by simpa using left.symm, by simpa using right.symm⟩
    | cons y inner =>
      rw [List.cons_append, List.cons.injEq] at right
      obtain ⟨rfl, rfl⟩ := right
      exact .inr ⟨inner, left, rfl⟩

theorem runSteps_append {step : Effect → Store → Except Refusal Store} {effects : List Effect}
    (done : runSteps step s effects = (r, .ok ())) (rest : List Effect) :
    runSteps step s (effects ++ rest) = runSteps step r rest := by
  induction effects generalizing s with
  | nil =>
    cases done
    rfl
  | cons effect effects ih =>
    obtain ⟨middle, first, others⟩ := runSteps_cons_eq_ok_iff.mp done
    simpa only [List.cons_append, runSteps, first] using ih others

namespace Diff

theorem refl (s : Store) : Diff s [] s := ⟨rfl, rfl⟩

theorem single {effect : Effect} (done : effect.replay s = .ok r)
    (undone : effect.revert r = .ok s) : Diff s [effect] r where
  forth := by simp [runSteps, done]
  back := by simp [runSteps, undone]

theorem trans {first second : List Effect} (before : Diff s first r) (after : Diff r second q) :
    Diff s (first ++ second) q where
  forth := (runSteps_append before.forth second).trans after.forth
  back := by
    rw [List.reverse_append]
    exact (runSteps_append after.back first.reverse).trans before.back

end Diff

/-! ## Single effects -/

/-- Doing a cell again grows its table and puts the value. -/
theorem replay_cell (found : s.find? id = some t) (row : Nat) (old : Option Value)
    (kinds : t.checkKind column value = .ok ()) :
    (Effect.cell id row column old value).replay s =
      .ok (s.put ((t.growTo (row + 1)).put row column value)) := by
  obtain ⟨replaced, written⟩ :=
    t.writeExtending_eq_put row kinds
  have done := Store.writeCellExtending_eq_ok_iff.mpr ⟨t, _, found, written, rfl⟩
  simp only [Effect.replay, done, bind, Except.bind, pure, Except.pure]

private theorem diff_written {index : Nat} {old : Value} (sound : s.Sound)
    (found : s.find? id = some t) (checked : t.checkWrite row index value = .ok ())
    (held : t.cell? row index = some old) (differ : old ≠ value) :
    Diff s [.cell id row index (some old) value] (s.put (t.put row index value)) := by
  have regular := sound.regular_of_find? found
  have own : t.id = id := Store.id_of_find? found
  obtain ⟨kinds, inside⟩ := Table.checkWrite_eq_ok_iff.mp checked
  have written : t.write row index value = .ok (t.put row index value, some old) := by
    refine Table.write_eq_ok_iff.mpr ⟨checked, rfl, ?_⟩
    simp [held, Option.filter, differ]
  refine .single ?_ ?_
  · rw [replay_cell found row _ kinds, Table.growTo_of_le inside]
  · have there : (s.put (t.put row index value)).find? id = some (t.put row index value) :=
      Store.find?_put_self own
    have restored : (s.put (t.put row index value)).put t = s :=
      Store.put_restore sound.ascending (own ▸ found) Table.id_put
    have done := Store.writeCell_eq_ok_iff.mpr
      ⟨_, t, there, Table.write_undo regular written, restored⟩
    simp only [Effect.revert, done, bind, Except.bind, pure, Except.pure]

private theorem diff_created {name : String} {specs : List ColumnSpec} (sound : s.Sound)
    (absent : s.find? id = none) :
    Diff s [.created id name specs] (s.put (.empty id name specs)) := by
  refine .single (Store.create_eq_ok_iff.mpr ⟨absent, rfl⟩) (Store.drop_eq_ok_iff.mpr ⟨?_, ?_⟩)
  · exact ⟨_, Store.find?_put_self rfl⟩
  · exact Store.erase_put (t := .empty id name specs) sound.ascending absent

/-! ## Appended rows -/

/-- The effects of the cells of one appended row, from a column on. -/
def rowEffects (id : Ident) (row column : Nat) (values : Row) : List Effect :=
  (values.zipIdx column).map fun (value, c) => .cell id row c none value

theorem appendEffects_cons (id : Ident) (first : Nat) (values : Row) (rows : List Row) :
    appendEffects id first (values :: rows) =
      rowEffects id first 0 values ++ appendEffects id (first + 1) rows := rfl

/-- The cells of a row that is there are done again one after the other. -/
private theorem replay_cells (ascending : s.Ascending) (found : s.find? id = some t)
    (inside : row < t.rowCount) (values : Row)
    (kinds : ∀ i v, values[i]? = some v → t.checkKind (column + i) v = .ok ()) :
    runSteps Effect.replay s (rowEffects id row column values) =
      (s.put (t.putRow row column values), .ok ()) := by
  induction values generalizing s t column with
  | nil =>
    have own : t.id = id := Store.id_of_find? found
    rw [Table.putRow, Store.put_of_find? ascending (own ▸ found)]
    rfl
  | cons value values ih =>
    have own : t.id = id := Store.id_of_find? found
    have first : t.checkKind column value = .ok () := kinds 0 value rfl
    have later : ∀ i v, values[i]? = some v →
        (t.put row column value).checkKind (column + 1 + i) v = .ok () := by
      intro i v at_i
      rw [Table.checkKind_congr (Table.specs_put ..), Nat.add_assoc, Nat.add_comm 1]
      exact kinds (i + 1) v at_i
    have rest := ih (t := t.put row column value) (Store.ascending_put ascending _)
      (Store.find?_put_self own) inside later
    rw [Store.put_put _ (by simp)] at rest
    have done := replay_cell found row none first
    rw [Table.growTo_of_le inside] at done
    simpa only [rowEffects, List.zipIdx_cons, List.map_cons, runSteps, done, Table.putRow] using rest

/-- Undoing cells of a row that is gone already changes nothing. -/
private theorem revert_gone (ascending : s.Ascending) (found : s.find? id = some t)
    (gone : t.rowCount ≤ row) {effects : List Effect}
    (cells : ∀ e ∈ effects, ∃ c v, e = .cell id row c none v) :
    runSteps Effect.revert s effects = (s, .ok ()) := by
  induction effects with
  | nil => rfl
  | cons effect effects ih =>
    obtain ⟨c, v, rfl⟩ := cells effect List.mem_cons_self
    have own : t.id = id := Store.id_of_find? found
    have first : (Effect.cell id row c none v).revert s = .ok s :=
      Store.truncateRows_eq_ok_iff.mpr ⟨t, found, by
        rw [Table.truncate_of_le gone, Store.put_of_find? ascending (own ▸ found)]⟩
    simpa only [runSteps, first] using ih fun e member => cells e (List.mem_cons_of_mem _ member)

/-- Undoing the first cell of a row cuts the row off, and the other cells with it. -/
private theorem revert_cells (ascending : s.Ascending) (found : s.find? id = some t)
    {effects : List Effect} (nonempty : effects ≠ [])
    (cells : ∀ e ∈ effects, ∃ c v, e = .cell id row c none v) :
    runSteps Effect.revert s effects = (s.put (t.truncate row), .ok ()) := by
  cases effects with
  | nil => exact absurd rfl nonempty
  | cons effect effects =>
    obtain ⟨c, v, rfl⟩ := cells effect List.mem_cons_self
    have own : (t.truncate row).id = id := by
      rw [← Store.id_of_find? found, Table.truncate]
      split <;> rfl
    have first : (Effect.cell id row c none v).revert s = .ok (s.put (t.truncate row)) :=
      Store.truncateRows_eq_ok_iff.mpr ⟨t, found, rfl⟩
    have short : (t.truncate row).rowCount ≤ row := by
      rw [Table.rowCount_truncate]
      exact Nat.min_le_right _ _
    simp only [runSteps, first]
    exact revert_gone (Store.ascending_put ascending _) (Store.find?_put_self own) short
      fun e member => cells e (List.mem_cons_of_mem _ member)

private theorem diff_row (sound : s.Sound) (found : s.find? id = some t) {values : Row}
    (checked : t.checkRow values = .ok ()) (nonempty : values ≠ []) :
    Diff s (rowEffects id t.rowCount 0 values) (s.put (t.extend [values])) := by
  have regular := sound.regular_of_find? found
  have own : t.id = id := Store.id_of_find? found
  obtain ⟨width, kinds⟩ := Table.checkRow_eq_ok_iff.mp checked
  obtain ⟨value, rest, rfl⟩ := List.exists_cons_of_ne_nil nonempty
  have first : t.checkKind 0 value = .ok () := kinds 0 value rfl
  let grown := (t.growTo (t.rowCount + 1)).put t.rowCount 0 value
  have inside : t.rowCount < grown.rowCount := by
    rw [Table.rowCount_put, Table.rowCount_growTo]
    omega
  have later : ∀ i v, rest[i]? = some v → grown.checkKind (0 + 1 + i) v = .ok () := by
    intro i v at_i
    rw [Table.checkKind_congr (Table.specs_put ..), Table.checkKind_congr (Table.specs_growTo ..),
      Nat.zero_add, Nat.add_comm]
    exact kinds (i + 1) v at_i
  have grownOwn : grown.id = id := by simp [grown, own]
  constructor
  · have done := replay_cell found t.rowCount none first
    have others := replay_cells (Store.ascending_put sound.ascending grown)
      (Store.find?_put_self grownOwn) inside rest later
    rw [Store.put_put _ (by simp)] at others
    have whole : grown.putRow t.rowCount (0 + 1) rest = t.extend [value :: rest] :=
      Table.putRow_growTo regular width
    simpa only [rowEffects, List.zipIdx_cons, List.map_cons, runSteps, done, whole] using others
  · have cells : ∀ e ∈ (rowEffects id t.rowCount 0 (value :: rest)).reverse,
        ∃ c v, e = .cell id t.rowCount c none v := by
      intro e member
      obtain ⟨⟨v, c⟩, -, rfl⟩ := List.mem_map.mp (List.mem_reverse.mp member)
      exact ⟨c, v, rfl⟩
    rw [revert_cells (t := t.extend [value :: rest]) (Store.ascending_put sound.ascending _)
        (Store.find?_put_self own) (by simp [rowEffects]) cells,
      Table.truncate_extend regular, Store.put_restore sound.ascending (own ▸ found) (Table.id_extend ..)]

private theorem diff_appended (sound : s.Sound) (found : s.find? id = some t)
    (columns : t.columns ≠ []) {rows : List Row}
    (checked : ∀ values ∈ rows, t.checkRow values = .ok ()) :
    Diff s (appendEffects id t.rowCount rows) (s.put (t.extend rows)) := by
  induction rows generalizing s t with
  | nil =>
    have own : t.id = id := Store.id_of_find? found
    rw [Table.extend_nil, Store.put_of_find? sound.ascending (own ▸ found)]
    exact .refl s
  | cons values rows ih =>
    have regular := sound.regular_of_find? found
    have own : t.id = id := Store.id_of_find? found
    have first := checked values List.mem_cons_self
    have nonempty : values ≠ [] := (Table.ne_nil_iff_of_checkRow first).mpr columns
    have longer : (t.extend [values]).Regular := Table.regular_extend regular (by simpa using first)
    have rest := ih (t := t.extend [values]) (Store.sound_put sound longer)
      (Store.find?_put_self own) (by simpa [Table.extend] using columns) fun more member =>
        (Table.checkRow_congr (Table.specs_extend ..)).mpr
          (checked more (List.mem_cons_of_mem _ member))
    rw [Store.put_put _ (Table.id_extend ..).symm, ← Table.extend_cons] at rest
    rw [appendEffects_cons]
    exact (diff_row sound found first nonempty).trans rest

/-! ## Changes -/

/-- What a change does to a sound store leaves it sound and is exactly described by its effects. -/
theorem Change.Leads.sound_diff {change : Change} {outcome : Outcome} (sound : s.Sound)
    (leads : change.Leads s outcome) :
    outcome.store.Sound ∧ Diff s outcome.effects outcome.store := by
  cases leads with
  | kept => exact ⟨sound, .refl s⟩
  | written found resolved checked held differ declared =>
    have kinds := (Table.checkWrite_eq_ok_iff.mp checked).1
    exact ⟨Store.sound_put sound (Table.regular_put (sound.regular_of_find? found) kinds),
      diff_written sound found checked held differ⟩
  | noRows => exact ⟨sound, .refl s⟩
  | appended found nonempty checked =>
    have fit (values : Row) (added : values ∈ _) := Table.checkRow_of_checkRows checked added
    have columns := Table.columns_ne_nil_of_checkRows checked nonempty
    exact ⟨Store.sound_put sound (Table.regular_extend (sound.regular_of_find? found) fit),
      diff_appended sound found columns fit⟩
  | present => exact ⟨sound, .refl s⟩
  | created absent =>
    exact ⟨Store.sound_put sound (Table.regular_empty _ _ _), diff_created sound absent⟩

end Ripple
