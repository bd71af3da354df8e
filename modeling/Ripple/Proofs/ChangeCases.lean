import Ripple.Change
import Ripple.Proofs.TableReversal
import Ripple.Store.Lookup

/-!
Everything that carrying out a change can come to. `Store.Sound` is the invariant of stores, and
`Change.Leads` lists the six ways in which a change succeeds on a sound store, each with the store
after it, the effects and the registers it touched; `apply_eq_ok_iff` says that there are no others.
-/

namespace Ripple

/-- A computation in steps succeeds exactly if every step does. -/
theorem bind_eq_ok_iff {ε α β : Type} {first : Except ε α} {next : α → Except ε β} {b : β} :
    first >>= next = .ok b ↔ ∃ a, first = .ok a ∧ next a = .ok b := by
  cases first <;> simp [bind, Except.bind]

/-! ## Sound stores -/

namespace Store

/-- Every table is kept once, under its own identifier, and all its columns are as long as its row
count and hold values of their kinds. -/
structure Sound (s : Store) : Prop where
  ascending : s.Ascending
  regular : ∀ t ∈ s.tables, t.Regular

variable {s r : Store} {t u : Table} {id : Ident} {row column : Nat} {value : Value}

theorem sound_empty : empty.Sound := ⟨ascending_empty, fun _ none => by cases none⟩

theorem sound_single (regular : t.Regular) : Sound ⟨[t]⟩ where
  ascending := List.pairwise_singleton _ _
  regular u member := by
    obtain rfl := List.mem_singleton.mp member
    exact regular

theorem Sound.regular_of_find? (sound : s.Sound) (found : s.find? id = some t) : t.Regular :=
  sound.regular t (List.mem_of_find?_eq_some found)

theorem sound_put (sound : s.Sound) (regular : t.Regular) : (s.put t).Sound where
  ascending := ascending_put sound.ascending t
  regular u member := by
    rcases mem_place member with rfl | old
    · exact regular
    · exact sound.regular u old

theorem find?_put_self (own : t.id = id) : (s.put t).find? id = some t := by
  rw [find?_put, if_pos own]

/-- Putting a table in its own place changes nothing. -/
theorem put_of_find? (ascending : s.Ascending) (found : s.find? t.id = some t) : s.put t = s := by
  refine eq_of_find?_eq (ascending_put ascending t) ascending ?_
  intro id
  rw [find?_put]
  split
  · next same => exact same ▸ found.symm
  · rfl

/-- Putting the old table back takes its replacement back. -/
theorem put_restore (ascending : s.Ascending) (found : s.find? t.id = some t)
    (same : u.id = t.id) : (s.put u).put t = s := by
  rw [s.put_put same, put_of_find? ascending found]

/-- Removing a table that was added takes its addition back. -/
theorem erase_put (ascending : s.Ascending) (absent : s.find? t.id = none) :
    (s.put t).erase t.id = s := by
  have added := ascending_put ascending t
  refine eq_of_find?_eq (ascending_erase added t.id) ascending ?_
  intro id
  rw [find?_erase, find?_put]
  split
  · next same => exact same ▸ absent.symm
  · rfl

theorem contains_eq_false_iff : s.contains id = false ↔ s.find? id = none := by
  rw [contains_eq_isSome_find?, Option.isSome_eq_false_iff, Option.isNone_iff_eq_none]

/-! ## Successful operations -/

theorem get_eq_ok_iff : s.get id = .ok t ↔ s.find? id = some t := by
  unfold get
  cases s.find? id <;> simp

theorem resolve_eq_ok_iff {name : ColumnRef} {index : Nat} :
    s.resolve id name = .ok index ↔
      ∃ t, s.find? id = some t ∧ t.resolve? name = some index := by
  simp only [resolve, bind_eq_ok_iff, get_eq_ok_iff]
  refine exists_congr fun t => and_congr_right fun _ => ?_
  cases t.resolve? name <;> simp

theorem writeCell_eq_ok_iff {old : Option Value} :
    s.writeCell id row column value = .ok (r, old) ↔
      ∃ t u, s.find? id = some t ∧ t.write row column value = .ok (u, old) ∧ s.put u = r := by
  simp only [writeCell, bind_eq_ok_iff, get_eq_ok_iff, pure, Except.pure, Except.ok.injEq,
    Prod.mk.injEq, Prod.exists]
  constructor
  · rintro ⟨t, found, u, replaced, written, rfl, rfl⟩
    exact ⟨t, u, found, written, rfl⟩
  · rintro ⟨t, u, found, written, rfl⟩
    exact ⟨t, found, u, old, written, rfl, rfl⟩

theorem writeCellExtending_eq_ok_iff {old : Option Value} :
    s.writeCellExtending id row column value = .ok (r, old) ↔
      ∃ t u, s.find? id = some t ∧ t.writeExtending row column value = .ok (u, old) ∧
        s.put u = r := by
  simp only [writeCellExtending, bind_eq_ok_iff, get_eq_ok_iff, pure, Except.pure,
    Except.ok.injEq, Prod.mk.injEq, Prod.exists]
  constructor
  · rintro ⟨t, found, u, replaced, written, rfl, rfl⟩
    exact ⟨t, u, found, written, rfl⟩
  · rintro ⟨t, u, found, written, rfl⟩
    exact ⟨t, found, u, old, written, rfl, rfl⟩

theorem appendRows_eq_ok_iff {rows : List Row} {first last : Nat} :
    s.appendRows id rows = .ok (r, first, last) ↔
      ∃ t, s.find? id = some t ∧ t.checkRows rows = .ok () ∧ s.put (t.extend rows) = r ∧
        t.rowCount = first ∧ t.rowCount + rows.length = last := by
  simp only [appendRows, Table.append, bind_eq_ok_iff, get_eq_ok_iff, pure, Except.pure,
    Except.ok.injEq, Prod.mk.injEq]
  constructor
  · rintro ⟨t, found, longer, ⟨_, checked, rfl⟩, rfl, rfl, rfl⟩
    exact ⟨t, found, checked, rfl, rfl, rfl⟩
  · rintro ⟨t, found, checked, rfl, rfl, rfl⟩
    exact ⟨t, found, _, ⟨(), checked, rfl⟩, rfl, rfl, rfl⟩

theorem truncateRows_eq_ok_iff {count : Nat} :
    s.truncateRows id count = .ok r ↔
      ∃ t, s.find? id = some t ∧ s.put (t.truncate count) = r := by
  simp [truncateRows, bind_eq_ok_iff, get_eq_ok_iff, pure, Except.pure]

theorem drop_eq_ok_iff : s.drop id = .ok r ↔ (∃ t, s.find? id = some t) ∧ s.erase id = r := by
  unfold drop
  rw [contains_eq_isSome_find?]
  cases s.find? id <;> simp

/-- A table is created without rows exactly where there is none yet. -/
theorem create_eq_ok_iff {name : String} {specs : List ColumnSpec} :
    s.create id name specs [] = .ok r ↔
      s.find? id = none ∧ s.put (Table.empty id name specs) = r := by
  unfold create
  rw [contains_eq_isSome_find?]
  cases s.find? id with
  | some t => simp [bind, Except.bind]
  | none =>
    have empty : (Table.empty id name specs).append [] = .ok (Table.empty id name specs) := by
      simp [Table.append, Table.checkRows, Table.extend_nil, bind, Except.bind, pure, Except.pure]
    simp [empty, bind, Except.bind, pure, Except.pure]

/-! ## Writes -/

/-- What writing a value to a cell of a table comes to, whether it was there already or not. -/
def written (s : Store) (t : Table) (row index : Nat) (value : Value) : Outcome :=
  let replaced := ((t.cell? row index).filter (· ≠ value)).toList
  { store := s.put (t.put row index value)
    effects := replaced.map fun old => .cell t.id row index (some old) value
    touched := replaced.map fun _ => ⟨t.id, t.specs[index]?.map ColumnSpec.id⟩ }

theorem written_of_held (held : t.cell? row column = some value) :
    s.written t row column value = ⟨s.put t, [], []⟩ := by
  simp [written, held, Table.put_cell held]

theorem written_of_ne {old : Value} {c : Column} (held : t.cell? row column = some old)
    (differ : old ≠ value) (declared : t.columns[column]? = some c) :
    s.written t row column value =
      ⟨s.put (t.put row column value), [.cell t.id row column (some old) value],
        [⟨t.id, some c.spec.id⟩]⟩ := by
  simp [written, held, Option.filter, differ, Table.specs, declared]

end Store

/-! ## The outcomes of a change -/

namespace Change

/-- What a change comes to where it is not refused. A cell that already holds the value, an
append of no rows and the definition of a table that is there have no effect. -/
inductive Leads (s : Store) : Change → Outcome → Prop
  | kept {id : Ident} {t : Table} {row index : Nat} {column : ColumnRef} {value : Value}
      (found : s.find? id = some t) (resolved : t.resolve? column = some index)
      (checked : t.checkWrite row index value = .ok ())
      (held : t.cell? row index = some value) :
      Leads s (.set id row column value) ⟨s, [], []⟩
  | written {id : Ident} {t : Table} {row index : Nat} {column : ColumnRef} {value old : Value}
      {c : Column} (found : s.find? id = some t) (resolved : t.resolve? column = some index)
      (checked : t.checkWrite row index value = .ok ())
      (held : t.cell? row index = some old) (differ : old ≠ value)
      (declared : t.columns[index]? = some c) :
      Leads s (.set id row column value)
        ⟨s.put (t.put row index value), [.cell id row index (some old) value],
          [⟨id, some c.spec.id⟩]⟩
  | noRows {id : Ident} {t : Table} (found : s.find? id = some t) :
      Leads s (.append id []) ⟨s, [], []⟩
  | appended {id : Ident} {t : Table} {rows : List Row} (found : s.find? id = some t)
      (some : rows ≠ []) (checked : t.checkRows rows = .ok ()) :
      Leads s (.append id rows)
        ⟨s.put (t.extend rows), appendEffects id t.rowCount rows, [.any id]⟩
  | present {id : Ident} {t : Table} {name : String} {specs : List ColumnSpec}
      (found : s.find? id = some t) : Leads s (.define id name specs) ⟨s, [], []⟩
  | created {id : Ident} {name : String} {specs : List ColumnSpec}
      (absent : s.find? id = none) :
      Leads s (.define id name specs)
        ⟨s.put (.empty id name specs), [.created id name specs], [.any id]⟩

variable {s : Store} {outcome : Outcome}

/-- A write succeeds exactly where its column is found and takes the value, and the row is there. -/
theorem set_eq_ok_iff {id : Ident} {row : Nat} {name : ColumnRef} {value : Value} :
    (set id row name value).apply s = .ok outcome ↔
      ∃ t index, s.find? id = some t ∧ t.resolve? name = some index ∧
        t.checkWrite row index value = .ok () ∧ outcome = s.written t row index value := by
  simp only [apply, bind_eq_ok_iff, Store.resolve_eq_ok_iff, Store.get_eq_ok_iff,
    Prod.exists, Store.writeCell_eq_ok_iff, Table.write_eq_ok_iff]
  constructor
  · rintro ⟨index, ⟨t, found, resolved⟩, u, again, q, old, ⟨v, w, once, ⟨checked, rfl, rfl⟩, rfl⟩,
      result⟩
    obtain rfl : t = u := Option.some.inj (found.symm.trans again)
    obtain rfl : t = v := Option.some.inj (found.symm.trans once)
    obtain rfl : t.id = id := Store.id_of_find? found
    refine ⟨t, index, found, resolved, checked, ?_⟩
    unfold Store.written
    revert result
    cases (t.cell? row index).filter (· ≠ value) <;> rintro ⟨⟩ <;> rfl
  · rintro ⟨t, index, found, resolved, checked, rfl⟩
    obtain rfl : t.id = id := Store.id_of_find? found
    refine ⟨index, ⟨t, found, resolved⟩, t, found, _, _, ⟨t, _, found, ⟨checked, rfl, rfl⟩, rfl⟩, ?_⟩
    unfold Store.written
    cases (t.cell? row index).filter (· ≠ value) <;> rfl

private theorem set_leads (sound : s.Sound) {id : Ident} {row : Nat} {column : ColumnRef}
    {value : Value} :
    (set id row column value).apply s = .ok outcome ↔ Leads s (set id row column value) outcome := by
  rw [set_eq_ok_iff]
  constructor
  · rintro ⟨t, index, found, resolved, checked, rfl⟩
    obtain rfl : t.id = id := Store.id_of_find? found
    obtain ⟨old, held, -⟩ := Table.cell_of_checkWrite (sound.regular_of_find? found) checked
    obtain ⟨kinds, -⟩ := Table.checkWrite_eq_ok_iff.mp checked
    obtain ⟨c, declared, -⟩ := Table.checkKind_eq_ok_iff.mp kinds
    by_cases same : old = value
    · rw [Store.written_of_held (same ▸ held), Store.put_of_find? sound.ascending found]
      exact .kept found resolved checked (same ▸ held)
    · rw [Store.written_of_ne held same declared]
      exact .written found resolved checked held same declared
  · intro leads
    cases leads with
    | @kept _ t _ index _ _ found resolved checked held =>
      obtain rfl : t.id = id := Store.id_of_find? found
      refine ⟨t, index, found, resolved, checked, ?_⟩
      rw [Store.written_of_held held, Store.put_of_find? sound.ascending found]
    | @written _ t _ index _ _ old c found resolved checked held differ declared =>
      obtain rfl : t.id = id := Store.id_of_find? found
      exact ⟨t, index, found, resolved, checked, (Store.written_of_ne held differ declared).symm⟩

private theorem append_leads {id : Ident} {rows : List Row} :
    (append id rows).apply s = .ok outcome ↔ Leads s (append id rows) outcome := by
  cases rows with
  | nil =>
    simp only [apply, List.isEmpty_nil, ↓reduceIte, bind_eq_ok_iff, Store.get_eq_ok_iff, pure,
      Except.pure, Except.ok.injEq]
    constructor
    · rintro ⟨t, found, rfl⟩
      exact .noRows found
    · intro leads
      cases leads with
      | noRows found => exact ⟨_, found, rfl⟩
      | appended _ some _ => exact absurd rfl some
  | cons row rows =>
    simp only [apply, List.isEmpty_cons, Bool.false_eq_true, ↓reduceIte, bind_eq_ok_iff,
      Prod.exists, Store.appendRows_eq_ok_iff, pure, Except.pure, Except.ok.injEq]
    constructor
    · rintro ⟨r, first, last, ⟨t, found, checked, rfl, rfl, rfl⟩, rfl⟩
      exact .appended found (List.cons_ne_nil row rows) checked
    · intro leads
      cases leads with
      | @appended _ t _ found _ checked =>
        exact ⟨_, t.rowCount, _, ⟨t, found, checked, rfl, rfl, rfl⟩, rfl⟩

private theorem define_leads {id : Ident} {name : String} {specs : List ColumnSpec} :
    (define id name specs).apply s = .ok outcome ↔ Leads s (define id name specs) outcome := by
  simp only [apply]
  split
  · next held =>
    rw [Store.contains_eq_isSome_find?, Option.isSome_iff_exists] at held
    obtain ⟨t, found⟩ := held
    constructor
    · rintro ⟨⟩
      exact .present found
    · intro leads
      cases leads with
      | present _ => rfl
      | created absent => exact absurd (absent.symm.trans found) (by simp)
  · next missing =>
    rw [Bool.not_eq_true, Store.contains_eq_false_iff] at missing
    simp only [bind_eq_ok_iff, Store.create_eq_ok_iff, pure, Except.pure, Except.ok.injEq]
    constructor
    · rintro ⟨_, ⟨-, rfl⟩, rfl⟩
      exact .created missing
    · intro leads
      cases leads with
      | present found => exact absurd (missing.symm.trans found) (by simp)
      | created _ => exact ⟨_, ⟨missing, rfl⟩, rfl⟩

/-- On a sound store a change succeeds in one of these ways and in no other. -/
theorem apply_eq_ok_iff (sound : s.Sound) (change : Change) :
    change.apply s = .ok outcome ↔ Leads s change outcome := by
  cases change with
  | set id row column value => exact set_leads sound
  | append id rows => exact append_leads
  | define id name specs => exact define_leads

end Change

end Ripple
