import Ripple.Propagation
import Ripple.Proofs.ChangeCases

/-!
What changes touch. `Change.Touches` says on its own terms which registers a change touches on a
store: a cell that gets a different value, a table that gets rows, or a table that is created. A
transaction lists exactly these, for one change (`touched_iff`) and for changes carried out one after
the other (`applyAll_carried`, `submit_carried`). No cell changes but those of the columns and tables
listed (`touched_of_cell_ne`).
-/

namespace Ripple

/-- A change on a store touches a register if it does something to it. -/
inductive Change.Touches (s : Store) : Change → Register → Prop
  /-- The cell held a different value. -/
  | set {id : Ident} {t : Table} {row index : Nat} {name : ColumnRef} {value old : Value} {c : Column}
      (found : s.find? id = some t) (resolved : t.resolve? name = some index)
      (declared : t.columns[index]? = some c) (held : t.cell? row index = some old)
      (differ : old ≠ value) : Touches s (.set id row name value) ⟨id, some c.spec.id⟩
  /-- There are rows to add. -/
  | append {id : Ident} {rows : List Row} (some : rows ≠ []) : Touches s (.append id rows) (.any id)
  /-- There is no such table yet. -/
  | define {id : Ident} {name : String} {specs : List ColumnSpec} (absent : s.find? id = none) :
      Touches s (.define id name specs) (.any id)

/-- Carries out changes one after the other. -/
def carryOut (s : Store) : List Change → Except Refusal Store
  | [] => .ok s
  | change :: rest => do
    let outcome ← change.apply s
    carryOut outcome.store rest

/-- One of the changes touches the register when its turn comes. -/
inductive TouchedBy : Store → List Change → Register → Prop
  | here {s : Store} {change : Change} {rest : List Change} {r : Register}
      (touches : change.Touches s r) : TouchedBy s (change :: rest) r
  | later {s : Store} {change : Change} {rest : List Change} {outcome : Outcome} {r : Register}
      (applied : change.apply s = .ok outcome) (touched : TouchedBy outcome.store rest r) :
      TouchedBy s (change :: rest) r

variable {s : Store} {change : Change} {outcome : Outcome} {r : Register}

theorem carryOut_append {q : Store} {first second : List Change}
    (before : carryOut s first = .ok q) : carryOut s (first ++ second) = carryOut q second := by
  induction first generalizing s with
  | nil =>
    cases before
    rfl
  | cons change rest ih =>
    obtain ⟨outcome, applied, carried⟩ := bind_eq_ok_iff.mp before
    rw [List.cons_append, carryOut, applied]
    exact ih carried

/-- On a known column it is the cell that decides. -/
private theorem touches_set_iff {id : Ident} {t : Table} {row index : Nat} {name : ColumnRef}
    {value : Value} {c : Column} (found : s.find? id = some t)
    (resolved : t.resolve? name = some index) (declared : t.columns[index]? = some c) :
    (Change.set id row name value).Touches s r ↔
      ∃ old, t.cell? row index = some old ∧ old ≠ value ∧ r = ⟨id, some c.spec.id⟩ := by
  constructor
  · rintro (⟨again, same, there, held, differ⟩)
    obtain rfl := Option.some.inj (found.symm.trans again)
    obtain rfl := Option.some.inj (resolved.symm.trans same)
    obtain rfl := Option.some.inj (declared.symm.trans there)
    exact ⟨_, held, differ, rfl⟩
  · rintro ⟨old, held, differ, rfl⟩
    exact .set found resolved declared held differ

/-- A successful write finds its column, and then writes a different value or nothing. -/
theorem Change.set_cases {id : Ident} {row : Nat} {name : ColumnRef} {value : Value}
    (applied : (Change.set id row name value).apply s = .ok outcome) :
    ∃ t index c, s.find? id = some t ∧ t.resolve? name = some index ∧
      t.columns[index]? = some c ∧
      ((∀ old, t.cell? row index = some old → old = value) ∧ outcome = ⟨s.put t, [], []⟩ ∨
        ∃ old, t.cell? row index = some old ∧ old ≠ value ∧
          outcome.store = s.put (t.put row index value) ∧
          outcome.touched = [⟨id, some c.spec.id⟩]) := by
  obtain ⟨t, index, found, resolved, checked, rfl⟩ := Change.set_eq_ok_iff.mp applied
  obtain rfl : t.id = id := Store.id_of_find? found
  obtain ⟨c, declared, -⟩ :=
    Table.checkKind_eq_ok_iff.mp (Table.checkWrite_eq_ok_iff.mp checked).1
  refine ⟨t, index, c, found, resolved, declared, ?_⟩
  cases held : t.cell? row index with
  | none =>
    refine .inl ⟨?_, ?_⟩
    · rintro old ⟨⟩
    · simp [Store.written, held, Table.put_of_cell_none held]
  | some old =>
    by_cases same : old = value
    · refine .inl ⟨fun before here => Option.some.inj here ▸ same, ?_⟩
      exact Store.written_of_held (same ▸ held)
    · rw [Store.written_of_ne held same declared]
      exact .inr ⟨old, rfl, same, rfl, rfl⟩

private theorem touched_set {id : Ident} {row : Nat} {name : ColumnRef} {value : Value}
    (applied : (Change.set id row name value).apply s = .ok outcome) :
    r ∈ outcome.touched ↔ (Change.set id row name value).Touches s r := by
  obtain ⟨t, index, c, found, resolved, declared, ⟨same, rfl⟩ | ⟨old, held, differ, -, touched⟩⟩ :=
    Change.set_cases applied
  · rw [touches_set_iff found resolved declared]
    refine iff_of_false List.not_mem_nil ?_
    rintro ⟨old, held, differ, -⟩
    exact differ (same old held)
  · rw [touches_set_iff found resolved declared, touched, List.mem_singleton]
    constructor
    · intro own
      exact ⟨old, held, differ, own⟩
    · rintro ⟨-, -, -, own⟩
      exact own

private theorem touched_append {id : Ident} {rows : List Row}
    (applied : (Change.append id rows).apply s = .ok outcome) :
    r ∈ outcome.touched ↔ (Change.append id rows).Touches s r := by
  have only : (Change.append id rows).Touches s r ↔ rows ≠ [] ∧ r = .any id := by
    constructor
    · rintro (_ | some)
      exact ⟨some, rfl⟩
    · rintro ⟨some, rfl⟩
      exact .append some
  rw [only]
  cases rows with
  | nil =>
    obtain ⟨t, -, result⟩ := bind_eq_ok_iff.mp applied
    cases result
    simp
  | cons row rows =>
    obtain ⟨⟨q, first, last⟩, -, result⟩ := bind_eq_ok_iff.mp applied
    cases result
    simp

private theorem touched_define {id : Ident} {name : String} {specs : List ColumnSpec}
    (applied : (Change.define id name specs).apply s = .ok outcome) :
    r ∈ outcome.touched ↔ (Change.define id name specs).Touches s r := by
  have only : (Change.define id name specs).Touches s r ↔ s.find? id = none ∧ r = .any id := by
    constructor
    · rintro (_ | _ | absent)
      exact ⟨absent, rfl⟩
    · rintro ⟨absent, rfl⟩
      exact .define absent
  rw [only, ← Store.contains_eq_false_iff]
  simp only [Change.apply] at applied
  split at applied
  · next present =>
    cases applied
    simp [present]
  · next absent =>
    obtain ⟨q, -, result⟩ := bind_eq_ok_iff.mp applied
    cases result
    simp [Bool.eq_false_iff.mpr absent]

/-- A change that succeeds lists the registers that it touches and no others. -/
theorem Change.touched_iff (applied : change.apply s = .ok outcome) :
    r ∈ outcome.touched ↔ change.Touches s r := by
  cases change with
  | set id row name value => exact touched_set applied
  | append id rows => exact touched_append applied
  | define id name specs => exact touched_define applied

theorem touchedBy_nil : ¬ TouchedBy s [] r := by
  rintro ⟨⟩

theorem touchedBy_cons_iff {rest : List Change} (applied : change.apply s = .ok outcome) :
    TouchedBy s (change :: rest) r ↔ r ∈ outcome.touched ∨ TouchedBy outcome.store rest r := by
  rw [Change.touched_iff applied]
  constructor
  · rintro (touches | ⟨again, touched⟩)
    · exact .inl touches
    · cases applied.symm.trans again
      exact .inr touched
  · rintro (touches | touched)
    · exact .here touches
    · exact .later applied touched

/-! ## The register that a change names -/

/-- The register of a change by itself, unless the column is given by position. -/
def Change.register? : Change → Option Register
  | .set id _ (.id key) _ => some ⟨id, some key⟩
  | .set .. => none
  | .append id _ | .define id .. => some (.any id)

theorem Table.spec_id_of_columnIndex? {t : Table} {key : Ident} {index : Nat} {c : Column}
    (found : t.columnIndex? key = some index) (declared : t.columns[index]? = some c) :
    c.spec.id = key := by
  obtain ⟨below, own, -⟩ := List.findIdx?_eq_some_iff_getElem.mp found
  obtain ⟨-, rfl⟩ := List.getElem?_eq_some_iff.mp declared
  exact of_decide_eq_true own

/-- Where a change names a register, it touches no other one. -/
theorem Change.Touches.register {q : Register} (touches : change.Touches s r)
    (named : change.register? = some q) : r = q := by
  cases touches with
  | @set id t row index name value old c found resolved declared held differ =>
    cases name with
    | id key =>
      cases named
      rw [Table.spec_id_of_columnIndex? resolved declared]
    | position => cases named
    | raw => cases named
  | append => exact Option.some.inj named
  | define => exact Option.some.inj named

/-- What changes touch is named by one of them, if all name a register. -/
theorem TouchedBy.register {changes : List Change} (touched : TouchedBy s changes r)
    (named : ∀ change ∈ changes, ∃ q, change.register? = some q) :
    ∃ change ∈ changes, change.register? = some r := by
  induction touched with
  | @here s change rest r touches =>
    obtain ⟨q, own⟩ := named change List.mem_cons_self
    exact ⟨change, List.mem_cons_self, touches.register own ▸ own⟩
  | later applied touched ih =>
    obtain ⟨change, member, own⟩ := ih fun change inside => named change (List.mem_cons_of_mem _ inside)
    exact ⟨change, List.mem_cons_of_mem _ member, own⟩

/-! ## What a changed cell touches -/

/-- The cell of a table. -/
def Store.cell? (s : Store) (id : Ident) (row column : Nat) : Option Value :=
  (s.find? id).bind (·.cell? row column)

variable {t : Table} {id : Ident} {row index : Nat}

theorem Table.cell_put_other {column : Nat} {value : Value} (elsewhere : column ≠ index)
    (r : Nat) : (t.put r column value).cell? row index = t.cell? row index := by
  simp only [cell?, columns_put, if_neg elsewhere]
  cases t.columns[index]? <;> rfl

theorem Store.cell_put_other {u : Table} (elsewhere : u.id ≠ id) :
    (s.put u).cell? id row index = s.cell? id row index := by
  rw [cell?, cell?, find?_put, if_neg elsewhere]

theorem Store.cell_put_self {u : Table} (own : u.id = id) :
    (s.put u).cell? id row index = u.cell? row index := by
  rw [cell?, find?_put_self own]
  rfl

theorem Store.cell_of_find? (found : s.find? id = some t) :
    s.cell? id row index = t.cell? row index := by
  rw [cell?, found]
  rfl

/-- A table that is put alters its own cells only. -/
theorem Store.id_of_put_ne {u : Table}
    (changed : (s.put u).cell? id row index ≠ s.cell? id row index) : u.id = id :=
  Decidable.byContradiction fun elsewhere => changed (cell_put_other elsewhere)

private theorem touched_of_set {id' : Ident} {row' : Nat} {name : ColumnRef} {value : Value}
    {outcome : Outcome} (applied : (Change.set id' row' name value).apply s = .ok outcome)
    (changed : outcome.store.cell? id row index ≠ s.cell? id row index) :
    id' = id ∧ ∃ t c, s.find? id = some t ∧ t.columns[index]? = some c ∧
      outcome.touched = [⟨id, some c.spec.id⟩] := by
  obtain ⟨t, column, c, found, -, declared, ⟨-, rfl⟩ | ⟨old, -, -, after, touched⟩⟩ :=
    Change.set_cases applied
  · obtain rfl : t.id = id' := Store.id_of_find? found
    obtain rfl : t.id = id := Store.id_of_put_ne changed
    rw [Store.cell_put_self rfl, Store.cell_of_find? found] at changed
    exact absurd rfl changed
  · obtain rfl : t.id = id' := Store.id_of_find? found
    rw [after] at changed
    obtain rfl : t.id = id := Table.id_put.symm.trans (Store.id_of_put_ne changed)
    rw [Store.cell_put_self Table.id_put, Store.cell_of_find? found] at changed
    by_cases same : column = index
    · exact ⟨rfl, t, c, found, same ▸ declared, touched⟩
    · exact absurd (Table.cell_put_other same row') changed

private theorem touched_of_append {id' : Ident} {rows : List Row} {outcome : Outcome}
    (applied : (Change.append id' rows).apply s = .ok outcome)
    (changed : outcome.store.cell? id row index ≠ s.cell? id row index) :
    id' = id ∧ outcome.touched = [.any id'] := by
  cases rows with
  | nil =>
    obtain ⟨t, -, result⟩ := bind_eq_ok_iff.mp applied
    cases result
    exact absurd rfl changed
  | cons values rows =>
    obtain ⟨⟨q, first, last⟩, appended, result⟩ := bind_eq_ok_iff.mp applied
    obtain ⟨t, found, -, rfl, -⟩ := Store.appendRows_eq_ok_iff.mp appended
    cases result
    obtain rfl : t.id = id' := Store.id_of_find? found
    have own : (t.extend (values :: rows)).id = id := Store.id_of_put_ne changed
    exact ⟨(Table.id_extend ..).symm.trans own, rfl⟩

/-- A new table has no cells yet. -/
private theorem cell_of_define {id' : Ident} {name : String} {specs : List ColumnSpec}
    {outcome : Outcome} (applied : (Change.define id' name specs).apply s = .ok outcome) :
    outcome.store.cell? id row index = s.cell? id row index := by
  simp only [Change.apply] at applied
  split at applied
  · cases applied
    rfl
  · obtain ⟨q, created, result⟩ := bind_eq_ok_iff.mp applied
    obtain ⟨absent, rfl⟩ := Store.create_eq_ok_iff.mp created
    cases result
    by_cases here : id' = id
    · subst here
      have before : s.cell? id' row index = none := by simp [Store.cell?, absent]
      have after : (Table.empty id' name specs).cell? row index = none := by
        simp [Table.cell?, Table.empty]
      exact (Store.cell_put_self rfl).trans (after.trans before.symm)
    · exact Store.cell_put_other here

/-- A change of a cell is a write to its column or an append to its table. -/
theorem Change.touched_of_cell_ne {change : Change} {outcome : Outcome}
    (applied : change.apply s = .ok outcome)
    (changed : outcome.store.cell? id row index ≠ s.cell? id row index) :
    (∃ row name value, change = .set id row name value) ∧
      (∃ t c, s.find? id = some t ∧ t.columns[index]? = some c ∧
        outcome.touched = [⟨id, some c.spec.id⟩]) ∨
    (∃ rows, change = .append id rows) ∧ outcome.touched = [.any id] := by
  cases change with
  | set id' row' name value =>
    obtain ⟨rfl, written⟩ := touched_of_set applied changed
    exact .inl ⟨⟨row', name, value, rfl⟩, written⟩
  | append id' rows =>
    obtain ⟨rfl, touched⟩ := touched_of_append applied changed
    exact .inr ⟨⟨rows, rfl⟩, touched⟩
  | define id' name specs => exact absurd (cell_of_define applied) changed

/-! ## Changes of a transaction -/

/-- From a run to the run after some changes, with the registers listed before and after. -/
structure Carried (run : Run) (listed : List Register) (changes : List Change)
    (after : Run × List Register) : Prop where
  store : carryOut run.store changes = .ok after.1.store
  touched : ∀ r, r ∈ after.2 ↔ r ∈ listed ∨ TouchedBy run.store changes r
  rounds : after.1.rounds = run.rounds
  fired : after.1.fired = run.fired

theorem Carried.nil (run : Run) (listed : List Register) : Carried run listed [] (run, listed) where
  store := rfl
  touched r := by simp [touchedBy_nil]
  rounds := rfl
  fired := rfl

theorem Carried.cons {run : Run} {listed : List Register} {rest : List Change}
    {after : Run × List Register} (applied : change.apply run.store = .ok outcome)
    (carried : Carried (run.adopt outcome) (listed ++ outcome.touched) rest after) :
    Carried run listed (change :: rest) after where
  store := by
    rw [carryOut, applied]
    exact carried.store
  touched r := by
    rw [carried.touched, touchedBy_cons_iff applied, List.mem_append, or_assoc]
    rfl
  rounds := carried.rounds
  fired := carried.fired

theorem applyAll_carried {block : String} {run : Run} {listed : List Register}
    {changes : List Change} {after : Run × List Register}
    (done : run.applyAll block listed changes = .ok after) : Carried run listed changes after := by
  induction changes generalizing run listed with
  | nil =>
    cases done
    exact .nil run listed
  | cons change rest ih =>
    unfold Run.applyAll at done
    split at done
    · cases done
    · next outcome applied => exact .cons applied (ih done)

/-- What can be carried out at all, a block can carry out. -/
theorem applyAll_of_carryOut (block : String) (listed : List Register) {run : Run}
    {changes : List Change} {q : Store} (done : carryOut run.store changes = .ok q) :
    ∃ after, run.applyAll block listed changes = .ok after := by
  induction changes generalizing run listed with
  | nil => exact ⟨_, rfl⟩
  | cons change rest ih =>
    obtain ⟨outcome, applied, carried⟩ := bind_eq_ok_iff.mp done
    have adopted : carryOut (run.adopt outcome).store rest = .ok q := carried
    rw [Run.applyAll, applied]
    exact ih _ adopted

theorem submit_carried {run : Run} {listed : List Register} {index : Nat} {changes : List Change}
    {after : Run × List Register}
    (done : Propagator.submit run listed index changes = .ok after) :
    Carried run listed changes after := by
  induction changes generalizing run listed index with
  | nil =>
    cases done
    exact .nil run listed
  | cons change rest ih =>
    unfold Propagator.submit at done
    split at done
    · cases done
    · next outcome applied => exact .cons applied (ih done)

end Ripple
