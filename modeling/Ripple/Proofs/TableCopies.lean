import Ripple.Proofs.ProducedColumns

/-!
Working copies one table at a time. A statement that writes a table makes a new one or writes cells of the
one there is, and then adds rows (`Workspace.Drafts`); either way columns stay and no row is dropped. If what
the changes made so far lead to has the table that the block finds, then the same is true after the next
statement, provided that the columns of this table can be told apart or it has no rows (`Drafts.lands`). What
other tables look like does not matter for it (`follows_of_runLines`).
-/

namespace Ripple

variable {s r q : Store} {id : Ident} {changes : List Change}

theorem exists_of_carryOut_append {first second : List Change}
    (done : carryOut s (first ++ second) = .ok q) :
    ∃ r, carryOut s first = .ok r ∧ carryOut r second = .ok q := by
  induction first generalizing s with
  | nil => exact ⟨s, rfl, done⟩
  | cons change rest ih =>
    obtain ⟨outcome, applied, later⟩ := bind_eq_ok_iff.mp done
    obtain ⟨r, carried, others⟩ := ih later
    refine ⟨r, ?_, others⟩
    rw [carryOut, applied]
    exact carried

theorem sound_of_carryOut (sound : s.Sound) (done : carryOut s changes = .ok r) : r.Sound := by
  induction changes generalizing s with
  | nil =>
    cases done
    exact sound
  | cons change rest ih =>
    obtain ⟨outcome, applied, later⟩ := bind_eq_ok_iff.mp done
    exact ih (((Change.apply_eq_ok_iff sound change).mp applied).sound_diff sound).1 later

/-- Changes that name other tables leave a table alone. -/
theorem find?_of_carryOut (sound : s.Sound)
    (named : ∀ change ∈ changes, ∃ r, change.register? = some r ∧ r.table ≠ id)
    (done : carryOut s changes = .ok r) : r.find? id = s.find? id := by
  induction changes generalizing s with
  | nil =>
    cases done
    rfl
  | cons change rest ih =>
    obtain ⟨first, others⟩ := List.forall_mem_cons.mp named
    obtain ⟨outcome, applied, later⟩ := bind_eq_ok_iff.mp done
    have leads := (Change.apply_eq_ok_iff sound change).mp applied
    rw [ih (leads.sound_diff sound).1 others later]
    obtain ⟨register, own, differ⟩ := first
    cases leads with
    | kept | noRows | present => rfl
    | @written key t row index column value old c found =>
      have same : register.table = key := by
        cases column with
        | id => cases own; rfl
        | position | raw => cases own
      exact (Store.find?_put s _ id).trans (if_neg fun here =>
        differ (same.trans ((Store.id_of_find? found).symm.trans here)))
    | appended found =>
      cases own
      exact (Store.find?_put s _ id).trans (if_neg fun here =>
        differ ((Store.id_of_find? found).symm.trans here))
    | created absent =>
      cases own
      exact (Store.find?_put s _ id).trans (if_neg differ)

/-- The columns can be told apart, or there are no cells yet that could be mistaken. -/
def Table.Plain (t : Table) : Prop :=
  (t.specs.map ColumnSpec.id).Nodup ∧ t.columns ≠ [] ∨ t.rowCount = 0

theorem Table.Plain.of_keeps {t u : Table} (plain : u.Plain) (specs : u.specs = t.specs)
    (rows : t.rowCount ≤ u.rowCount) : t.Plain := by
  rcases plain with ⟨distinct, columns⟩ | none
  · exact .inl ⟨specs ▸ distinct, (columns_ne_nil_iff_of_specs specs).mp columns⟩
  · exact .inr (Nat.eq_zero_of_le_zero (none ▸ rows))

namespace Program

/-! ## How tables are drafted -/

namespace Workspace

/-- A statement drafts a table by writing cells that are there, unless the table is new, and then adding
rows that fit. -/
inductive Drafts (w : Workspace) (table : String) : Draft → Prop
  | created {specs : List ColumnSpec} {rows : List Row} (absent : w.find? (.of table) = none)
      (fit : ∀ row ∈ rows, (newDraft table specs).table.checkRow row = .ok ()) :
      Drafts w table ((newDraft table specs).append rows)
  | written {t : Table} {e : Draft} {rows : List Row} (found : w.find? (.of table) = some t)
      (sets : (Draft.ofTable t).Sets e) (fit : ∀ row ∈ rows, t.checkRow row = .ok ()) :
      Drafts w table (e.append rows)

variable {w after : Workspace} {table : String} {d : Draft}

theorem drafts_defineTable {names : List String} {rows : List Row}
    (defined : w.defineTable table names rows = .ok d) : w.Drafts table d := by
  unfold defineTable at defined
  split at defined
  · next absent =>
    obtain ⟨fit, rfl⟩ := createTable_cases defined
    exact .created absent fit
  · next t found =>
    obtain ⟨arranged, -, fit, -, sets, rfl⟩ := overwriteTable_cases defined
    exact .written found sets fun row member => fit row (List.mem_of_mem_drop member)

theorem drafts_setColumn {name : String} {index : Option Expr} {op : SetOp} {value : Expr}
    (set : w.setColumn table name index op value = .ok d) : w.Drafts table d := by
  obtain ⟨t, found, sets⟩ := setColumn_cases set
  have drafts : w.Drafts table (d.append []) := .written found sets (by simp)
  exact drafts

theorem drafts_appendRows {l : Literal} (appended : w.appendRows table l = .ok d) : w.Drafts table d := by
  obtain ⟨_, t, arranged, -, found, -, fit, rfl⟩ := appendRows_cases appended
  exact .written found .refl fit

/-- A statement drafts the table that it produces, and leaves all tables as they are if there is none. -/
theorem cases_of_run {s : Statement} (ran : s.run w = .ok after) :
    (∃ table d, w.Drafts table d ∧ after = w.adopt d ∧
        ∃ r, s.produceRegister? = some r ∧ r.table = .of table) ∨
      after.changes = w.changes ∧ ∀ id, after.find? id = w.find? id := by
  obtain ⟨action, acts, result⟩ := bind_eq_ok_iff.mp ran
  cases result
  cases s with
  | watch =>
    cases acts
    exact .inr ⟨rfl, fun _ => rfl⟩
  | define table source =>
    obtain ⟨⟨names, rows⟩, -, acts⟩ := bind_eq_ok_iff.mp acts
    obtain ⟨d, defined, acts⟩ := bind_eq_ok_iff.mp acts
    cases acts
    exact .inl ⟨table, d, drafts_defineTable defined, rfl, _, rfl, rfl⟩
  | set table column index op value =>
    obtain ⟨d, set, acts⟩ := bind_eq_ok_iff.mp acts
    cases acts
    exact .inl ⟨table, d, drafts_setColumn set, rfl, _, rfl, rfl⟩
  | append table rows =>
    obtain ⟨d, appended, acts⟩ := bind_eq_ok_iff.mp acts
    cases acts
    exact .inl ⟨table, d, drafts_appendRows appended, rfl, _, rfl, rfl⟩
  | assign name value =>
    obtain ⟨values, -, acts⟩ := bind_eq_ok_iff.mp acts
    cases acts
    exact .inr ⟨rfl, fun _ => rfl⟩

end Workspace

namespace Draft

variable {d : Draft}

theorem append_of_rowCount_eq_zero {rows : List Row} (none : (d.append rows).table.rowCount = 0) :
    rows = [] ∧ d.table.rowCount = 0 := by
  rw [table_append, Table.extend, Nat.add_eq_zero_iff, List.length_eq_zero_iff] at none
  exact none.symm

theorem Sets.eq_of_rowCount_eq_zero {e : Draft} (sets : d.Sets e) (none : d.table.rowCount = 0) :
    e = d := by
  induction sets with
  | refl => rfl
  | cell before checked =>
    have inside := (Table.checkWrite_eq_ok_iff.mp checked).2
    rw [before.rowCount_eq, none] at inside
    cases inside

end Draft

namespace Workspace.Drafts

variable {w : Workspace} {table : String} {d : Draft} {t : Table} {r q : Store}

theorem id_eq (drafts : w.Drafts table d) : d.table.id = .of table := by
  cases drafts with
  | created => rw [Draft.table_append, Table.id_extend]; rfl
  | written found sets =>
    rw [Draft.table_append, Table.id_extend, sets.id_eq]
    exact id_of_find? found

/-- The columns of a table stay, and so do its rows. -/
theorem keeps (drafts : w.Drafts table d) (found : w.find? (.of table) = some t) :
    d.table.specs = t.specs ∧ t.rowCount ≤ d.table.rowCount := by
  cases drafts with
  | created absent => cases absent.symm.trans found
  | written here sets =>
    obtain rfl := Option.some.inj (here.symm.trans found)
    rw [Draft.table_append, Table.specs_extend, sets.specs_eq]
    exact ⟨rfl, sets.rowCount_eq ▸ Nat.le_add_right ..⟩

theorem regular (drafts : w.Drafts table d)
    (before : ∀ t, w.find? (.of table) = some t → t.Regular) : d.table.Regular := by
  cases drafts with
  | created absent fit =>
    rw [Draft.table_append]
    exact Table.regular_extend (Table.regular_empty _ _ _) fit
  | written found sets fit =>
    rw [Draft.table_append]
    refine Table.regular_extend (sets.regular (before _ found)) fun row member => ?_
    rw [Table.checkRow_congr sets.specs_eq]
    exact fit row member

/-- All changes are about the table. -/
theorem names (drafts : w.Drafts table d) : d.Names (fun r => r.table = .of table) := by
  cases drafts with
  | @created specs rows =>
    have new : (newDraft table specs).Names (fun r => r.table = .of table) := names_newDraft rfl
    exact new.append rfl rows
  | @written t e rows found sets =>
    have own : t.id = .of table := id_of_find? found
    refine ((Draft.names_ofTable t).sets (fun _ => own) sets).append ?_ _
    rw [sets.id_eq]
    exact own

/-- From every store that has the table as the block finds it, the changes lead to the draft. -/
theorem lands (drafts : w.Drafts table d) (sound : r.Sound)
    (seen : w.find? (.of table) = r.find? (.of table)) (plain : d.table.Plain)
    (done : carryOut r d.changes = .ok q) : q.find? (.of table) = some d.table := by
  have reached (done' : d.From r) : q.find? (.of table) = some d.table := by
    obtain rfl := Except.ok.inj (done'.effective.carryOut.symm.trans done)
    exact Store.find?_put_self drafts.id_eq
  cases drafts with
  | @created specs rows absent fit =>
    rw [seen] at absent
    rcases plain with ⟨distinct, columns⟩ | none
    · have specsOf : ((newDraft table specs).append rows).table.specs = specs := by
        rw [Draft.table_append, Table.specs_extend, newDraft, Table.specs_empty]
      rw [specsOf] at distinct
      rw [Table.columns_ne_nil_iff_of_specs (specsOf.trans (Table.specs_empty (.of table) table specs).symm)]
        at columns
      exact reached (.append sound (.create sound absent distinct) (fun _ => columns) fit)
    · obtain ⟨rfl, -⟩ := Draft.append_of_rowCount_eq_zero none
      obtain ⟨outcome, applied, rest⟩ := bind_eq_ok_iff.mp done
      cases rest
      cases (Change.apply_eq_ok_iff sound _).mp applied with
      | present found => cases absent.symm.trans found
      | created => exact Store.find?_put_self rfl
  | @written t e rows found sets fit =>
    have here := seen ▸ found
    rcases plain with ⟨distinct, columns⟩ | none
    · have specsOf : (e.append rows).table.specs = t.specs := by
        rw [Draft.table_append, Table.specs_extend, sets.specs_eq]
        rfl
      have tidy : t.Tidy := ⟨sound.regular_of_find? here, specsOf ▸ distinct⟩
      rw [Table.columns_ne_nil_iff_of_specs (specsOf.trans sets.specs_eq.symm)] at columns
      have own : r.find? t.id = some t := Store.id_of_find? here ▸ here
      refine reached (.append sound ((Draft.From.ofTable sound.ascending own tidy).sets sound sets)
        (fun _ => columns) fun row member => ?_)
      rw [Table.checkRow_congr sets.specs_eq]
      exact fit row member
    · obtain ⟨rfl, empty⟩ := Draft.append_of_rowCount_eq_zero none
      obtain rfl := sets.eq_of_rowCount_eq_zero (sets.rowCount_eq ▸ empty)
      cases done
      exact here

end Workspace.Drafts

/-! ## Runs of statements -/

namespace Workspace

variable {w after : Workspace} {lines : List Line} {id : Ident} {t : Table}

theorem keeps_of_run {s : Statement} (ran : s.run w = .ok after) (found : w.find? id = some t) :
    ∃ u, after.find? id = some u ∧ u.specs = t.specs ∧ t.rowCount ≤ u.rowCount := by
  rcases cases_of_run ran with ⟨table, d, drafts, rfl, -⟩ | ⟨-, same⟩
  · rw [find?_adopt]
    split
    · next here =>
      have own := drafts.id_eq.symm.trans here
      exact ⟨d.table, rfl, drafts.keeps (own ▸ found)⟩
    · exact ⟨t, found, rfl, Nat.le_refl _⟩
  · exact ⟨t, (same id).trans found, rfl, Nat.le_refl _⟩

/-- Tables keep their columns and their rows in a block. -/
theorem keeps_of_runLines (ran : runLines w lines = .ok after) (found : w.find? id = some t) :
    ∃ u, after.find? id = some u ∧ u.specs = t.specs ∧ t.rowCount ≤ u.rowCount := by
  induction lines generalizing w t with
  | nil =>
    cases ran
    exact ⟨t, found, rfl, Nat.le_refl _⟩
  | cons line rest ih =>
    obtain ⟨middle, first, ran⟩ := runLines_cons_eq_ok_iff.mp ran
    obtain ⟨u, there, specs, rows⟩ := keeps_of_run first found
    obtain ⟨v, last, specs', rows'⟩ := ih ran there
    exact ⟨v, last, specs'.trans specs, Nat.le_trans rows rows'⟩

theorem regular_of_runLines (ran : runLines w lines = .ok after)
    (before : ∀ id t, w.find? id = some t → t.Regular) :
    ∀ id t, after.find? id = some t → t.Regular := by
  induction lines generalizing w with
  | nil =>
    cases ran
    exact before
  | cons line rest ih =>
    obtain ⟨middle, first, ran⟩ := runLines_cons_eq_ok_iff.mp ran
    refine ih ran fun id t found => ?_
    rcases cases_of_run first with ⟨table, d, drafts, rfl, -⟩ | ⟨-, same⟩
    · rw [find?_adopt] at found
      split at found
      · cases found
        exact drafts.regular (before _)
      · exact before id t found
    · exact before id t (same id ▸ found)

/-- Statements that produce other tables leave a table alone. -/
theorem find?_of_runLines (ran : runLines w lines = .ok after)
    (others : ∀ line ∈ lines, ∀ r, line.statement.produceRegister? = some r → r.table ≠ id) :
    after.find? id = w.find? id := by
  induction lines generalizing w with
  | nil =>
    cases ran
    rfl
  | cons line rest ih =>
    obtain ⟨here, later⟩ := List.forall_mem_cons.mp others
    obtain ⟨middle, first, ran⟩ := runLines_cons_eq_ok_iff.mp ran
    rw [ih ran later]
    rcases cases_of_run first with ⟨table, d, drafts, rfl, r, own, same⟩ | ⟨-, same⟩
    · rw [find?_adopt, if_neg]
      exact fun equal => here r own (same.trans (drafts.id_eq.symm.trans equal))
    · exact same id

/-- From a store that has a table as the block finds it, the changes of one more statement lead to one
that has it as the block finds it then. -/
theorem follows_of_run {s : Statement} (ran : s.run w = .ok after)
    (plain : ∀ u, after.find? id = some u → u.Plain) :
    ∃ new, after.changes = w.changes ++ new ∧ ∀ r q : Store, r.Sound →
      w.find? id = r.find? id → carryOut r new = .ok q → after.find? id = q.find? id := by
  rcases cases_of_run ran with ⟨table, d, drafts, rfl, -⟩ | ⟨same, finds⟩
  · refine ⟨d.changes, rfl, fun r q sound seen done => ?_⟩
    rw [find?_adopt] at plain ⊢
    split
    · next here =>
      obtain rfl := drafts.id_eq.symm.trans here
      rw [if_pos here] at plain
      exact (drafts.lands sound seen (plain _ rfl) done).symm
    · next other =>
      rw [seen, find?_of_carryOut sound _ done]
      intro change member
      obtain ⟨register, own, here⟩ := drafts.names change member
      exact ⟨register, own, fun same => other (drafts.id_eq.trans (here.symm.trans same))⟩
  · refine ⟨[], by rw [same, List.append_nil], fun r q sound seen done => ?_⟩
    cases done
    exact (finds id).trans seen

theorem follows_of_runLines (ran : runLines w lines = .ok after)
    (plain : ∀ u, after.find? id = some u → u.Plain) :
    ∃ new, after.changes = w.changes ++ new ∧ ∀ r q : Store, r.Sound →
      w.find? id = r.find? id → carryOut r new = .ok q → after.find? id = q.find? id := by
  induction lines generalizing w with
  | nil =>
    cases ran
    refine ⟨[], (List.append_nil _).symm, fun r q sound seen done => ?_⟩
    cases done
    exact seen
  | cons line rest ih =>
    obtain ⟨middle, first, ran⟩ := runLines_cons_eq_ok_iff.mp ran
    have plainHere : ∀ u, middle.find? id = some u → u.Plain := by
      intro u found
      obtain ⟨v, last, specs, rows⟩ := keeps_of_runLines ran found
      exact (plain v last).of_keeps specs rows
    obtain ⟨new, adds, step⟩ := follows_of_run first plainHere
    obtain ⟨later, addsMore, steps⟩ := ih ran
    refine ⟨new ++ later, by rw [addsMore, adds, List.append_assoc], ?_⟩
    intro r q sound seen done
    obtain ⟨between, carried, others⟩ := exists_of_carryOut_append done
    exact steps between q (sound_of_carryOut sound carried) (step r between sound seen carried)
      others

end Workspace

end Program

end Ripple
