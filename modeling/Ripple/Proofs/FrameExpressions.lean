import Ripple.Proofs.FrameDrafts
import Ripple.Proofs.WholeNumbers

/-!
Expressions on frames. A block that goes through the frames of its working copies finds the same columns,
picks the same rows and computes the same values as one that goes through the tables (`Env.eval_of`), and
every position it takes is there. The numbers of rows have to be exact as doubles for it, which they are
below `2 ^ 53`.
-/

namespace Ripple.Program

/-! ## Columns by name -/

theorem resolveColumn_specs (t : Table) (table : String) (column : Option String) :
    resolveColumn t.specs table column = findColumn t table column := by
  cases column with
  | none => simp [resolveColumn, findColumn, Table.specs]
  | some name =>
    have named : (t.specs.findIdx? fun spec => spec.id = .of name) = t.columnIndex? (.of name) := by
      rw [Table.specs, List.findIdx?_map]
      rfl
    unfold resolveColumn findColumn
    dsimp only
    rw [named]
    cases t.columnIndex? (.of name) with
    | some index => rfl
    | none =>
      cases position? name with
      | none => rfl
      | some n =>
        rw [Option.bind_some, Table.positionIndex?, Table.specs, List.length_map]
        dsimp only
        split <;> rfl

theorem columnValues_eq {t : Table} {column : Nat} {c : Column}
    (declared : t.columns[column]? = some c) : t.columnValues column = c.cells := by
  rw [Table.columnValues, declared]

/-! ## Picking rows -/

section

variable {index : List Value} {rowCount : Nat}

theorem mapM_bool?_eq_some_iff {mask : List Bool} :
    index.mapM Value.bool? = some mask ↔ index = mask.map .bool := by
  induction index generalizing mask with
  | nil => cases mask <;> simp
  | cons v rest ih =>
    cases v <;> cases mask <;> simp [Value.bool?, Option.bind_eq_some_iff, ih, and_comm]

theorem all_bool?_iff :
    index.all (·.bool?.isSome) = true ↔ ∃ mask : List Bool, index = mask.map .bool := by
  induction index with
  | nil => simp
  | cons v rest ih =>
    rw [List.all_cons, Bool.and_eq_true, ih]
    constructor
    · rintro ⟨flag, mask, rfl⟩
      obtain ⟨b, here⟩ := Option.isSome_iff_exists.mp flag
      cases v <;> cases here
      exact ⟨b :: mask, rfl⟩
    · rintro ⟨_ | ⟨b, mask⟩, same⟩
      · cases same
      · cases same
        exact ⟨rfl, mask, rfl⟩

/-- Several truth values are a mask. -/
theorem pickRows_mask {mask : List Bool} (many : mask.length ≠ 1) :
    pickRows (mask.map .bool) rowCount =
      if mask.length = rowCount then .ok (maskRows 0 mask)
      else .error (.maskLength mask.length rowCount) := by
  unfold pickRows
  rw [mapM_bool?_eq_some_iff.mpr rfl]
  split
  · next single =>
    cases single
    exact absurd rfl many
  · next same =>
    cases same
    rfl
  · next none => cases none

theorem maskRows_eq (first : Nat) (mask : List Bool) :
    maskRows first mask =
      (((mask.map Value.bool).zipIdx first).filterMap fun (v, row) =>
        if v = .bool true then some row else none) := by
  induction mask generalizing first with
  | nil => rfl
  | cons b mask ih => cases b <;> simp [maskRows, ih]

/-- The number of rows is a double, so that a number in range is a row. -/
theorem selectRow_eq (small : rowCount < 2 ^ 53) (v : Value) :
    selectRow rowCount v = inRange (rowOf rowCount v) := by
  unfold selectRow rowOf
  cases v with
  | number n =>
    dsimp only
    cases n.toInt? with
    | none => rfl
    | some k =>
      rw [Number.toInt?_ofInt small]
      dsimp only
      by_cases there : 1 ≤ k ∧ k ≤ rowCount
      · have word : k.toNat ≤ UInt64.size - 1 := by
          have bound : (UInt64.size : Nat) = 2 ^ 64 := rfl
          omega
        rw [if_pos there, if_pos there, Nat.min_eq_left word, inRange_ok]
      · rw [if_neg there, if_neg there, inRange_error]
  | text | bool | ref => rfl

/-- An index picks the same rows by position, whatever values it has. -/
theorem select_eq (small : rowCount < 2 ^ 53) :
    select index rowCount = inRange (pickRows index rowCount) := by
  unfold select
  by_cases flags : index.all (·.bool?.isSome) = true
  · rw [if_pos flags]
    obtain ⟨mask, rfl⟩ := all_bool?_iff.mp flags
    rw [List.length_map]
    by_cases single : mask.length = 1
    · obtain ⟨all, rfl⟩ := List.length_eq_one_iff.mp single
      cases all <;> rfl
    · rw [if_neg single, pickRows_mask single]
      by_cases whole : mask.length = rowCount
      · rw [if_neg (not_not.mpr whole), if_pos whole, maskRows_eq, inRange_ok]
      · rw [if_pos whole, if_neg whole, inRange_error]
  · have mixed : index.mapM Value.bool? = none := by
      rw [Option.eq_none_iff_forall_ne_some]
      exact fun mask given => flags (all_bool?_iff.mpr ⟨mask, mapM_bool?_eq_some_iff.mp given⟩)
    unfold pickRows
    rw [if_neg flags, mixed, ← mapM_inRange]
    exact mapM_congr fun v _ => selectRow_eq small v

theorem select_lt (small : rowCount < 2 ^ 53) {rows : List Nat} (selects : select index rowCount = .ok rows) :
    ∀ r ∈ rows, r < rowCount := by
  rw [select_eq small, inRange_eq_ok_iff] at selects
  exact fun r picked => pickRows_lt selects picked

theorem chooseRows_eq (small : rowCount < 2 ^ 53) (selector : Option (List Value)) :
    chooseRows selector rowCount = inRange (selectRows selector rowCount) := by
  cases selector with
  | some selector => exact select_eq small
  | none => rfl

end

/-! ## Operators -/

section

variable {f : Value → Value → Except EvalFault Value} {left right : List Value}

theorem broadcast_single {b : Value} (many : left.length ≠ 1) :
    broadcast f left [b] = left.mapM (f · b) := by
  unfold broadcast
  split
  · exact absurd rfl many
  · next same =>
    cases same
    rfl
  · next several => exact absurd rfl (several b)

theorem broadcast_zip (many : left.length ≠ 1) (more : right.length ≠ 1) :
    broadcast f left right =
      if left.length = right.length then (left.zip right).mapM fun (a, b) => f a b
      else .error (.lengths left.length right.length) := by
  unfold broadcast
  split
  · exact absurd rfl many
  · exact absurd rfl more
  · rfl

/-- One value stands for as many as the other column has, and otherwise each goes with its own. -/
theorem spread_eq : spread f left right = inRange (broadcast f left right) := by
  unfold spread
  by_cases single : left.length = 1
  · rw [if_pos single]
    obtain ⟨a, rfl⟩ := List.length_eq_one_iff.mp single
    exact mapM_inRange (f a) right
  · rw [if_neg single]
    by_cases other : right.length = 1
    · rw [if_pos other]
      obtain ⟨b, rfl⟩ := List.length_eq_one_iff.mp other
      rw [broadcast_single single]
      exact mapM_inRange (f · b) left
    · rw [if_neg other, broadcast_zip single other]
      by_cases same : left.length = right.length
      · rw [if_pos same, if_pos same, ← mapM_inRange]
      · rw [if_neg same, if_neg same, inRange_error]

end

/-! ## Values -/

/-- The state of a block, with frames as the working copies. -/
def Env.of (w : Workspace) : Env :=
  ⟨w.base, fun id => (w.frames.find? id).map .load, w.names, w.changes⟩

/-- The tables that a block finds have columns of one length, and their rows can be counted by doubles. -/
structure Workspace.Bounded (w : Workspace) : Prop where
  regular : ∀ id t, w.find? id = some t → t.Regular
  small : ∀ id t, w.find? id = some t → t.rowCount < 2 ^ 53

theorem Workspace.length_of_read {w : Workspace} {table : String} {column : Option String}
    {values : List Value} (regular : ∀ id t, w.find? id = some t → t.Regular)
    (read : w.read table column = .ok values) :
    ∃ t, w.find? (.of table) = some t ∧ values.length = t.rowCount := by
  obtain ⟨t, found, read⟩ := bind_eq_ok_iff.mp read
  obtain ⟨index, resolved, result⟩ := bind_eq_ok_iff.mp read
  cases result
  obtain ⟨c, declared⟩ := declared_of_findColumn resolved
  have here := table_eq_ok_iff.mp found
  refine ⟨t, here, ?_⟩
  rw [columnValues_eq declared]
  exact (regular _ t here c (List.mem_of_getElem? declared)).length_eq

namespace Env

variable {w : Workspace}

theorem frame_of (w : Workspace) (table : String) : (of w).frame table = (w.table table).map .load := by
  unfold frame Workspace.table Workspace.find? of
  dsimp only
  cases w.frames.find? (.of table) with
  | some t => rfl
  | none => cases w.base.find? (.of table) <;> rfl

/-- A column of a table is there in the frame. -/
theorem read_of (w : Workspace) (table : String) (column : Option String) :
    (of w).read table column = inRange (w.read table column) := by
  unfold read Workspace.read Workspace.table Workspace.find? of
  dsimp only
  cases w.frames.find? (.of table) with
  | some t =>
    rw [Option.map_some, Option.some_or]
    dsimp only
    rw [Frame.columns_load, resolveColumn_specs]
    refine inRange_step fun index resolved => ?_
    obtain ⟨c, declared⟩ := declared_of_findColumn resolved
    rw [FrameDraft.reach_data declared, columnValues_eq declared]
    rfl
  | none =>
    rw [Option.map_none, Option.none_or]
    cases w.base.find? (.of table) with
    | some t =>
      dsimp only
      rw [resolveColumn_specs]
      exact inRange_step fun index _ => rfl
    | none => rfl

theorem eval_of (bounded : w.Bounded) (e : Expr) : (of w).eval e = inRange (e.eval w) := by
  induction e with
  | number | text | bool => rfl
  | name n =>
    unfold eval Expr.eval
    dsimp only [of]
    cases w.names.lookup n <;> rfl
  | column t c => exact read_of w t c
  | pick t c index ih =>
    unfold eval Expr.eval
    rw [read_of]
    refine inRange_step fun values read => ?_
    rw [ih]
    refine inRange_step fun selector _ => ?_
    obtain ⟨u, found, length⟩ := Workspace.length_of_read bounded.regular read
    rw [select_eq (length ▸ bounded.small _ u found)]
    refine inRange_step fun rows picks => ?_
    exact mapM_reach fun row picked => pickRows_lt picks picked
  | unary op operand ih =>
    unfold eval Expr.eval
    rw [ih]
    exact inRange_step fun values _ => mapM_inRange op.apply values
  | binary op left right ihLeft ihRight =>
    unfold eval Expr.eval
    rw [ihLeft]
    refine inRange_step fun left _ => ?_
    rw [ihRight]
    exact inRange_step fun right _ => spread_eq

theorem evalCell_of (bounded : w.Bounded) (e : Expr) :
    (of w).evalCell e = inRange (e.evalCell w) := by
  unfold evalCell Expr.evalCell
  rw [eval_of bounded]
  refine inRange_step fun values _ => ?_
  by_cases single : values.length = 1
  · obtain ⟨value, rfl⟩ := List.length_eq_one_iff.mp single
    rfl
  · rw [if_pos single]
    split
    · exact absurd rfl single
    · rfl

theorem evalRows_of (bounded : w.Bounded) (l : Literal) : (of w).evalRows l = inRange (l.eval w) := by
  unfold evalRows Literal.eval
  rw [← mapM_inRange]
  refine mapM_congr fun row _ => ?_
  rw [← mapM_inRange]
  exact mapM_congr fun e _ => evalCell_of bounded e

theorem evalSource_of (bounded : w.Bounded) (source : Source) :
    (of w).evalSource source = inRange (source.eval w) := by
  cases source with
  | literal l =>
    unfold evalSource Source.eval
    dsimp only
    rw [evalRows_of bounded]
    exact inRange_step fun rows _ => rfl
  | formula e =>
    unfold evalSource Source.eval
    dsimp only
    rw [eval_of bounded]
    exact inRange_step fun values _ => rfl

end Env

end Ripple.Program
