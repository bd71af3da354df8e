import Ripple.Proofs.CompiledBlocks
import Ripple.Proofs.Sequencing

/-!
Names in blocks. `Statement.Uses` says where in a statement a name is used, and `StrayUse` that a line uses
a name to which no earlier line of its block gave a value. A block compiles if and only if it has no stray
use, and is refused on the line of the first one; that check is all it takes, for in a block that compiles
no statement ever looks for a name without a value (`names_given_before_use`).
-/

namespace Ripple.Program

/-! ## Uses of names -/

/-- An expression uses a name somewhere, be it in an index. -/
inductive Expr.Uses : Expr → String → Prop where
  | name {n : String} : Uses (.name n) n
  | index {n t : String} {c : Option String} {index : Expr} (inner : Uses index n) :
      Uses (.pick t c index) n
  | operand {n : String} {op : UnaryOp} {e : Expr} (inner : Uses e n) : Uses (.unary op e) n
  | left {n : String} {op : BinaryOp} {a b : Expr} (inner : Uses a n) : Uses (.binary op a b) n
  | right {n : String} {op : BinaryOp} {a b : Expr} (inner : Uses b n) : Uses (.binary op a b) n

/-- A statement uses a name: in a cell of a literal, in a formula, in the value or the index of what it
sets, or in the value that it gives another name, or the same one, to. -/
inductive Statement.Uses : Statement → String → Prop where
  | cell {table n : String} {l : Literal} {row : List Expr} {e : Expr} (inRows : row ∈ l.rows)
      (inRow : e ∈ row) (inner : e.Uses n) : Uses (.define table (.literal l)) n
  | formula {table n : String} {e : Expr} (inner : e.Uses n) : Uses (.define table (.formula e)) n
  | value {table column n : String} {index : Option Expr} {op : SetOp} {e : Expr} (inner : e.Uses n) :
      Uses (.set table column index op e) n
  | picked {table column n : String} {op : SetOp} {index e : Expr} (inner : index.Uses n) :
      Uses (.set table column (some index) op e) n
  | added {table n : String} {l : Literal} {row : List Expr} {e : Expr} (inRows : row ∈ l.rows)
      (inRow : e ∈ row) (inner : e.Uses n) : Uses (.append table l) n
  | given {other n : String} {e : Expr} (inner : e.Uses n) : Uses (.assign other e) n

variable {n : String}

theorem Expr.mem_names_iff {e : Expr} : n ∈ e.names ↔ e.Uses n := by
  induction e with
  | number | text | bool | column =>
    simp only [names, List.not_mem_nil, false_iff]
    rintro ⟨⟩
  | name m =>
    rw [names, List.mem_singleton]
    constructor
    · rintro rfl
      exact .name
    · rintro ⟨⟩
      rfl
  | pick t c index ih =>
    rw [names, ih]
    exact ⟨.index, fun | .index inner => inner⟩
  | unary op e ih =>
    rw [names, ih]
    exact ⟨.operand, fun | .operand inner => inner⟩
  | binary op a b left right =>
    rw [names, List.mem_append, left, right]
    constructor
    · rintro (inner | inner)
      · exact .left inner
      · exact .right inner
    · rintro (_ | _ | _ | inner | inner)
      · exact .inl inner
      · exact .inr inner

/-- A statement uses what the expressions use that are looked at when it is compiled. -/
theorem Statement.uses_iff {s : Statement} : s.Uses n ↔ ∃ e ∈ s.exprs, n ∈ e.names := by
  simp only [Expr.mem_names_iff]
  constructor
  · intro uses
    cases uses with
    | cell inRows inRow inner => exact ⟨_, List.mem_flatten.mpr ⟨_, inRows, inRow⟩, inner⟩
    | formula inner => exact ⟨_, List.mem_singleton.mpr rfl, inner⟩
    | value inner => exact ⟨_, List.mem_cons_self, inner⟩
    | picked inner => exact ⟨_, List.mem_cons_of_mem _ (List.mem_singleton.mpr rfl), inner⟩
    | added inRows inRow inner => exact ⟨_, List.mem_flatten.mpr ⟨_, inRows, inRow⟩, inner⟩
    | given inner => exact ⟨_, List.mem_singleton.mpr rfl, inner⟩
  · rintro ⟨e, member, inner⟩
    cases s with
    | watch table column => cases member
    | define table source =>
      cases source with
      | literal l =>
        obtain ⟨row, inRows, inRow⟩ := List.mem_flatten.mp member
        exact .cell inRows inRow inner
      | formula e' =>
        obtain rfl := List.mem_singleton.mp member
        exact .formula inner
    | set table column index op value =>
      rcases List.mem_cons.mp member with rfl | member
      · exact .value inner
      · obtain rfl := Option.mem_toList.mp member
        exact .picked inner
    | append table l =>
      obtain ⟨row, inRows, inRow⟩ := List.mem_flatten.mp member
      exact .added inRows inRow inner
    | assign name value =>
      obtain rfl := List.mem_singleton.mp member
      exact .given inner

/-! ## The check -/

/-- The line that comes after some lines of a block uses a name to which none of them gave a value. -/
structure StrayUse (lines before : List Line) (line : Line) (name : String) : Prop where
  place : ∃ after, lines = before ++ line :: after
  uses : line.statement.Uses name
  unassigned : ¬ Assigns before name

variable {known : List String} {lines before : List Line} {line : Line}

theorem assigns_cons_iff : Assigns (line :: lines) n ↔
    line.statement.assignedName? = some n ∨ Assigns lines n := by
  simp [Assigns]

/-- A check that fails passes over lines that use known names only, and stops at the first one that does
not. -/
theorem checkNames_eq_error {e : CompileError} (failed : checkNames known lines = .error e) :
    ∃ before line name, StrayUse lines before line name ∧ name ∉ known ∧
      checkNames known before = .ok () ∧ e = ⟨line.number, .unknownName name⟩ := by
  induction lines generalizing known with
  | nil => cases failed
  | cons first rest ih =>
    rw [checkNames] at failed
    split at failed
    · next name unknown =>
      cases failed
      obtain ⟨e, member, used⟩ := List.mem_flatMap.mp (List.mem_of_find?_eq_some unknown)
      have new : name ∉ known := by simpa using List.find?_some unknown
      refine ⟨[], first, name,
        ⟨⟨rest, rfl⟩, Statement.uses_iff.mpr ⟨e, member, used⟩, ?_⟩, new, rfl, rfl⟩
      rintro ⟨_, ⟨⟩, -⟩
    · next clear =>
      obtain ⟨before, line, name, ⟨⟨after, split⟩, uses, unassigned⟩, new, passed, rfl⟩ := ih failed
      rw [List.mem_append, Option.mem_toList, not_or] at new
      refine ⟨first :: before, line, name, ⟨⟨after, congrArg _ split⟩, uses, ?_⟩, new.2, ?_, rfl⟩
      · rw [assigns_cons_iff, not_or]
        exact ⟨new.1, unassigned⟩
      · rw [checkNames, clear]
        exact passed

/-- Where the check passes, no line uses a name too early. -/
theorem not_strayUse_of_checkNames (checked : checkNames [] lines = .ok ()) :
    ¬ StrayUse lines before line n := by
  rintro ⟨⟨after, split⟩, uses, unassigned⟩
  obtain ⟨e, member, used⟩ := Statement.uses_iff.mp uses
  exact unassigned (readsOwn_of_checkNames checked before line after split e member n used)

/-- A block compiles if and only if the check of its names passes. -/
theorem Paragraph.block_eq_error_iff {p : Paragraph} {number : Nat} {e : CompileError} :
    p.block number = .error e ↔ checkNames [] p.lines = .error e := by
  unfold Paragraph.block
  cases checkNames [] p.lines with
  | error reason => simp only [bind, Except.bind, Except.error.injEq]
  | ok =>
    simp only [bind, Except.bind, reduceCtorEq, iff_false]
    split <;> rintro ⟨⟩

/-- A block is refused on the line of its first stray use. -/
theorem Paragraph.strayUse_of_block {p : Paragraph} {number : Nat} {e : CompileError}
    (refused : p.block number = .error e) :
    ∃ before line name, StrayUse p.lines before line name ∧
      (∀ earlier other name', StrayUse p.lines earlier other name' → before.length ≤ earlier.length) ∧
      e = ⟨line.number, .unknownName name⟩ := by
  obtain ⟨before, line, name, stray, -, passed, rfl⟩ :=
    checkNames_eq_error (block_eq_error_iff.mp refused)
  refine ⟨before, line, name, stray, ?_, rfl⟩
  rintro earlier other name' ⟨⟨after', split'⟩, uses', unassigned'⟩
  obtain ⟨after, split⟩ := stray.place
  by_contra short
  -- the other line then stands among those that were passed
  have within : earlier ++ [other] <+: before := by
    have one : earlier ++ [other] <+: p.lines :=
      ⟨after', by rw [split', List.append_assoc, List.singleton_append]⟩
    have two : before <+: p.lines := ⟨line :: after, split.symm⟩
    refine List.prefix_of_prefix_length_le one two ?_
    rw [List.length_append, List.length_singleton]
    omega
  obtain ⟨between, whole⟩ := within
  refine not_strayUse_of_checkNames passed ⟨⟨between, ?_⟩, uses', unassigned'⟩
  rw [← whole, List.append_assoc, List.singleton_append]

/-! ## Evaluation -/

/-- The result is not the fault that a name has no value. -/
def KnowsNames {α : Type} (result : Except EvalFault α) : Prop :=
  ∀ name, result ≠ .error (.unknownName name)

namespace KnowsNames

variable {α β : Type}

theorem ok (a : α) : KnowsNames (.ok a) := by rintro name ⟨⟩

theorem bind {first : Except EvalFault α} {next : α → Except EvalFault β} (known : KnowsNames first)
    (later : ∀ a, KnowsNames (next a)) : KnowsNames (first >>= next) := by
  cases first with
  | error fault => exact fun name same => known name (congrArg Except.error (Except.error.inj same))
  | ok a => exact later a

theorem mapM {f : α → Except EvalFault β} {items : List α} (each : ∀ x ∈ items, KnowsNames (f x)) :
    KnowsNames (items.mapM f) := by
  induction items with
  | nil => exact ok []
  | cons x rest ih =>
    obtain ⟨here, others⟩ := List.forall_mem_cons.mp each
    rw [List.mapM_cons]
    exact here.bind fun y => (ih others).bind fun ys => ok _

theorem forM {check : α → Except EvalFault Unit} {items : List α}
    (each : ∀ x, KnowsNames (check x)) : KnowsNames (items.forM check) := by
  induction items with
  | nil => exact ok ()
  | cons x rest ih => exact (each x).bind fun _ => ih

end KnowsNames

/-! ### Operators and columns -/

theorem knowsNames_apply (op : BinaryOp) (a b : Value) : KnowsNames (op.apply a b) := by
  intro name
  cases op <;> cases a <;> cases b <;> grind [BinaryOp.apply, arithmetic, Except.map]

theorem knowsNames_unary (op : UnaryOp) (v : Value) : KnowsNames (op.apply v) := by
  intro name
  cases op <;> cases v <;> simp [UnaryOp.apply]

theorem knowsNames_broadcast {f : Value → Value → Except EvalFault Value}
    (each : ∀ a b, KnowsNames (f a b)) (left right : List Value) :
    KnowsNames (broadcast f left right) := by
  unfold broadcast
  split
  · exact .mapM fun b _ => each _ b
  · exact .mapM fun a _ => each a _
  · split
    · exact .mapM fun pair _ => each pair.1 pair.2
    · rintro name ⟨⟩

theorem knowsNames_rowOf (rowCount : Nat) (v : Value) : KnowsNames (rowOf rowCount v) := by
  intro name
  cases v <;> grind [rowOf]

theorem knowsNames_pickRows (index : List Value) (rowCount : Nat) :
    KnowsNames (pickRows index rowCount) := by
  unfold pickRows
  split
  · exact .ok _
  · split
    · exact .ok _
    · rintro name ⟨⟩
  · exact .mapM fun v _ => knowsNames_rowOf rowCount v

theorem knowsNames_table (w : Workspace) (table : String) : KnowsNames (w.table table) := by
  intro name
  grind [Workspace.table]

theorem knowsNames_findColumn (t : Table) (table : String) (column : Option String) :
    KnowsNames (findColumn t table column) := by
  intro name
  cases column <;> grind [findColumn]

theorem knowsNames_read (w : Workspace) (table : String) (column : Option String) :
    KnowsNames (w.read table column) :=
  (knowsNames_table w table).bind fun t => (knowsNames_findColumn t table column).bind fun _ => .ok _

/-! ### Rows and drafts -/

theorem knowsNames_checkRow (table : String) (specs : List ColumnSpec) (row : Row) :
    KnowsNames (checkRow table specs row) := by
  have kinds : ∀ (specs : List ColumnSpec) (row : Row), KnowsNames (checkKinds table specs row) := by
    intro specs row
    fun_induction checkKinds table specs row with
    | case1 _ _ _ _ _ ih => exact ih
    | case2 => rintro name ⟨⟩
    | case3 => exact .ok ()
  unfold checkRow
  split
  · exact kinds specs row
  · rintro name ⟨⟩

theorem knowsNames_arrange (table : String) (specs : List ColumnSpec) (names : List String)
    (rows : List Row) : KnowsNames (arrange table specs names rows) := by
  have places : KnowsNames (columnPlaces table names specs) := by
    induction specs with
    | nil => exact .ok []
    | cons spec specs ih =>
      unfold columnPlaces
      split
      · rintro name ⟨⟩
      · exact ih.bind fun _ => .ok _
  unfold arrange
  split
  · exact .ok rows
  · split
    · rintro name ⟨⟩
    · exact places.bind fun _ => .ok _

theorem knowsNames_setCells (op : SetOp) (table name : String) (column : Nat) (kind : Kind)
    (given : List (Nat × Value)) (d : Draft) :
    KnowsNames (setCells op table name column kind d given) := by
  induction given generalizing d with
  | nil => exact .ok d
  | cons pair rest ih =>
    have result (old : Value) : KnowsNames (op.result old pair.2) := by
      unfold SetOp.result
      split
      · exact .ok _
      · exact knowsNames_apply _ _ _
    rw [setCells]
    refine (result _).bind fun value => ?_
    split
    · exact ih _
    · rintro name ⟨⟩

theorem knowsNames_defineTable (w : Workspace) (table : String) (names : List String)
    (rows : List Row) : KnowsNames (w.defineTable table names rows) := by
  unfold Workspace.defineTable
  split
  · exact KnowsNames.bind (.forM fun row => knowsNames_checkRow _ _ row) fun _ => .ok _
  · refine (knowsNames_arrange _ _ _ _).bind fun arranged => ?_
    refine KnowsNames.bind (.forM fun row => knowsNames_checkRow _ _ row) fun _ => ?_
    split
    · rintro name ⟨⟩
    · exact .ok _

/-! ### Statements -/

/-- The names have values. -/
def Workspace.Gives (w : Workspace) (names : String → Prop) : Prop :=
  ∀ name, names name → ∃ values, w.names.lookup name = some values

variable {w : Workspace}

theorem knowsNames_eval {e : Expr} (gives : w.Gives (· ∈ e.names)) : KnowsNames (e.eval w) := by
  induction e with
  | number | text | bool => exact .ok _
  | name n =>
    obtain ⟨values, found⟩ := gives n (List.mem_singleton_self n)
    rw [Expr.eval, found]
    exact .ok values
  | column t c => exact knowsNames_read w t c
  | pick t c index ih =>
    refine (knowsNames_read w t c).bind fun values => (ih gives).bind fun selector => ?_
    exact (knowsNames_pickRows _ _).bind fun _ => .ok _
  | unary op operand ih =>
    exact (ih gives).bind fun values => .mapM fun v _ => knowsNames_unary op v
  | binary op left right ihLeft ihRight =>
    refine (ihLeft fun name used => gives name (List.mem_append_left _ used)).bind fun a => ?_
    refine (ihRight fun name used => gives name (List.mem_append_right _ used)).bind fun b => ?_
    exact knowsNames_broadcast (knowsNames_apply op) a b

theorem knowsNames_evalLiteral {l : Literal}
    (gives : ∀ e ∈ l.rows.flatten, w.Gives (· ∈ e.names)) : KnowsNames (l.eval w) := by
  refine .mapM fun row inRows => .mapM fun e inRow => ?_
  refine (knowsNames_eval (gives e (List.mem_flatten.mpr ⟨row, inRows, inRow⟩))).bind fun values => ?_
  split
  · exact .ok _
  · rintro name ⟨⟩

/-- A statement whose names all have values does not look for one in vain. -/
theorem knowsNames_action {s : Statement} (gives : ∀ e ∈ s.exprs, w.Gives (· ∈ e.names)) :
    KnowsNames (s.action w) := by
  cases s with
  | watch table column => exact .ok _
  | define table source =>
    have evaluated : KnowsNames (source.eval w) := by
      cases source with
      | literal l => exact (knowsNames_evalLiteral gives).bind fun _ => .ok _
      | formula e => exact (knowsNames_eval (gives e List.mem_cons_self)).bind fun _ => .ok _
    exact evaluated.bind fun pair => (knowsNames_defineTable w table pair.1 pair.2).bind fun _ => .ok _
  | set table column index op value =>
    have picked : KnowsNames (index.mapM (Expr.eval w)) := by
      cases index with
      | none => exact .ok none
      | some index =>
        have inside : index ∈ value :: (some index).toList :=
          List.mem_cons_of_mem _ (List.mem_singleton_self index)
        exact (knowsNames_eval (gives index inside)).bind fun _ => .ok _
    refine KnowsNames.bind ?_ fun _ => .ok _
    refine (knowsNames_eval (gives value List.mem_cons_self)).bind fun values => ?_
    refine picked.bind fun selector => (knowsNames_table w table).bind fun t => ?_
    refine (knowsNames_findColumn _ _ _).bind fun place => KnowsNames.bind ?_ fun rows => ?_
    · cases selector with
      | some selector => exact knowsNames_pickRows selector t.rowCount
      | none => exact .ok _
    · refine KnowsNames.bind ?_ fun given => knowsNames_setCells _ _ _ _ _ given _
      unfold assignRows
      split
      · exact .ok _
      · split
        · exact .ok _
        · rintro name ⟨⟩
  | append table l =>
    refine KnowsNames.bind ?_ fun _ => .ok _
    refine (knowsNames_evalLiteral gives).bind fun rows => (knowsNames_table w table).bind fun t => ?_
    refine (knowsNames_arrange _ _ _ _).bind fun arranged => ?_
    exact KnowsNames.bind (.forM fun row => knowsNames_checkRow _ _ row) fun _ => .ok _
  | assign name value =>
    exact (knowsNames_eval (gives value (List.mem_singleton_self value))).bind fun _ => .ok _

theorem Workspace.Gives.perform {action : Action} {s : Statement} (gives : w.Gives (· ∈ known))
    (acts : s.action w = .ok action) :
    (w.perform action).Gives (· ∈ s.assignedName?.toList ++ known) := by
  intro name member
  rcases List.mem_append.mp member with new | old
  · cases s with
    | assign other value =>
      obtain ⟨values, -, result⟩ := bind_eq_ok_iff.mp acts
      cases result
      obtain rfl := List.mem_singleton.mp new
      exact ⟨values, by rw [Workspace.perform, lookup_cons, if_pos rfl]⟩
    | _ => cases new
  · cases action with
    | nothing | write d => exact gives name old
    | name other values =>
      simp only [Workspace.perform, lookup_cons]
      split
      · exact ⟨values, rfl⟩
      · exact gives name old

/-- Lines that pass the check run without looking for a name in vain. -/
theorem runLines_knowsNames {fault : LineFault} (checked : checkNames known lines = .ok ())
    (gives : w.Gives (· ∈ known)) (stopped : runLines w lines = .error fault) :
    ∀ name, fault.fault ≠ .unknownName name := by
  induction lines generalizing w known with
  | nil => cases stopped
  | cons line rest ih =>
    rw [checkNames] at checked
    split at checked
    · cases checked
    · next clear =>
      have here : ∀ e ∈ line.statement.exprs, w.Gives (· ∈ e.names) := by
        intro e member name used
        have found := List.find?_eq_none.mp clear name (List.mem_flatMap.mpr ⟨e, member, used⟩)
        exact gives name (by simpa using found)
      rw [runLines, Statement.run] at stopped
      cases acts : line.statement.action w with
      | error own =>
        simp only [acts, bind, Except.bind, Except.error.injEq] at stopped
        subst stopped
        rintro name rfl
        exact knowsNames_action here name acts
      | ok action =>
        simp only [acts, bind, Except.bind, pure, Except.pure] at stopped
        exact ih checked (gives.perform acts) stopped

/-! ## Blocks of programs -/

/-- Watch statements use no names and give none, so that the check of a paragraph covers its block. -/
theorem checkNames_body {p : Paragraph} (checked : checkNames known p.lines = .ok ()) :
    checkNames known p.body = .ok () := by
  have filtered : ∀ {known : List String} (lines : List Line), checkNames known lines = .ok () →
      checkNames known (lines.filter fun line => line.statement.watchRegister?.isNone) = .ok () := by
    intro known lines passed
    induction lines generalizing known with
    | nil => rfl
    | cons line rest ih =>
      rw [checkNames] at passed
      split at passed
      · cases passed
      · next clear =>
        cases asks : line.statement.watchRegister? with
        | some r =>
          obtain ⟨t, c, same, -⟩ := Statement.watchRegister?_eq_some_iff.mp asks
          rw [List.filter_cons_of_neg (by simp [asks])]
          rw [same] at passed
          exact ih passed
        | none =>
          rw [List.filter_cons_of_pos (by simp [asks]), checkNames, clear]
          exact ih passed
  exact filtered p.lines checked

theorem toString_string (s : String) : toString s = s := rfl

theorem message_unknownName (name : String) :
    EvalFault.message (.unknownName name) = "unknown local '" ++ name ++ "'" := rfl

/-- The message of an unknown name is that of no other fault. -/
theorem unknownName_of_message {f : EvalFault} {name : String}
    (same : f.message = EvalFault.message (.unknownName name)) : ∃ other, f = .unknownName other := by
  have start : f.message.toList.take 9 = "unknown l".toList := by
    rw [same, message_unknownName]
    simp
  unfold EvalFault.message at start
  split at start
  case h_4 other => exact ⟨other, rfl⟩
  all_goals simp [toString_string] at start

theorem toList_message (f : LineFault) :
    f.message.toList = "line ".toList ++ Nat.toDigits 10 f.line ++ ':' :: ' ' :: f.fault.message.toList := by
  simp [LineFault.message, toString_string, Nat.toString_eq_repr]

theorem unknownName_of_lineMessage {f : LineFault} {number : Nat} {name : String}
    (same : f.message = LineFault.message ⟨number, .unknownName name⟩) :
    ∃ other, f.fault = .unknownName other := by
  have whole := congrArg String.toList same
  rw [toList_message, toList_message, List.append_assoc, List.append_assoc, List.append_cancel_left_eq]
    at whole
  have digits (n : Nat) : ∀ c ∈ Nat.toDigits 10 n, c ≠ ':' := by
    rintro c member rfl
    cases Nat.isDigit_of_mem_toDigits (by decide) (by decide) member
  have rest := congrArg (List.dropWhile (· ≠ ':')) whole
  rw [List.dropWhile_append_of_pos (by simpa using digits _),
    List.dropWhile_append_of_pos (by simpa using digits _)] at rest
  exact unknownName_of_message (String.toList_injective (by simpa using rest))

/-- The routine of lines that pass the check does not fail for want of the value of a name. -/
theorem routine_ne_unknownName (checked : checkNames [] lines = .ok ()) (s : Store) (number : Nat)
    (name : String) : routine lines s ≠ .error (LineFault.message ⟨number, .unknownName name⟩) := by
  intro failed
  rw [routine, evaluate] at failed
  cases ran : runLines (.start s) lines with
  | ok w => simp [ran, bind, Except.bind, pure, Except.pure, Except.mapError] at failed
  | error fault =>
    simp only [ran, bind, Except.bind, Except.mapError, Except.error.injEq] at failed
    obtain ⟨other, unknown⟩ := unknownName_of_lineMessage failed
    exact runLines_knowsNames checked (by rintro _ ⟨⟩) ran other unknown

/-- **Names are given before they are used.** A paragraph is refused as a block if and only if one of its
lines uses a name, anywhere in its expressions, to which no earlier line gave a value; the error then names
such a use and carries the number of the first line with one. No block of a program that was compiled fails
for want of the value of a name, whatever the store. -/
theorem names_given_before_use :
    (∀ (p : Paragraph) (number : Nat),
      ((∃ e, p.block number = .error e) ↔ ∃ before line name, StrayUse p.lines before line name) ∧
      ∀ e, p.block number = .error e → ∃ before line name, StrayUse p.lines before line name ∧
        (∀ earlier other name', StrayUse p.lines earlier other name' →
          before.length ≤ earlier.length) ∧ e = ⟨line.number, .unknownName name⟩) ∧
    ∀ text program, compile text = .ok program → ∀ b ∈ program.blocks, ∀ s number name,
      b.routine s ≠ .error (LineFault.message ⟨number, .unknownName name⟩) := by
  refine ⟨fun p number => ⟨⟨?_, ?_⟩, fun e => Paragraph.strayUse_of_block⟩, ?_⟩
  · rintro ⟨e, refused⟩
    obtain ⟨before, line, name, stray, -⟩ := Paragraph.strayUse_of_block refused
    exact ⟨before, line, name, stray⟩
  · rintro ⟨before, line, name, stray⟩
    cases checked : checkNames [] p.lines with
    | error e => exact ⟨e, Paragraph.block_eq_error_iff.mpr checked⟩
    | ok => exact absurd stray (not_strayUse_of_checkNames checked)
  · intro text program compiled b member s number name failed
    obtain ⟨paragraphs, read, -⟩ := bind_eq_ok_iff.mp compiled
    obtain ⟨i, inside, rfl⟩ := List.getElem_of_mem member
    obtain ⟨count, each⟩ := blocks_of_compile compiled read
    have own := each i _ _ (List.getElem?_eq_getElem (count ▸ inside)) (List.getElem?_eq_getElem inside)
    obtain ⟨_, checked, -⟩ := bind_eq_ok_iff.mp own
    rw [routine_of_block own] at failed
    exact routine_ne_unknownName (checkNames_body checked) s number name failed

/-- A name is given to a column. -/
def naming : Line := ⟨1, .assign "a" (.column "t" (some "x"))⟩

/-- The name is used in an index. -/
def picking : Line :=
  ⟨2, .define "s" (.formula (.pick "t" (some "x") (.binary .gt (.column "t" (some "x")) (.name "a"))))⟩

/-- In this order the lines compile; in the other one the block is refused on the line that uses the name. -/
theorem names_given_before_use_picking :
    (∃ program b, compile "a = #t.x\n#s = #t.x\x7b#t.x > a\x7d" = .ok program ∧ program.blocks = [b] ∧
      ∀ s number name, b.routine s ≠ .error (LineFault.message ⟨number, .unknownName name⟩)) ∧
    ∃ e, (Paragraph.mk none 2 [picking, naming]).block 1 = .error e ∧ e.line = 2 := by
  obtain ⟨refusals, runs⟩ := names_given_before_use
  constructor
  · have read : readProgram "a = #t.x\n#s = #t.x\x7b#t.x > a\x7d" = .ok [⟨none, 1, [naming, picking]⟩] := by
      cbv
    obtain ⟨program, b, added, only⟩ :
        ∃ program b, addParagraphs empty [⟨none, 1, [naming, picking]⟩] = .ok program ∧
          program.blocks = [b] := ⟨_, _, rfl, rfl⟩
    have compiled := bind_eq_ok_iff.mpr ⟨_, read, added⟩
    exact ⟨program, b, compiled, only, runs _ program compiled b (only ▸ List.mem_singleton_self b)⟩
  · have stray : StrayUse [picking, naming] [] picking "a" :=
      ⟨⟨[naming], rfl⟩, .formula (.index (.right .name)), by simp [Assigns]⟩
    obtain ⟨refused, first⟩ := refusals ⟨none, 2, [picking, naming]⟩ 1
    obtain ⟨e, failed⟩ := refused.mpr ⟨_, _, _, stray⟩
    obtain ⟨before, line, name, ⟨⟨after, split⟩, -, -⟩, earliest, rfl⟩ := first e failed
    obtain rfl := List.length_eq_zero_iff.mp (Nat.le_zero.mp (earliest _ _ _ stray))
    cases split
    exact ⟨_, failed, rfl⟩

end Ripple.Program
