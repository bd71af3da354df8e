import Ripple.Proofs.CarefulBlocks
import Ripple.Proofs.Mentions
import Ripple.Proofs.WorkingCopies

/-!
What a compiled program is made of. The lines of its blocks were read from the text, so that a block asks
for the very changes that lead from the store to its working copies (`reflects_of_routine`), and the
tables it declares are those that its constants would define (`eval_of_constants`). As long as the names
of columns in the text have different identifiers, all its blocks are careful and its tables have columns
with different identifiers (`careful_of_compile`).
-/

namespace Ripple

namespace Program

/-! ## Blocks -/

/-- The lines of a paragraph that its block runs. -/
def Paragraph.body (p : Paragraph) : List Line :=
  p.lines.filter fun line => line.statement.watchRegister?.isNone

theorem routine_of_block {p : Paragraph} {number : Nat} {b : Block}
    (compiled : p.block number = .ok b) : b.routine = routine p.body := by
  obtain ⟨_, -, result⟩ := bind_eq_ok_iff.mp compiled
  dsimp only at result
  split at result <;> cases result <;> rfl

/-- The names of the columns of all tables that the program may create. -/
def createdColumns (paragraphs : List Paragraph) : Set String :=
  { name | ∃ p ∈ paragraphs, name ∈ columnNames p.lines }

/-- No two of these names have the same identifier. -/
def ColumnsApart (text : String) : Prop :=
  ∀ paragraphs, readProgram text = .ok paragraphs → Set.InjOn Ident.of (createdColumns paragraphs)

theorem reflects_of_routine {s : Store} (tidy : s.Tidy) {lines : List Line}
    (parsed : ∀ line ∈ lines, line.Parsed) (injective : Set.InjOn Ident.of (columnNames lines))
    {changes : List Change} (asked : routine lines s = .ok changes) :
    ∃ w r, runLines (.start s) lines = .ok w ∧ w.changes = changes ∧ w.base = s ∧ w.Reflects r := by
  unfold routine at asked
  rw [evaluate] at asked
  cases ran : runLines (.start s) lines with
  | error fault => simp [ran, bind, Except.bind, Except.mapError] at asked
  | ok w =>
    have same : w.changes = changes := by
      simpa [ran, bind, Except.bind, pure, Except.pure, Except.mapError] using asked
    obtain ⟨base, r, reflects⟩ := (Workspace.Reflects.start tidy).runLines
      (fun line member => (parsed line member).formed) injective ran
    exact ⟨w, r, rfl, same, base, reflects⟩

/-- A block runs the body of its paragraph, whose lines were parsed and create columns of the text. -/
theorem body_of_compile {text : String} {program : Program} {paragraphs : List Paragraph}
    (compiled : compile text = .ok program) (read : readProgram text = .ok paragraphs)
    (injective : Set.InjOn Ident.of (createdColumns paragraphs)) {i : Nat} {p : Paragraph} {b : Block}
    (source : (sources paragraphs)[i]? = some p) (block : program.blocks[i]? = some b) :
    b.routine = routine p.body ∧ (∀ line ∈ p.body, line.Parsed) ∧
      Set.InjOn Ident.of (columnNames p.body) := by
  have own := (blocks_of_compile compiled read).2 i p b source block
  have inText : p ∈ paragraphs := (List.mem_filter.mp (List.mem_of_getElem? source)).1
  refine ⟨routine_of_block own, ?_, injective.mono ?_⟩
  · intro line inBody
    exact lines_parsed read p inText line (List.mem_filter.mp inBody).1
  · rintro name ⟨line, inBody, named⟩
    exact ⟨p, inText, line, (List.mem_filter.mp inBody).1, named⟩

/-! ## Declarations -/

/-- A constant is an expression that comes to it in every state. -/
theorem eval_of_constant {e : Expr} {v : Value} (constant : e.constant? = some v) (w : Workspace) :
    e.eval w = .ok [v] := by
  unfold Expr.constant? at constant
  split at constant <;> cases constant <;> rfl

/-- What a table is declared by is what it would be defined by. -/
theorem eval_of_constants {source : Source} {names : List String} {rows : List Row}
    (constants : source.constants? = some (names, rows)) (w : Workspace) :
    source.eval w = .ok (names, rows) := by
  cases source with
  | literal l =>
    obtain ⟨values, constant, same⟩ := Option.map_eq_some_iff.mp constants
    cases same
    have evaluated : l.eval w = .ok rows := by
      refine mapM_of_mapM (fun cells row held => ?_) constant
      refine mapM_of_mapM (fun e v single => ?_) held
      simp only [Expr.evalCell, eval_of_constant single w]
      rfl
    simp only [Source.eval, evaluated]
    rfl
  | formula e =>
    obtain ⟨v, constant, same⟩ := Option.map_eq_some_iff.mp constants
    cases same
    simp only [Source.eval, eval_of_constant constant w]
    rfl

variable {line : Line} {d : Declaration} {table : String} {names : List String} {rows : List Row}

/-- The line declares the table. -/
def Line.Declares (line : Line) (d : Declaration) : Prop :=
  ∃ table names rows, line.statement.constants? = some (table, names, rows) ∧
    declare table names rows = .ok d

theorem declare_eq_ok_iff :
    declare table names rows = .ok d ↔
      mixedKinds? table ((rows.headD []).map Value.kind) rows = none ∧
        d = ⟨.of table, table, newSpecs names rows, rows⟩ := by
  unfold declare
  cases mixedKinds? table ((rows.headD []).map Value.kind) rows with
  | some fault => simp only [reduceCtorEq, false_and]
  | none => simp only [Except.ok.injEq, true_and, eq_comm]

/-- A statement of constants defines a table by them. -/
theorem exists_of_constants {s : Statement} (constant : s.constants?.isSome) :
    ∃ table source names rows, s = .define table source ∧ source.constants? = some (names, rows) := by
  cases s with
  | define table source =>
    obtain ⟨⟨names, rows⟩, known⟩ := Option.isSome_iff_exists.mp (Option.isSome_map ▸ constant)
    exact ⟨table, source, names, rows, rfl, known⟩
  | _ => cases constant

theorem Line.declares_iff {source : Source} (same : line.statement = .define table source)
    (known : source.constants? = some (names, rows)) :
    line.Declares d ↔ declare table names rows = .ok d := by
  have constants : line.statement.constants? = some (table, names, rows) := by
    rw [same, Statement.constants?, known]
    rfl
  constructor
  · rintro ⟨table', names', rows', constants', declared⟩
    cases constants.symm.trans constants'
    exact declared
  · exact fun declared => ⟨table, names, rows, constants, declared⟩

theorem Line.Declares.constant (declares : line.Declares d) : line.statement.constants?.isSome := by
  obtain ⟨table, names, rows, constants, -⟩ := declares
  exact constants ▸ rfl

theorem distinct_of_declares (parsed : line.Parsed)
    (injective : Set.InjOn Ident.of { name | name ∈ line.statement.columnNames })
    (declares : line.Declares d) : (d.specs.map ColumnSpec.id).Nodup := by
  obtain ⟨table, source, names, rows, same, known⟩ := exists_of_constants declares.constant
  obtain ⟨-, rfl⟩ := declare_eq_ok_iff.mp ((Line.declares_iff same known).mp declares)
  have formed := parsed.formed
  rw [same] at formed injective
  exact Source.distinct_newSpecs formed injective (eval_of_constants known (.start .empty))

/-- A line declares a table that was not declared before, or nothing at all. -/
theorem declareLines_cons_eq_ok_iff {before tables : List Declaration} {rest : List Line} :
    declareLines before (line :: rest) = .ok tables ↔
      (line.statement.constants? = none ∧ declareLines before rest = .ok tables) ∨
        ∃ d, line.Declares d ∧ d.id ∉ before.map Declaration.id ∧
          declareLines (before ++ [d]) rest = .ok tables := by
  rw [declareLines]
  cases constants : line.statement.constants? with
  | none =>
    constructor
    · exact fun declared => .inl ⟨rfl, declared⟩
    · rintro (⟨-, declared⟩ | ⟨d, ⟨_, _, _, some, _⟩, _⟩)
      · exact declared
      · cases constants.symm.trans some
  | some known =>
    obtain ⟨table, names, rows⟩ := known
    constructor
    · intro declared
      dsimp only at declared
      split at declared
      · cases declared
      · next d own =>
        split at declared
        · cases declared
        · next new => exact .inr ⟨d, ⟨table, names, rows, constants, own⟩, by simpa using new, declared⟩
    · rintro (⟨none, -⟩ | ⟨d, ⟨_, _, _, here, own⟩, new, declared⟩)
      · cases none
      · cases constants.symm.trans here
        have first : ¬ before.any (·.id = d.id) := by simpa using new
        simp only [own, if_neg first, declared]

theorem declares_of_declareLines {before tables : List Declaration} {lines : List Line}
    (declared : declareLines before lines = .ok tables) (member : d ∈ tables) :
    d ∈ before ∨ ∃ line ∈ lines, line.Declares d := by
  induction lines generalizing before with
  | nil =>
    cases declared
    exact .inl member
  | cons line rest ih =>
    rcases declareLines_cons_eq_ok_iff.mp declared with ⟨-, declared⟩ | ⟨d', declares, -, declared⟩
    · refine (ih declared).imp_right ?_
      exact fun ⟨other, inRest, own⟩ => ⟨other, List.mem_cons_of_mem _ inRest, own⟩
    · rcases ih declared with there | ⟨other, inRest, own⟩
      · rcases List.mem_append.mp there with old | new
        · exact .inl old
        · obtain rfl := List.mem_singleton.mp new
          exact .inr ⟨line, List.mem_cons_self, declares⟩
      · exact .inr ⟨other, List.mem_cons_of_mem _ inRest, own⟩

/-- What the declarations of every paragraph keep true of the tables, those of a program do. -/
theorem addParagraphs_keeps {P : List Declaration → Prop} {program after : Program}
    {paragraphs : List Paragraph} (added : addParagraphs program paragraphs = .ok after)
    (start : P program.tables)
    (keeps : ∀ p ∈ paragraphs, ∀ before tables, declareLines before p.lines = .ok tables →
      P before → P tables) : P after.tables := by
  induction paragraphs generalizing program with
  | nil =>
    cases added
    exact start
  | cons p rest ih =>
    obtain ⟨own, others⟩ := List.forall_mem_cons.mp keeps
    unfold addParagraphs at added
    split at added
    · split at added
      · cases added
      · next tables declared => exact ih added (own _ _ declared start) others
    · split at added
      · cases added
      · exact ih added start others

theorem declares_of_addParagraphs {program after : Program} {paragraphs : List Paragraph}
    (added : addParagraphs program paragraphs = .ok after) :
    ∀ d ∈ after.tables,
      d ∈ program.tables ∨ ∃ p ∈ paragraphs, ∃ line ∈ p.lines, line.Declares d := by
  refine addParagraphs_keeps (P := fun tables => ∀ d ∈ tables,
    d ∈ program.tables ∨ ∃ p ∈ paragraphs, ∃ line ∈ p.lines, line.Declares d) added (fun d => .inl) ?_
  intro p inText before tables declared known d member
  rcases declares_of_declareLines declared member with there | declares
  · exact known d there
  · exact .inr ⟨p, inText, declares⟩

/-! ## Programs -/

/-- The blocks are careful, and the tables that are declared have columns with different
identifiers. -/
structure Careful (program : Program) : Prop where
  blocks : ∀ b ∈ program.blocks, b.Careful
  tables : ∀ d ∈ program.tables, (d.specs.map ColumnSpec.id).Nodup

theorem careful_of_compile {text : String} {program : Program} (compiled : compile text = .ok program)
    (apart : ColumnsApart text) : program.Careful where
  blocks b member s changes tidy asked := by
    obtain ⟨paragraphs, read, -⟩ := bind_eq_ok_iff.mp compiled
    obtain ⟨i, inside, rfl⟩ := List.getElem_of_mem member
    have within : i < (sources paragraphs).length := (blocks_of_compile compiled read).1 ▸ inside
    obtain ⟨own, parsed, injective⟩ := body_of_compile compiled read (apart paragraphs read)
      (List.getElem?_eq_getElem within) (List.getElem?_eq_getElem inside)
    rw [own] at asked
    obtain ⟨w, r, -, rfl, rfl, reflects⟩ := reflects_of_routine tidy parsed injective asked
    exact ⟨r, reflects.effective, reflects.tidy⟩
  tables d member := by
    obtain ⟨paragraphs, read, added⟩ := bind_eq_ok_iff.mp compiled
    rcases declares_of_addParagraphs added d member with ⟨⟨⟩⟩ | ⟨p, inText, line, inLines, declares⟩
    have inside : { name | name ∈ line.statement.columnNames } ⊆ createdColumns paragraphs :=
      fun name named => ⟨p, inText, line, inLines, named⟩
    exact distinct_of_declares (lines_parsed read p inText line inLines)
      ((apart paragraphs read).mono inside) declares

end Program

end Ripple
