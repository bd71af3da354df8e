import Ripple.Block
import Ripple.Program.Evaluation
import Ripple.Program.Paragraph

/-!
# Compilation

Paragraphs that only define tables by constants declare tables that are there from the start.
Every other paragraph is a block. A block with watch statements runs when one of the registers
named there is written; a block without is a formula, which runs when the program is loaded and
whenever something it reads is written.
-/

namespace Ripple.Program

/-- A table that is created when a program is loaded. -/
structure Declaration where
  id : Ident
  name : String
  specs : List ColumnSpec
  rows : List Row
  deriving DecidableEq, Repr

end Program

/-- A compiled program. -/
structure Program where
  tables : List Program.Declaration
  blocks : List Block

namespace Program

/-! ## Declarations -/

/-- The column names and rows of a table that is defined by constants. -/
def Source.constants? : Source → Option (List String × List Row)
  | .literal l => l.constantRows?.map (l.columns, ·)
  | .formula e => e.constant?.map fun value => ([], [[value]])

/-- The table that a statement declares, if it defines one by constants. -/
def Statement.constants? : Statement → Option (String × List String × List Row)
  | .define table source => source.constants?.map fun (names, rows) => (table, names, rows)
  | _ => none

/-- `is_declaration`: whether a paragraph only defines tables by constants. -/
def Paragraph.isDeclaration (p : Paragraph) : Bool :=
  p.lines.all fun line => line.statement.constants?.isSome

/-- The first value, row by row, that is not of the kind of its column in the first row. -/
def mixedKinds? (table : String) (kinds : List Kind) (rows : List Row) : Option CompileFault :=
  (rows.zipIdx 1).findSome? fun (row, r) =>
    ((row.zip kinds).zipIdx 1).findSome? fun ((value, kind), c) =>
      if value.kind = kind then none else some (.mixedKinds table c kind value.kind r)

/-- `declare`: the declaration of a table by constant rows. -/
def declare (table : String) (names : List String) (rows : List Row) :
    Except CompileFault Declaration :=
  match mixedKinds? table ((rows.headD []).map Value.kind) rows with
  | some fault => .error fault
  | none => .ok ⟨.of table, table, newSpecs names rows, rows⟩

/-- Adds the tables that lines declare to those declared before. -/
def declareLines (before : List Declaration) : List Line → Except CompileError (List Declaration)
  | [] => .ok before
  | line :: rest =>
    match line.statement.constants? with
    | none => declareLines before rest
    | some (table, names, rows) =>
      match declare table names rows with
      | .error fault => .error ⟨line.number, fault⟩
      | .ok d =>
        if before.any (·.id = d.id) then .error ⟨line.number, .declaredTwice table⟩
        else declareLines (before ++ [d]) rest

/-! ## Blocks -/

/-- The expressions of a statement, in the order in which they are looked at. -/
def Statement.exprs : Statement → List Expr
  | .watch _ _ => []
  | .define _ (.literal l) => l.rows.flatten
  | .define _ (.formula e) => [e]
  | .set _ _ index _ value => value :: index.toList
  | .append _ l => l.rows.flatten
  | .assign _ value => [value]

/-- `read_register`: the register of a column that a program names. -/
def registerOf (table : String) : Option String → Register
  | some column => .named table column
  | none => .any (.of table)

/-- The registers that a statement reads. A compound assignment reads its own column. -/
def Statement.readRegisters (s : Statement) : List Register :=
  let read := (s.exprs.flatMap Expr.reads).map fun (table, column) => registerOf table column
  match s with
  | .set table column _ op _ => if op = .assign then read else read ++ [.named table column]
  | _ => read

/-- The register that a statement asks to watch. -/
def Statement.watchRegister? : Statement → Option Register
  | .watch table column => some (registerOf table column)
  | _ => none

/-- The register that a statement writes. -/
def Statement.produceRegister? : Statement → Option Register
  | .set table column _ _ _ => some (.named table column)
  | .define table _ => some (.any (.of table))
  | .append table _ => some (.any (.of table))
  | _ => none

/-- The name that a statement gives to a value. -/
def Statement.assignedName? : Statement → Option String
  | .assign name _ => some name
  | _ => none

/-- Checks that every name is used only after an earlier line gave it a value. -/
def checkNames (known : List String) : List Line → Except CompileError Unit
  | [] => .ok ()
  | line :: rest =>
    match (line.statement.exprs.flatMap Expr.names).find? (· ∉ known) with
    | some name => .error ⟨line.number, .unknownName name⟩
    | none => checkNames (line.statement.assignedName?.toList ++ known) rest

/-- The routine of a block made of lines. -/
def routine (lines : List Line) : Routine := fun s =>
  (evaluate lines s).mapError LineFault.message

/-- `compile_block`: the block of a paragraph. Without a title it is named by its number among the
blocks. -/
def Paragraph.block (p : Paragraph) (number : Nat) : Except CompileError Block := do
  checkNames [] p.lines
  let statements := p.lines.map Line.statement
  let watch := statements.filterMap Statement.watchRegister?
  let produce := statements.filterMap Statement.produceRegister?
  let name := p.title.getD s!"block-{number}"
  let lines := p.lines.filter fun line => line.statement.watchRegister?.isNone
  if watch.isEmpty then
    return .build name .onLoad (statements.flatMap Statement.readRegisters) produce (routine lines)
  else
    return .build name .onWatch watch produce (routine lines)

/-! ## Programs -/

/-- The program without tables and blocks. -/
def empty : Program := ⟨[], []⟩

/-- Adds paragraphs to a program. -/
def addParagraphs (program : Program) : List Paragraph → Except CompileError Program
  | [] => .ok program
  | p :: rest =>
    if p.isDeclaration then
      match declareLines program.tables p.lines with
      | .error e => .error e
      | .ok tables => addParagraphs { program with tables } rest
    else
      match p.block (program.blocks.length + 1) with
      | .error e => .error e
      | .ok block => addParagraphs { program with blocks := program.blocks ++ [block] } rest

/-- `compile_program`: the program that a text writes. -/
def compile (text : String) : Except CompileError Program := do
  let paragraphs ← readProgram text
  addParagraphs empty paragraphs

end Program

end Ripple
