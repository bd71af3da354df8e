import Ripple.Value

/-!
# The table language

A program is a list of blocks of statements. Statements watch, define, set and extend tables
and name intermediate values; expressions compute with whole columns.
-/

namespace Ripple.Program

/-- Operators with one operand. -/
inductive UnaryOp where
  | neg
  | not
  deriving DecidableEq, Repr

/-- Operators with two operands. -/
inductive BinaryOp where
  | pow
  | mul
  | div
  | add
  | sub
  | lt
  | gt
  | le
  | ge
  | eq
  | ne
  | and
  | or
  deriving DecidableEq, Repr

/-- The operator as it is written. -/
def BinaryOp.symbol : BinaryOp → String
  | .pow => "^"
  | .mul => "*"
  | .div => "/"
  | .add => "+"
  | .sub => "-"
  | .lt => "<"
  | .gt => ">"
  | .le => "<="
  | .ge => ">="
  | .eq => "=="
  | .ne => "!="
  | .and => "&"
  | .or => "|"

/-- An expression. Its value is a list of cell values. -/
inductive Expr where
  | number (n : Number)
  | text (s : String)
  | bool (b : Bool)
  /-- A name given to a value by an earlier statement of the block. -/
  | name (name : String)
  /-- All cells of a column; of the first column if none is named. -/
  | column (table : String) (column : Option String)
  /-- The cells of a column that an index picks. -/
  | pick (table : String) (column : Option String) (index : Expr)
  | unary (op : UnaryOp) (operand : Expr)
  | binary (op : BinaryOp) (left right : Expr)
  deriving DecidableEq, Repr

namespace Expr

/-- `Expr::constant`: the value of a literal or a negated number. -/
def constant? : Expr → Option Value
  | number n => some (.number n)
  | text s => some (.text s)
  | bool b => some (.bool b)
  | unary .neg (number n) => some (.number n.neg)
  | _ => none

/-- `Expr::visit_reads`: the columns an expression reads, from left to right. -/
def reads : Expr → List (String × Option String)
  | column t c => [(t, c)]
  | pick t c index => (t, c) :: index.reads
  | unary _ operand => operand.reads
  | binary _ left right => left.reads ++ right.reads
  | _ => []

/-- `Expr::visit_locals`: the names an expression uses, from left to right. -/
def names : Expr → List String
  | name n => [n]
  | pick _ _ index => index.names
  | unary _ operand => operand.names
  | binary _ left right => left.names ++ right.names
  | _ => []

end Expr

/-- A table written out: rows of cells, with names for the columns or without. -/
structure Literal where
  /-- The column names; none if the columns are known by their positions. -/
  columns : List String
  rows : List (List Expr)
  deriving DecidableEq, Repr

namespace Literal

/-- The number of cells of each row. -/
def width (l : Literal) : Nat :=
  if l.columns.isEmpty then (l.rows.head?.map List.length).getD 0 else l.columns.length

/-- `TableLiteral::constant_rows`: the cells as values, if all of them are constants. -/
def constantRows? (l : Literal) : Option (List Row) :=
  l.rows.mapM fun row => row.mapM Expr.constant?

end Literal

/-- What a table is defined by. -/
inductive Source where
  | literal (l : Literal)
  | formula (e : Expr)
  deriving DecidableEq, Repr

/-- How a statement sets cells: to a value, or to the result of an operation on the old one. -/
inductive SetOp where
  | assign
  | add
  | sub
  | mul
  | div
  deriving DecidableEq, Repr

/-- The operation between the old value and the given one. -/
def SetOp.operation? : SetOp → Option BinaryOp
  | .assign => none
  | .add => some .add
  | .sub => some .sub
  | .mul => some .mul
  | .div => some .div

/-- A statement. -/
inductive Statement where
  /-- `~ #t.c` or `~ #t`: the block runs when the register is written. -/
  | watch (table : String) (column : Option String)
  /-- `#t = …`: the table has these contents. -/
  | define (table : String) (source : Source)
  /-- `#t.c := e` or `#t.c{i} := e`: the cells get these values. -/
  | set (table column : String) (index : Option Expr) (op : SetOp) (value : Expr)
  /-- `#t += […]`: rows are added. -/
  | append (table : String) (rows : Literal)
  /-- `x = e`: the value has a name from here on. -/
  | assign (name : String) (value : Expr)
  deriving DecidableEq, Repr

/-- A statement with the line it starts on, counted from one. -/
structure Line where
  number : Nat
  statement : Statement
  deriving DecidableEq, Repr

/-- `BlockSource`: statements without a blank line between them. -/
structure Paragraph where
  /-- The comment directly above, if any. -/
  title : Option String
  firstLine : Nat
  lines : List Line
  deriving DecidableEq, Repr

end Ripple.Program
