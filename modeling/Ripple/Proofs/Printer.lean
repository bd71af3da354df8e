import Ripple.Program.Paragraph

/-!
Programs as they are printed. A statement is printed on one line, its tokens with a blank between them.
Operands and cells that are not atoms stand in parentheses. Passages follow one another with one blank
line between them, each under its title if it has one.

How a number is written is left open: `decimal` gives the digits before and after the point. A program is
`Printable` with it if its numbers are written by their decimals and its names are names.
-/

namespace Ripple.Program

/-! ## Tokens -/

/-- The digits before and after the point of a number. -/
abbrev Decimals := Number → List Char × List Char

/-- How a character is written between quotes. -/
def escapeChar (c : Char) : List Char :=
  if c = '\\' then ['\\', '\\'] else if c = '"' then ['\\', '"'] else if c = '\n' then ['\\', 'n'] else [c]

/-- A decimal, with a point only if there are digits after it. -/
def spellDecimal : List Char × List Char → List Char
  | (whole, []) => whole
  | (whole, fraction) => whole ++ '.' :: fraction

/-- A token as it is written. -/
def Token.spelling (decimal : Decimals) : Token → List Char
  | number n => spellDecimal (decimal n)
  | text s => '"' :: s.toList.flatMap escapeChar ++ ['"']
  | table name => '#' :: name.toList
  | word name => name.toList
  | dot => ['.']
  | tilde => ['~']
  | openBrace => ['\x7b']
  | closeBrace => ['\x7d']
  | openBracket => ['[']
  | closeBracket => [']']
  | openParen => ['(']
  | closeParen => [')']
  | pipe => ['|']
  | semicolon => [';']
  | comma => [',']
  | colon => [':']
  | newline => ['\n']
  | equals => ['=']
  | becomes => [':', '=']
  | becomesSum => [':', '+', '=']
  | becomesDifference => [':', '-', '=']
  | becomesProduct => [':', '*', '=']
  | becomesQuotient => [':', '/', '=']
  | extend => ['+', '=']
  | plus => ['+']
  | minus => ['-']
  | star => ['*']
  | slash => ['/']
  | caret => ['^']
  | less => ['<']
  | greater => ['>']
  | lessEqual => ['<', '=']
  | greaterEqual => ['>', '=']
  | same => ['=', '=']
  | different => ['!', '=']
  | bang => ['!']
  | ampersand => ['&']

/-- Tokens with a blank between them. -/
def spell (decimal : Decimals) (ts : List Token) : List Char :=
  [' '].intercalate (ts.map (Token.spelling decimal))

/-! ## Expressions -/

/-- The token of an operator with two operands. -/
def BinaryOp.token : BinaryOp → Token
  | pow => .caret
  | mul => .star
  | div => .slash
  | add => .plus
  | sub => .minus
  | lt => .less
  | gt => .greater
  | le => .lessEqual
  | ge => .greaterEqual
  | eq => .same
  | ne => .different
  | and => .ampersand
  | or => .pipe

/-- The token of an operator with one operand. -/
def UnaryOp.token : UnaryOp → Token
  | neg => .minus
  | not => .bang

/-- A table and its column, if one is named. -/
def pathTokens (table : String) : Option String → List Token
  | none => [.table table]
  | some column => [.table table, .dot, .word column]

/-- Puts the tokens of an expression in parentheses unless it is an atom. -/
def enclose : Expr → List Token → List Token
  | .unary .., ts | .binary .., ts => .openParen :: ts ++ [.closeParen]
  | _, ts => ts

/-- The tokens of an expression, with its operands in parentheses. -/
def Expr.tokens : Expr → List Token
  | number n => [.number n]
  | text s => [.text s]
  | bool true => [.word "true"]
  | bool false => [.word "false"]
  | name n => [.word n]
  | column t c => pathTokens t c
  | pick t c index => pathTokens t c ++ .openBrace :: index.tokens ++ [.closeBrace]
  | unary op e => op.token :: enclose e e.tokens
  | binary op a b => enclose a a.tokens ++ op.token :: enclose b b.tokens

/-- The tokens of an expression that stands beside others. -/
def Expr.operand (e : Expr) : List Token := enclose e e.tokens

/-! ## Statements -/

/-- The cells of a table literal, row by row. -/
def cellTokens (rows : List (List Expr)) : List Token :=
  [.semicolon].intercalate (rows.map (·.flatMap Expr.operand))

/-- The column names of a table literal, if it has any. -/
def headerTokens : List String → List Token
  | [] => []
  | columns => columns.map .word ++ [.pipe]

/-- A table literal from after its opening bracket. -/
def Literal.tokens (l : Literal) : List Token :=
  headerTokens l.columns ++ cellTokens l.rows ++ [.closeBracket]

/-- The token that sets a column. -/
def SetOp.token : SetOp → Token
  | assign => .becomes
  | add => .becomesSum
  | sub => .becomesDifference
  | mul => .becomesProduct
  | div => .becomesQuotient

/-- An index in braces, if there is one. -/
def indexTokens : Option Expr → List Token
  | none => []
  | some index => .openBrace :: index.tokens ++ [.closeBrace]

/-- The tokens of a statement. -/
def Statement.tokens : Statement → List Token
  | watch table column => .tilde :: pathTokens table column
  | define table (.literal l) => .table table :: .equals :: .openBracket :: l.tokens
  | define table (.formula e) => .table table :: .equals :: e.tokens
  | set table column index op value =>
    .table table :: .dot :: .word column :: indexTokens index ++ op.token :: value.tokens
  | append table rows => .table table :: .extend :: .openBracket :: rows.tokens
  | assign name value => .word name :: .equals :: value.tokens

/-- A statement on its line. -/
def Statement.spelling (decimal : Decimals) (s : Statement) : List Char := spell decimal s.tokens

/-! ## Programs -/

/-- Statements without a blank line between them, under a title if there is one. -/
structure Passage where
  title : Option String
  statements : List Statement
  deriving DecidableEq, Repr

/-- The comment line of a title. -/
def titleLine (title : String) : List Char := '-' :: '-' :: ' ' :: title.toList

/-- The lines of a passage. -/
def Passage.lines (decimal : Decimals) (p : Passage) : List (List Char) :=
  p.title.toList.map titleLine ++ p.statements.map (Statement.spelling decimal)

/-- The lines of passages, with a blank line between them. -/
def passageLines (decimal : Decimals) : List Passage → List (List Char)
  | [] => []
  | [p] => p.lines decimal
  | p :: q :: rest => p.lines decimal ++ [] :: passageLines decimal (q :: rest)

/-- The text of a program. -/
def printProgram (decimal : Decimals) (passages : List Passage) : String :=
  String.ofList ((passageLines decimal passages).flatMap (· ++ ['\n']))

/-! ## What can be printed -/

/-- The digits write the number. -/
structure WritesNumber (digits : List Char × List Char) (n : Number) : Prop where
  whole : digits.1 ≠ []
  digit : ∀ c ∈ digits.1 ++ digits.2, Number.isDigit c
  value : Number.ofDigits digits.1 digits.2 = n

/-- The name of a column, or of a value. -/
def IsName (name : String) : Prop :=
  ∃ c cs, name.toList = c :: cs ∧ isNameStart c ∧ ∀ d ∈ cs, isNameChar d

/-- A name that is not a value itself. -/
def IsFreeName (name : String) : Prop := IsName name ∧ name ≠ "true" ∧ name ≠ "false"

/-- The name of a table. -/
def IsTableName (name : String) : Prop := name.toList ≠ [] ∧ ∀ c ∈ name.toList, isTableChar c

/-- The table and the column are named by names. -/
def IsPath (table : String) (column : Option String) : Prop :=
  IsTableName table ∧ ∀ name ∈ column, IsName name

/-- The names of an expression are names, and its numbers are written by their decimals. -/
def Expr.Printable (decimal : Decimals) : Expr → Prop
  | number n => WritesNumber (decimal n) n
  | text _ | bool _ => True
  | name n => IsFreeName n
  | column t c => IsPath t c
  | pick t c index => IsPath t c ∧ index.Printable decimal
  | unary _ e => e.Printable decimal
  | binary _ a b => a.Printable decimal ∧ b.Printable decimal

/-- The rows of the literal are not empty and of one length, and its columns have different names. -/
structure Literal.Printable (decimal : Decimals) (l : Literal) : Prop where
  columns : ∀ name ∈ l.columns, IsFreeName name
  distinct : l.columns.Nodup
  nonempty : ∀ row ∈ l.rows, row ≠ []
  width : ∀ row ∈ l.rows, row.length = l.width
  cells : ∀ row ∈ l.rows, ∀ e ∈ row, e.Printable decimal

/-- The statement can be printed, part by part. -/
def Statement.Printable (decimal : Decimals) : Statement → Prop
  | watch table column => IsPath table column
  | define table (.literal l) => IsTableName table ∧ l.Printable decimal
  | define table (.formula e) => IsTableName table ∧ e.Printable decimal
  | set table column index _ value =>
    IsPath table (some column) ∧ (∀ e ∈ index, e.Printable decimal) ∧ value.Printable decimal
  | append table rows => IsTableName table ∧ rows.Printable decimal
  | assign name value => IsFreeName name ∧ value.Printable decimal

/-- The title says something, on one line and without white space around it. -/
structure IsTitle (title : String) : Prop where
  nonempty : title.toList ≠ []
  trimmed : Text.trim title.toList = title.toList
  oneLine : '\n' ∉ title.toList

/-- There are statements, and they and the title can be printed. -/
structure Passage.Printable (decimal : Decimals) (p : Passage) : Prop where
  title : ∀ title ∈ p.title, IsTitle title
  nonempty : p.statements ≠ []
  statements : ∀ s ∈ p.statements, s.Printable decimal

end Ripple.Program
