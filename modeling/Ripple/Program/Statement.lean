import Ripple.Program.Expression

/-!
# Reading statements

A statement is recognised by its first tokens. Table literals come in three forms: rows under
a header of column names, a record of named cells, and rows without names.
-/

namespace Ripple.Program

/-- Words that are values and can name nothing. -/
def isReserved (name : String) : Bool := name = "true" || name = "false"

/-! ## Table literals -/

/-- The named cells of a record up to its closing bracket. Commas and line feeds may stand
between them; `before` holds the names read so far. -/
def readFields (before : List String) (ts : List Token) :
    Except SyntaxFault (List (String × Expr) × After ts) :=
  match ts with
  | [] => .error .openBracket
  | .closeBracket :: rest => .ok ([], ⟨rest, by simp⟩)
  | .comma :: rest | .newline :: rest =>
    match readFields before rest with
    | .error fault => .error fault
    | .ok (fields, ⟨after, shorter⟩) =>
      .ok (fields, ⟨after, by simp only [List.length_cons]; omega⟩)
  | .word name :: .colon :: rest =>
    if name ∈ before then .error (.duplicateColumn name)
    else
      match readUnary rest with
      | .error fault => .error fault
      | .ok (cell, ⟨more, shorter⟩) =>
        match readFields (name :: before) more with
        | .error fault => .error fault
        | .ok (fields, ⟨after, shorter'⟩) =>
          .ok ((name, cell) :: fields, ⟨after, by simp only [List.length_cons]; omega⟩)
  | token :: _ => .error (.recordField token)
termination_by ts.length
decreasing_by all_goals simp only [List.length_cons]; omega

/-- The column names of a header and the tokens after its bar, if the tokens start with a
header. Line feeds may stand between the names. -/
def readHeader? : (ts : List Token) → Option (List String × Within ts)
  | .word name :: rest =>
    if isReserved name then none
    else
      match readHeader? rest with
      | none => none
      | some (names, ⟨after, within⟩) =>
        some (name :: names, ⟨after, by simp only [List.length_cons]; omega⟩)
  | .newline :: rest =>
    match readHeader? rest with
    | none => none
    | some (names, ⟨after, within⟩) =>
      some (names, ⟨after, by simp only [List.length_cons]; omega⟩)
  | .pipe :: rest => some ([], ⟨rest, by simp⟩)
  | _ => none

/-- A row in front of others, unless it is empty. -/
def addRow (row : List Expr) (rows : List (List Expr)) : List (List Expr) :=
  if row.isEmpty then rows else row :: rows

/-- Rows of cells up to the closing bracket. Semicolons and line feeds end a row, and commas
may stand between cells; `row` holds the cells of the row so far. -/
def readRows (row : List Expr) (ts : List Token) :
    Except SyntaxFault (List (List Expr) × After ts) :=
  match ts with
  | [] => .error .openBracket
  | .closeBracket :: rest => .ok (addRow row [], ⟨rest, by simp⟩)
  | .semicolon :: rest | .newline :: rest =>
    match readRows [] rest with
    | .error fault => .error fault
    | .ok (rows, ⟨after, shorter⟩) =>
      .ok (addRow row rows, ⟨after, by simp only [List.length_cons]; omega⟩)
  | .comma :: rest =>
    match readRows row rest with
    | .error fault => .error fault
    | .ok (rows, ⟨after, shorter⟩) => .ok (rows, ⟨after, by simp only [List.length_cons]; omega⟩)
  | token :: more =>
    match readUnary (token :: more) with
    | .error fault => .error fault
    | .ok (cell, ⟨rest, shorter⟩) =>
      match readRows (row ++ [cell]) rest with
      | .error fault => .error fault
      | .ok (rows, ⟨after, shorter'⟩) => .ok (rows, ⟨after, by omega⟩)
termination_by ts.length
decreasing_by all_goals simp only [List.length_cons] at *; omega

/-- The first name that occurs a second time. -/
def firstDuplicate? (before : List String) : List String → Option String
  | [] => none
  | name :: names => if name ∈ before then some name else firstDuplicate? (name :: before) names

/-- The first row, counted from one, whose length is not the width, with its length. -/
def firstRagged? (width : Nat) (rows : List (List Expr)) : Option (Nat × Nat) :=
  (rows.zipIdx 1).findSome? fun (row, i) =>
    if row.length = width then none else some (i, row.length)

/-- A literal without the names of a record, once its rows are of one length. -/
def checkedLiteral (columns : List String) (rows : List (List Expr)) : Except SyntaxFault Literal :=
  let literal : Literal := ⟨columns, rows⟩
  match firstRagged? literal.width rows with
  | some (row, found) => .error (.raggedRow row found literal.width)
  | none => .ok literal

/-- Whether tokens start with a named cell. -/
def startsRecord : List Token → Bool
  | .word _ :: .colon :: _ => true
  | _ => false

/-- `parse_literal`: a table literal, from after its opening bracket. -/
def readLiteral (ts : List Token) : Except SyntaxFault (Literal × List Token) :=
  let start := ts.dropWhile (· = .newline)
  if startsRecord start then
    match readFields [] start with
    | .error fault => .error fault
    | .ok (fields, ⟨after, _⟩) =>
      .ok (⟨fields.map Prod.fst, [fields.map Prod.snd]⟩, after)
  else
    let (columns, body) := match readHeader? start with
      | some (names, ⟨body, _⟩) => (names, body)
      | none => ([], start)
    match firstDuplicate? [] columns with
    | some name => .error (.duplicateColumn name)
    | none =>
      match readRows [] body with
      | .error fault => .error fault
      | .ok (rows, ⟨after, _⟩) =>
        match checkedLiteral columns rows with
        | .error fault => .error fault
        | .ok literal => .ok (literal, after)

/-! ## Statements -/

/-- The token that sets a column, as an operation. -/
def setOperator? : Token → Option SetOp
  | .becomes => some .assign
  | .becomesSum => some .add
  | .becomesDifference => some .sub
  | .becomesProduct => some .mul
  | .becomesQuotient => some .div
  | _ => none

/-- `parse_watch`: what a block watches, from after the tilde. -/
def readWatch : List Token → Except SyntaxFault (Statement × List Token)
  | .table table :: rest =>
    match readColumn? rest with
    | .error fault => .error fault
    | .ok (column, after) => .ok (.watch table column, after)
  | _ => .error .watchTarget

/-- The setting of a column, from the column name on. -/
def readSet (table : String) (ts : List Token) : Except SyntaxFault (Statement × List Token) := do
  let (column, rest) ← readColumnName ts
  let (index, rest) ← readIndex? rest
  match rest.val with
  | .equals :: _ => .error (.equalsForColumn table column)
  | found =>
    match found.head?.bind setOperator? with
    | none => .error (.setOperator table column found)
    | some op =>
      let (value, after) ← readExpr found.tail
      return (.set table column index op value, after)

/-- `parse_table_statement`: a statement about a table, from after its name. -/
def readTableStatement (table : String) : List Token → Except SyntaxFault (Statement × List Token)
  | .equals :: .openBracket :: rest => do
    let (literal, after) ← readLiteral rest
    return (.define table (.literal literal), after)
  | .equals :: rest => do
    let (value, after) ← readExpr rest
    return (.define table (.formula value), after)
  | .extend :: .openBracket :: rest => do
    let (literal, after) ← readLiteral rest
    return (.append table literal, after)
  | .extend :: _ => .error (.appendTarget table)
  | .dot :: rest => readSet table rest
  | found => .error (.tableOperator table found)

/-- A statement at the head of the tokens. -/
def readStatementHead : List Token → Except SyntaxFault (Statement × List Token)
  | [] => .error .emptyStatement
  | .tilde :: rest => readWatch rest
  | .table name :: rest => readTableStatement name rest
  | .word name :: .equals :: rest =>
    if isReserved name then .error (.reservedName name)
    else do
      let (value, after) ← readExpr rest
      return (.assign name value, after)
  | token :: _ => .error (.noStatement token)

/-- `parse_statement`: a statement that makes up all of a text. -/
def readStatement (cs : List Char) : Except SyntaxFault Statement := do
  let ts ← tokenize cs
  let (statement, rest) ← readStatementHead ts
  match rest with
  | [] => return statement
  | token :: _ => .error (.trailing token)

end Ripple.Program
