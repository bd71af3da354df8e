import Ripple.Program.Token

/-!
# Syntax faults

Why a text is not a statement of the table language.
-/

namespace Ripple.Program

/-- The first fault of a statement. Where a token is at fault, `found` lists the tokens from
there on. -/
inductive SyntaxFault where
  | openText
  | tableNameMissing
  | strangeCharacter (c : Char)
  | reservedName (name : String)
  | noStatement (found : Token)
  | emptyStatement
  | trailing (found : Token)
  | watchTarget
  | appendTarget (table : String)
  | equalsForColumn (table column : String)
  | setOperator (table column : String) (found : List Token)
  | tableOperator (table : String) (found : List Token)
  | columnName (found : List Token)
  | openIndex
  | duplicateColumn (name : String)
  | recordField (found : Token)
  | openBracket
  | raggedRow (row found expected : Nat)
  | endOfExpression
  | openParen
  | inExpression (found : Token)
  deriving DecidableEq, Repr

/-- The fault as it is shown to people. -/
def SyntaxFault.message : SyntaxFault → String
  | .openText => "unterminated string literal"
  | .tableNameMissing => "expected a table name after '#'"
  | .strangeCharacter c => s!"unexpected character '{c}'"
  | .reservedName name => s!"'{name}' cannot be used as a local name"
  | .noStatement found => s!"expected a statement, found {found.describe}"
  | .emptyStatement => "empty statement"
  | .trailing found => s!"unexpected {found.describe} after statement"
  | .watchTarget => "expected '#table' or '#table.column' after '~'"
  | .appendTarget table => s!"expected '[' after '#{table} +='"
  | .equalsForColumn table column => s!"use ':=' to set column #{table}.{column}"
  | .setOperator table column found =>
    s!"expected ':=' after #{table}.{column}, found {Token.describeHead found}"
  | .tableOperator table found =>
    s!"expected '=', '+=' or '.column' after #{table}, found {Token.describeHead found}"
  | .columnName found => s!"expected a column name, found {Token.describeHead found}"
  | .openIndex => "expected '\x7d' to close index"
  | .duplicateColumn name => s!"duplicate column '{name}'"
  | .recordField found => s!"expected 'name: value' in record, found {found.describe}"
  | .openBracket => "unclosed '['"
  | .raggedRow row found expected => s!"row {row} has {found} value(s), expected {expected}"
  | .endOfExpression => "unexpected end of expression"
  | .openParen => "expected ')'"
  | .inExpression found => s!"unexpected {found.describe} in expression"

end Ripple.Program
