import Ripple.Number.Layout
import Ripple.Text.Quoted

/-!
# Tokens

The words of the table language, and how a message describes one.
-/

namespace Ripple.Program

/-- A word of the language. -/
inductive Token where
  | number (n : Number)
  | text (s : String)
  /-- A table name, without the hash sign. -/
  | table (name : String)
  | word (name : String)
  | dot
  | tilde
  | openBrace
  | closeBrace
  | openBracket
  | closeBracket
  | openParen
  | closeParen
  | pipe
  | semicolon
  | comma
  | colon
  | newline
  /-- `=` -/
  | equals
  /-- `:=` -/
  | becomes
  /-- `:+=` -/
  | becomesSum
  /-- `:-=` -/
  | becomesDifference
  /-- `:*=` -/
  | becomesProduct
  /-- `:/=` -/
  | becomesQuotient
  /-- `+=` -/
  | extend
  | plus
  | minus
  | star
  | slash
  | caret
  | less
  | greater
  | lessEqual
  | greaterEqual
  /-- `==` -/
  | same
  /-- `!=` -/
  | different
  | bang
  | ampersand
  deriving DecidableEq, Repr

namespace Token

/-- A token as it is shown in messages: the name of its class, with its content if it has one. -/
def describe : Token → String
  | number n => s!"Number({Number.Layout.descriptive.render n})"
  | text s => s!"StringLit({Text.quoted s})"
  | table name => s!"Table({Text.quoted name})"
  | word name => s!"Ident({Text.quoted name})"
  | dot => "Dot"
  | tilde => "Tilde"
  | openBrace => "LBrace"
  | closeBrace => "RBrace"
  | openBracket => "LBracket"
  | closeBracket => "RBracket"
  | openParen => "LParen"
  | closeParen => "RParen"
  | pipe => "Pipe"
  | semicolon => "Semicolon"
  | comma => "Comma"
  | colon => "Colon"
  | newline => "Newline"
  | equals => "Assign"
  | becomes => "Define"
  | becomesSum => "AddAssign"
  | becomesDifference => "SubAssign"
  | becomesProduct => "MulAssign"
  | becomesQuotient => "DivAssign"
  | extend => "AppendAssign"
  | plus => "Plus"
  | minus => "Minus"
  | star => "Star"
  | slash => "Slash"
  | caret => "Caret"
  | less => "Lt"
  | greater => "Gt"
  | lessEqual => "LtEq"
  | greaterEqual => "GtEq"
  | same => "EqEq"
  | different => "NotEq"
  | bang => "Bang"
  | ampersand => "Amp"

/-- What a message says was found at the head of the remaining tokens. -/
def describeHead : List Token → String
  | [] => "None"
  | token :: _ => s!"Some({token.describe})"

end Token

end Ripple.Program
