import Ripple.Text.Extending
import Ripple.Text.Printable
import Ripple.Text.Hex

/-!
# Quoted text

Text inside a message stands in double quotes. Quotes, backslashes and the common controls get
a short escape; other characters that would not show, or would be drawn over the quote before
them, are written by their code point.
-/

namespace Ripple.Text

/-- The code point of a character between braces. -/
def codeEscape (c : Char) : List Char :=
  ['\\', 'u', '\x7b'] ++ Hex.digits c.toNat ++ ['\x7d']

/-- How one character is written between quotes. -/
def quotedChar (c : Char) : List Char :=
  if c = '\x00' then ['\\', '0']
  else if c = '\t' then ['\\', 't']
  else if c = '\r' then ['\\', 'r']
  else if c = '\n' then ['\\', 'n']
  else if c = '\\' then ['\\', '\\']
  else if c = '"' then ['\\', '"']
  else if isExtending c then codeEscape c
  else if isPrintable c then [c]
  else codeEscape c

/-- A text in double quotes. -/
def quoted (text : String) : String :=
  String.ofList ('"' :: text.toList.flatMap quotedChar ++ ['"'])

end Ripple.Text
