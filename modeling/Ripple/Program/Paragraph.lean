import Ripple.Program.CompileError
import Ripple.Program.Statement
import Ripple.Text.Blank
import Ripple.Text.Lines

/-!
# Reading programs

Blank lines divide a program into paragraphs of statements, one statement to a line. A line
with more opening than closing brackets goes on until the brackets are balanced. Lines that
start with `--` are comments; the first one after a blank line that says something, if it comes
before the statements, is the title of the paragraph.
-/

namespace Ripple.Program

/-- Where a character stands with respect to quotes. -/
inductive Quoting where
  | outside
  | inside
  /-- Inside, after a backslash. -/
  | escaped
  deriving DecidableEq, Repr

/-- `bracket_depth`: the number of opening over closing brackets from here to the end of a line,
leaving out those inside quotes. -/
def bracketBalance : Quoting → List Char → Int
  | _, [] => 0
  | .escaped, _ :: rest => bracketBalance .inside rest
  | .inside, c :: rest =>
    bracketBalance (if c = '\\' then .escaped else if c = '"' then .outside else .inside) rest
  | .outside, c :: rest =>
    if c = '"' then bracketBalance .inside rest
    else if c = '[' then bracketBalance .outside rest + 1
    else if c = ']' then bracketBalance .outside rest - 1
    else bracketBalance .outside rest

/-- A statement whose brackets are not balanced yet. -/
structure OpenStatement where
  /-- The number of its first line. -/
  start : Nat
  /-- Its lines so far, with line feeds between them. -/
  text : List Char
  /-- The number of brackets to be closed, which is positive. -/
  depth : Int
  deriving DecidableEq, Repr

/-- What was read of a program up to the end of a line. -/
structure Reading where
  /-- The paragraphs that are complete, the latest first. -/
  complete : List Paragraph
  /-- The paragraph that statements are added to. -/
  current : Option Paragraph
  /-- The title for the next paragraph. -/
  title : Option String
  /-- The statement that goes on in the next line. -/
  unfinished : Option OpenStatement
  deriving DecidableEq, Repr

/-- Before the first line. -/
def Reading.start : Reading := ⟨[], none, none, none⟩

/-- `push_line` adds a statement to the paragraph, which the first statement opens. -/
def Reading.addStatement (r : Reading) (number : Nat) (statement : Statement) : Reading :=
  match r.current with
  | some p => { r with current := some { p with lines := p.lines ++ [⟨number, statement⟩] } }
  | none => { r with current := some ⟨r.title, number, [⟨number, statement⟩]⟩, title := none }

/-- Ends the paragraph, if one was begun, and forgets the title. -/
def Reading.endParagraph (r : Reading) : Reading :=
  match r.current with
  | some p => { r with complete := p :: r.complete, current := none, title := none }
  | none => { r with title := none }

/-- Takes a comment as the title if the paragraph has neither title nor statements. -/
def Reading.addComment (r : Reading) (comment : List Char) : Reading :=
  if r.current = none ∧ r.title = none ∧ ¬ comment.isEmpty then
    { r with title := some (String.ofList comment) }
  else r

/-- What a comment line says; `none` for other lines. -/
def comment? : List Char → Option (List Char)
  | '-' :: '-' :: rest => some (Text.trim rest)
  | _ => none

/-- Reads the text of a statement that starts on a line, or leaves it open if brackets are to
be closed. -/
def Reading.addText (r : Reading) (s : OpenStatement) : Except CompileError Reading :=
  if 0 < s.depth then .ok { r with unfinished := some s }
  else
    match readStatement s.text with
    | .error fault => .error ⟨s.start, .malformed fault⟩
    | .ok statement => .ok ({ r with unfinished := none }.addStatement s.start statement)

/-- Continues an open statement with a line. Blank lines and comments add nothing to it. -/
def OpenStatement.addLine (s : OpenStatement) (line : List Char) : OpenStatement :=
  if line.isEmpty ∨ (comment? line).isSome then s
  else
    { s with
      text := s.text ++ '\n' :: line
      depth := s.depth + bracketBalance .outside line }

/-- Reads the line with a number, without the white space around it. -/
def Reading.addLine (r : Reading) (number : Nat) (line : List Char) :
    Except CompileError Reading :=
  match r.unfinished with
  | some s => r.addText (s.addLine line)
  | none =>
    if line.isEmpty then .ok r.endParagraph
    else
      match comment? line with
      | some comment => .ok (r.addComment comment)
      | none => r.addText ⟨number, line, bracketBalance .outside line⟩

/-- Reads lines from the one with a number on. -/
def Reading.addLines (r : Reading) (number : Nat) : List (List Char) → Except CompileError Reading
  | [] => .ok r
  | line :: rest => do
    let r ← r.addLine number (Text.trim line)
    r.addLines (number + 1) rest

/-- Ends the program. A statement whose brackets were never closed is at fault. -/
def Reading.finish (r : Reading) : Except CompileError (List Paragraph) :=
  match r.unfinished with
  | some s => .error ⟨s.start, .malformed .openBracket⟩
  | none => .ok r.endParagraph.complete.reverse

/-- `parse_program`: the paragraphs of a program, or the first fault in the text. -/
def readProgram (text : String) : Except CompileError (List Paragraph) := do
  let r ← Reading.start.addLines 1 (Text.lines text.toList)
  r.finish

end Ripple.Program
