import Ripple.Program.SyntaxFault
import Ripple.Value

/-!
# Compile errors

Why a text is not a program, and on which line that shows.
-/

namespace Ripple.Program

/-- What is wrong with a program. -/
inductive CompileFault where
  /-- A statement is malformed. -/
  | malformed (fault : SyntaxFault)
  /-- Two declarations are of one table. -/
  | declaredTwice (table : String)
  /-- A column of a declared table, counted from one, has values of two kinds; `row` is the
  first row with the second kind. -/
  | mixedKinds (table : String) (column : Nat) (expected found : Kind) (row : Nat)
  /-- A name is used that no earlier statement of its block gave a value. -/
  | unknownName (name : String)
  /-- A fault in the words of whoever found it. -/
  | reported (message : String)
  deriving DecidableEq, Repr

/-- The fault as it is shown to people. -/
def CompileFault.message : CompileFault → String
  | .malformed fault => fault.message
  | .declaredTwice table => s!"table #{table} is declared more than once"
  | .mixedKinds table column expected found row =>
    s!"#{table}: column {column} mixes {expected.name} and {found.name} values (row {row})"
  | .unknownName name => s!"unknown local '{name}'"
  | .reported message => message

/-- A fault of a program with its line. -/
structure CompileError where
  /-- The line, counted from one; zero for a fault of the program as a whole. -/
  line : Nat
  fault : CompileFault
  deriving DecidableEq, Repr

/-- The error as it is shown to people. -/
def CompileError.message (e : CompileError) : String :=
  if e.line = 0 then s!"compile error: {e.fault.message}"
  else s!"compile error at line {e.line}: {e.fault.message}"

end Ripple.Program
