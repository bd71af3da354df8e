import Ripple.Program.Lexer
import Ripple.Program.Syntax

/-!
# Reading expressions

Binary operators come in five tiers. The operators of one tier group to the left, and an
operand of a tier is an expression of the next tighter one:

    5  |
    4  &
    3  <  >  <=  >=  ==  !=
    2  +  -
    1  *  /

Tighter still are the prefix operators `-` and `!`. Tightest is `^`, whose right operand may
again have a prefix, so that it groups to the right.

Every function here gives what it read together with the tokens it left, and with the reason
why they are fewer than before.
-/

namespace Ripple.Program

/-- Tokens that are left after some were read. -/
abbrev After (ts : List Token) := { rest : List Token // rest.length < ts.length }

/-- Tokens that are left after some or none were read. -/
abbrev Within (ts : List Token) := { rest : List Token // rest.length ≤ ts.length }

/-- The binary operator of a tier that a token writes. -/
def operator? : Nat → Token → Option BinaryOp
  | 1, .star => some .mul
  | 1, .slash => some .div
  | 2, .plus => some .add
  | 2, .minus => some .sub
  | 3, .less => some .lt
  | 3, .greater => some .gt
  | 3, .lessEqual => some .le
  | 3, .greaterEqual => some .ge
  | 3, .same => some .eq
  | 3, .different => some .ne
  | 4, .ampersand => some .and
  | 5, .pipe => some .or
  | _, _ => none

/-- The prefix operator that a token writes. -/
def prefixOperator? : Token → Option UnaryOp
  | .minus => some .neg
  | .bang => some .not
  | _ => none

/-- The number of the loosest tier. -/
def loosest : Nat := 5

/-- The name of the column at a position: the position itself, in 64 bits. -/
def positionName? (n : Number) : Option String :=
  ((n.toInt?.map Int.toNat).filter (1 ≤ ·)).map fun position => toString (min position (UInt64.size - 1))

/-- `parse_column_name`: a word, or a position counted from one. -/
def readColumnName : (ts : List Token) → Except SyntaxFault (String × After ts)
  | .word name :: rest => .ok (name, ⟨rest, by simp⟩)
  | .number n :: rest =>
    match positionName? n with
    | some name => .ok (name, ⟨rest, by simp⟩)
    | none => .error (.columnName (.number n :: rest))
  | ts => .error (.columnName ts)

/-- The column after a table name, if a dot follows. -/
def readColumn? : (ts : List Token) → Except SyntaxFault (Option String × Within ts)
  | .dot :: rest =>
    match readColumnName rest with
    | .error fault => .error fault
    | .ok (name, ⟨after, shorter⟩) =>
      .ok (some name, ⟨after, by simp only [List.length_cons]; omega⟩)
  | ts => .ok (none, ⟨ts, Nat.le_refl _⟩)

mutual

/-- An expression of a tier; tier zero has no binary operators but `^`. The tiers above it are those
of `parse_mul_div`, `parse_add_sub`, `parse_comparison`, `parse_and` and `parse_or`. -/
def readTier (tier : Nat) (ts : List Token) : Except SyntaxFault (Expr × After ts) :=
  match tier with
  | 0 => readUnary ts
  | tighter + 1 =>
    match readTier tighter ts with
    | .error fault => .error fault
    | .ok (left, ⟨rest, shorter⟩) =>
      match readOperands (tighter + 1) left rest with
      | .error fault => .error fault
      | .ok (e, ⟨after, within⟩) => .ok (e, ⟨after, by omega⟩)
termination_by (ts.length, tier + 3)

/-- The operators of a tier that follow a first operand, with their right operands. -/
def readOperands (tier : Nat) (left : Expr) (ts : List Token) :
    Except SyntaxFault (Expr × Within ts) :=
  match ts with
  | [] => .ok (left, ⟨[], Nat.le_refl _⟩)
  | token :: more =>
    match operator? tier token with
    | none => .ok (left, ⟨token :: more, Nat.le_refl _⟩)
    | some op =>
      match readTier (tier - 1) more with
      | .error fault => .error fault
      | .ok (right, ⟨rest, shorter⟩) =>
        match readOperands tier (.binary op left right) rest with
        | .error fault => .error fault
        | .ok (e, ⟨after, within⟩) =>
          .ok (e, ⟨after, Nat.le_succ_of_le (Nat.le_trans within (Nat.le_of_lt shorter))⟩)
termination_by (ts.length, 0)

/-- `parse_unary`: an expression with any number of prefix operators. -/
def readUnary (ts : List Token) : Except SyntaxFault (Expr × After ts) :=
  match ts with
  | [] => .error .endOfExpression
  | token :: more =>
    match prefixOperator? token with
    | some op =>
      match readUnary more with
      | .error fault => .error fault
      | .ok (operand, ⟨rest, shorter⟩) =>
        .ok (.unary op operand, ⟨rest, by simp only [List.length_cons]; omega⟩)
    | none => readPower (token :: more)
termination_by (ts.length, 2)

/-- `parse_power`: a primary expression, possibly raised to a power. -/
def readPower (ts : List Token) : Except SyntaxFault (Expr × After ts) :=
  match readPrimary ts with
  | .error fault => .error fault
  | .ok (base, ⟨rest, shorter⟩) =>
    match rest with
    | .caret :: more =>
      have : more.length < ts.length := Nat.lt_of_succ_lt shorter
      match readUnary more with
      | .error fault => .error fault
      | .ok (exponent, ⟨after, shorter'⟩) =>
        .ok (.binary .pow base exponent, ⟨after, by omega⟩)
    | rest => .ok (base, ⟨rest, shorter⟩)
termination_by (ts.length, 1)

/-- `parse_primary`: a literal, a name, a column or an expression in parentheses. -/
def readPrimary (ts : List Token) : Except SyntaxFault (Expr × After ts) :=
  match ts with
  | [] => .error .endOfExpression
  | .number n :: rest => .ok (.number n, ⟨rest, by simp⟩)
  | .text s :: rest => .ok (.text s, ⟨rest, by simp⟩)
  | .word name :: rest =>
    let e : Expr :=
      if name = "true" then .bool true else if name = "false" then .bool false else .name name
    .ok (e, ⟨rest, by simp⟩)
  | .table table :: rest =>
    match readColumn? rest with
    | .error fault => .error fault
    | .ok (column, ⟨after, within⟩) =>
      match after with
      | .openBrace :: inside =>
        have : inside.length < rest.length := within
        match readTier loosest inside with
        | .error fault => .error fault
        | .ok (index, ⟨closing, shorter⟩) =>
          match closing with
          | .closeBrace :: after =>
            .ok (.pick table column index, ⟨after, by simp only [List.length_cons] at *; omega⟩)
          | _ => .error .openIndex
      | after => .ok (.column table column, ⟨after, by simp only [List.length_cons] at *; omega⟩)
  | .openParen :: rest =>
    match readTier loosest rest with
    | .error fault => .error fault
    | .ok (e, ⟨closing, shorter⟩) =>
      match closing with
      | .closeParen :: after => .ok (e, ⟨after, by simp only [List.length_cons] at *; omega⟩)
      | _ => .error .openParen
  | token :: _ => .error (.inExpression token)
termination_by (ts.length, 0)

end

/-- An expression at the head of the tokens. -/
def readExpr (ts : List Token) : Except SyntaxFault (Expr × After ts) := readTier loosest ts

/-- `parse_index`: an index in braces, if one follows. -/
def readIndex? : (ts : List Token) → Except SyntaxFault (Option Expr × Within ts)
  | .openBrace :: inside =>
    match readExpr inside with
    | .error fault => .error fault
    | .ok (index, ⟨closing, shorter⟩) =>
      match closing with
      | .closeBrace :: after =>
        .ok (some index, ⟨after, by simp only [List.length_cons] at *; omega⟩)
      | _ => .error .openIndex
  | ts => .ok (none, ⟨ts, Nat.le_refl _⟩)

end Ripple.Program
