import Ripple.Program.EvalFault

/-!
# Operators on values

Operators work on single values and are carried over to columns by broadcasting: a column of
one value goes with a column of any length, other columns have to be of equal length.
-/

namespace Ripple.Program

/-- An arithmetic operation. Division by either zero is a fault. -/
def arithmetic (op : BinaryOp) (x y : Number) : Except EvalFault Number :=
  match op with
  | .add => .ok (x.add y)
  | .sub => .ok (x.sub y)
  | .mul => .ok (x.mul y)
  | .div => if y.isZero then .error .divisionByZero else .ok (x.div y)
  | _ => .ok (x.pow y)

/-- An order of two values of one kind, from whether the first comes before the second, they
are equal, or the first comes after. -/
def ordered (op : BinaryOp) (before same after : Bool) : Bool :=
  match op with
  | .lt => before
  | .gt => after
  | .le => before || same
  | _ => after || same

/-- `binary`: an operator with two values. Equality takes values of one kind, order takes numbers or
texts, and texts are ordered by their code points. -/
def BinaryOp.apply (op : BinaryOp) (a b : Value) : Except EvalFault Value :=
  let mismatch := .error (.operands op a.kind b.kind)
  match op with
  | .add | .sub | .mul | .div | .pow =>
    match a, b with
    | .number x, .number y => (arithmetic op x y).map .number
    | _, _ => mismatch
  | .eq => if a.kind = b.kind then .ok (.bool (a.equals b)) else mismatch
  | .ne => if a.kind = b.kind then .ok (.bool (! a.equals b)) else mismatch
  | .lt | .gt | .le | .ge =>
    match a, b with
    | .number x, .number y => .ok (.bool (ordered op (x.less y) (x.equals y) (y.less x)))
    | .text x, .text y => .ok (.bool (ordered op (x < y) (x = y) (y < x)))
    | _, _ => mismatch
  | .and =>
    match a, b with
    | .bool x, .bool y => .ok (.bool (x && y))
    | _, _ => mismatch
  | .or =>
    match a, b with
    | .bool x, .bool y => .ok (.bool (x || y))
    | _, _ => mismatch

/-- `unary`: an operator with one value. -/
def UnaryOp.apply : UnaryOp → Value → Except EvalFault Value
  | .neg, .number n => .ok (.number n.neg)
  | .not, .bool b => .ok (.bool (! b))
  | op, v => .error (.operand op v.kind)

/-- `broadcast` applies an operation along two columns. -/
def broadcast (f : Value → Value → Except EvalFault Value) :
    List Value → List Value → Except EvalFault (List Value)
  | [a], right => right.mapM (f a)
  | left, [b] => left.mapM (f · b)
  | left, right =>
    if left.length = right.length then (left.zip right).mapM fun (a, b) => f a b
    else .error (.lengths left.length right.length)

/-! ## Picking rows -/

/-- The rows where a mask is true, counted from a first row on. -/
def maskRows (first : Nat) : List Bool → List Nat
  | [] => []
  | true :: mask => first :: maskRows (first + 1) mask
  | false :: mask => maskRows (first + 1) mask

/-- The row, counted from zero, that a number counts from one. -/
def rowOf (rowCount : Nat) : Value → Except EvalFault Nat
  | .number n =>
    match n.toInt? with
    | some k =>
      if 1 ≤ k ∧ k ≤ rowCount then .ok (k.toNat - 1) else .error (.noSuchRow n rowCount)
    | none => .error (.noSuchRow n rowCount)
  | v => .error (.indexKind v.kind)

/-- `select`: the rows that an index picks. A single truth value stands for all rows or none, other
truth values are a mask, and numbers name rows counted from one. -/
def pickRows (index : List Value) (rowCount : Nat) : Except EvalFault (List Nat) :=
  match index.mapM Value.bool? with
  | some [all] => .ok (if all then List.range rowCount else [])
  | some mask =>
    if mask.length = rowCount then .ok (maskRows 0 mask)
    else .error (.maskLength mask.length rowCount)
  | none => index.mapM (rowOf rowCount)

end Ripple.Program
