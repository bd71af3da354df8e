/-!
# Numbers

A number cell holds an IEEE 754 double, kept as its 64 bits. Two numbers are the same cell
content when their bits agree; they are equal in a formula when the doubles compare equal.
The difference shows at the two zeros, which are equal but not the same, and at the values
that are not a number, which are never equal but may well be the same.
-/

namespace Ripple

/-- A double, by its bits: sign, eleven bits of exponent, 52 bits of fraction. -/
structure Number where
  /-- The bits, sign first. -/
  bits : UInt64
  deriving DecidableEq, Inhabited, Repr

namespace Number

/-- The number a machine double stands for. -/
def ofFloat (x : Float) : Number := ⟨x.toBits⟩

/-- The machine double with these bits. -/
def toFloat (n : Number) : Float := Float.ofBits n.bits

/-- A power of ten. -/
def tenTo (exponent : Nat) : Nat := Nat.pow 10 exponent

/-! ## The parts of a number -/

/-- Whether the sign bit is set. -/
def isNegative (n : Number) : Bool := 0x8000000000000000 ≤ n.bits.toNat

/-- The bits without the sign; as a number they grow with the magnitude. -/
def magnitude (n : Number) : Nat := n.bits.toNat % 0x8000000000000000

/-- The leading bit of a significand: two to the power 52. -/
def leadingBit : Nat := 0x10000000000000

/-- The biased exponent. -/
def exponentField (n : Number) : Nat := n.magnitude / leadingBit

/-- The 52 bits after the leading bit. -/
def fractionField (n : Number) : Nat := n.magnitude % leadingBit

/-- The bits of an infinity without the sign. -/
def infiniteMagnitude : Nat := 2047 * leadingBit

def isNaN (n : Number) : Bool := infiniteMagnitude < n.magnitude
def isInfinite (n : Number) : Bool := n.magnitude = infiniteMagnitude
def isFinite (n : Number) : Bool := n.magnitude < infiniteMagnitude

/-- Either of the two zeros. -/
def isZero (n : Number) : Bool := n.magnitude = 0

/-- The magnitude of a finite number as `significand * 2 ^ exponent`. -/
structure Scaled where
  /-- A whole number below `2 ^ 53`. -/
  significand : Nat
  /-- The power of two it is multiplied by, at least -1074. -/
  exponent : Int
  deriving DecidableEq, Repr

/-- Reads the fields of a finite number. Below the least normal exponent there is no implicit
leading bit. -/
def scaled (n : Number) : Scaled :=
  if n.exponentField = 0 then ⟨n.fractionField, -1074⟩
  else ⟨n.fractionField + leadingBit, (n.exponentField : Int) - 1075⟩

/-- The integer a finite number with no fractional part is. -/
def toInt? (n : Number) : Option Int :=
  let sign : Int := if n.isNegative then -1 else 1
  let part := n.scaled
  let down := 1 <<< (-part.exponent).toNat
  if ¬ n.isFinite then none
  else if part.significand % down = 0 then
    some (sign * ((part.significand / down) <<< part.exponent.toNat : Nat))
  else none

/-! ## Special numbers -/

def zero : Number := ⟨0⟩
def negativeZero : Number := ⟨0x8000000000000000⟩
def one : Number := ⟨0x3ff0000000000000⟩
def infinity : Number := ⟨0x7ff0000000000000⟩

/-- The value that the text `NaN` reads as. -/
def notANumber : Number := ⟨0x7ff8000000000000⟩

/-- The result of an operation that has no value, such as infinity less infinity. -/
def invalid : Number := ⟨0xfff8000000000000⟩

/-- Marks a value that is not a number as one that raises no signal. -/
def quiet (n : Number) : Number := ⟨n.bits ||| 0x0008000000000000⟩

/-! ## Arithmetic -/

/-- Flips the sign, of a value that is not a number too. -/
def neg (n : Number) : Number := ⟨n.bits ^^^ 0x8000000000000000⟩

/-- An arithmetic operation on doubles. The first operand that is not a number is the result;
an operation without a value gives `invalid`. -/
def lift (op : Float → Float → Float) (x y : Number) : Number :=
  if x.isNaN then x.quiet
  else if y.isNaN then y.quiet
  else
    let result := ofFloat (op x.toFloat y.toFloat)
    if result.isNaN then invalid else result

def add (x y : Number) : Number := lift (· + ·) x y
def sub (x y : Number) : Number := lift (· - ·) x y
def mul (x y : Number) : Number := lift (· * ·) x y
def div (x y : Number) : Number := lift (· / ·) x y

/-- Whether an operation on a value that is not a number raises a signal. -/
def isSignaling (n : Number) : Bool := n.isNaN && 2 * n.fractionField < leadingBit

/-- Whether a number is an odd integer. -/
def isOdd (n : Number) : Bool := n.toInt?.any (· % 2 = 1)

/-- Exponentiation. The power zero of anything and any power of one are one, even where the
other operand is not a number, unless that raises a signal. Where the base is not a number it
is the result, as far as its sign does not change in an odd power. -/
def pow (x y : Number) : Number :=
  if (y.isZero ∧ ¬ x.isSignaling) ∨ (x = one ∧ ¬ y.isSignaling) then one
  else if x.isNaN ∧ x.isNegative ∧ y.isOdd then x.quiet.neg
  else lift Float.pow x y

/-! ## Comparison -/

/-- Equality of doubles: the zeros are equal, and what is not a number equals nothing. -/
def equals (x y : Number) : Bool := x.toFloat == y.toFloat

/-- Strict order of doubles; false where an operand is not a number. -/
def less (x y : Number) : Bool := x.toFloat < y.toFloat

end Number

end Ripple
