import Ripple.Number

/-!
# The shortest decimal of a number

Among the decimals that read back as a given double, the ones with the fewest digits are
found on the coarsest decimal grid that has a point in the interval of reals rounding to the
double. Of the two neighbours of the double on that grid the nearer one is taken; which one
is taken at a tie is left to the format that asks.
-/

namespace Ripple.Number

/-- Which neighbour is taken when both are equally near. -/
inductive Tie where
  /-- The one further from zero. -/
  | away
  /-- The one whose last digit is even. -/
  | even
  deriving DecidableEq, Repr

/-- A positive decimal: digits without zeros at either end, and the power of ten of the first
digit. -/
structure Digits where
  /-- The digits, most significant first. -/
  digits : List Char
  /-- The power of ten of the first digit. -/
  exponent : Int
  deriving DecidableEq, Repr

/-- An interval of positive rationals around a value, over a common denominator. -/
structure Interval where
  low : Nat
  value : Nat
  high : Nat
  denominator : Nat
  /-- Whether the ends belong to the interval. -/
  closed : Bool

/-- The reals that round to a positive finite double. Below a power of two the neighbouring
doubles are twice as dense, except at the least normal exponent; the ends belong to the
interval when the significand is even, as ties are rounded to it. -/
def Scaled.interval (x : Scaled) : Interval :=
  let scale := 1 <<< x.exponent.toNat
  let narrow := x.significand = leadingBit ∧ -1074 < x.exponent
  { low := (4 * x.significand - if narrow then 1 else 2) * scale
    value := 4 * x.significand * scale
    high := (4 * x.significand + 2) * scale
    denominator := 4 <<< (-x.exponent).toNat
    closed := x.significand % 2 = 0 }

/-- Whether `point * unit / scale` lies in the interval. -/
def Interval.contains (i : Interval) (point unit scale : Nat) : Bool :=
  let x := point * unit * i.denominator
  let low := i.low * scale
  let high := i.high * scale
  if i.closed then low ≤ x && x ≤ high else low < x && x < high

/-- The point of the grid with step `unit / scale` that stands for the interval's value, if
one of the value's two neighbours on the grid lies in the interval. -/
def Interval.gridPoint? (i : Interval) (tie : Tie) (unit scale : Nat) : Option Nat :=
  let step := unit * i.denominator
  let value := i.value * scale
  let lower := value / step
  let twice := 2 * (value % step)
  let upperNearer := step < twice ∨ (step = twice ∧ (tie = .away ∨ lower % 2 = 1))
  match i.contains lower unit scale, i.contains (lower + 1) unit scale with
  | true, true => some (if upperNearer then lower + 1 else lower)
  | true, false => some lower
  | false, true => some (lower + 1)
  | false, false => none

/-- The power of ten of the leading digit of `value / denominator`, searched upwards from a
guess that is not too large. -/
def leadingPower (value denominator : Nat) : Nat → Int → Int
  | 0, guess => guess
  | steps + 1, guess =>
    let next := guess + 1
    if tenTo next.toNat * denominator ≤ value * tenTo (-next).toNat then
      leadingPower value denominator steps next
    else guess

/-- Drops the zeros at the end of a run of digits. -/
def trimZeros (ds : List Char) : List Char := (ds.reverse.dropWhile (· = '0')).reverse

/-- Tries grids of `count` more digit counts, coarsest first. -/
def searchGrids (i : Interval) (tie : Tie) : Nat → Int → Option Digits
  | 0, _ => none
  | count + 1, power =>
    match i.gridPoint? tie (tenTo power.toNat) (tenTo (-power).toNat) with
    | some point =>
      let shown := Nat.toDigits 10 point
      some ⟨trimZeros shown, power + (shown.length - 1 : Nat)⟩
    | none => searchGrids i tie count (power - 1)

/-- The shortest decimal that reads back as a positive finite number. Seventeen digits always
suffice. -/
def shortest (n : Number) (tie : Tie) : Digits :=
  let x := n.scaled
  let i := x.interval
  let bits : Int := (x.significand.log2 : Int) + x.exponent
  let guess := bits * 30103 / 100000 - 1
  let leading := leadingPower i.value i.denominator 3 guess
  (searchGrids i tie 17 leading).getD ⟨['0'], 0⟩

end Ripple.Number
