import Ripple.Number.Shortest

/-!
# How numbers are written

Three formats write numbers, all with the fewest digits that read back: messages for people
use plain positional notation, descriptions of program text show that the number is a
fraction and switch to an exponent when it is very large or small, and JSON has its own
bounds and writes the sign of every exponent. Each is one value of `Layout`.
-/

namespace Ripple.Number

/-- The decisions of a number format. -/
structure Layout where
  /-- The powers of ten of the leading digit that are written positionally; all of them if
  `none`. -/
  positional : Option (Int × Int)
  /-- Whether a whole number in positional notation ends in `.0`. -/
  pointZero : Bool
  /-- Whether an exponent that is not negative carries a plus sign. -/
  plusSign : Bool
  /-- Which of two equally near shortest decimals is written. -/
  tie : Tie

/-- Messages: always positional, whole numbers without a point. -/
def Layout.plain : Layout := ⟨none, false, false, .away⟩

/-- Descriptions of tokens: positional from `1e-4` up to but excluding `1e16`. -/
def Layout.descriptive : Layout := ⟨some (-4, 15), true, false, .away⟩

/-- JSON: positional from `1e-5` up to but excluding `1e16`. -/
def Layout.json : Layout := ⟨some (-5, 15), true, true, .even⟩

/-- Writes digits around the point without an exponent. -/
def positionalText (pointZero : Bool) (d : Digits) : List Char :=
  if d.exponent < 0 then
    '0' :: '.' :: List.replicate (-d.exponent - 1).toNat '0' ++ d.digits
  else
    let wholeCount := d.exponent.toNat + 1
    let whole := d.digits.take wholeCount
    let fraction := d.digits.drop wholeCount
    let filled := whole ++ List.replicate (wholeCount - whole.length) '0'
    if fraction.isEmpty then filled ++ (if pointZero then ['.', '0'] else [])
    else filled ++ '.' :: fraction

/-- Writes digits with one of them before the point, and the exponent. -/
def exponentText (plusSign : Bool) (d : Digits) : List Char :=
  let fraction := d.digits.drop 1
  let mantissa := d.digits.take 1 ++ (if fraction.isEmpty then [] else '.' :: fraction)
  let sign := if d.exponent < 0 then ['-'] else if plusSign then ['+'] else []
  mantissa ++ 'e' :: sign ++ Nat.toDigits 10 d.exponent.natAbs

/-- Writes the magnitude of a finite number. -/
def Layout.magnitudeText (layout : Layout) (n : Number) : List Char :=
  let d := if n.isZero then ⟨['0'], 0⟩ else n.shortest layout.tie
  let inside := match layout.positional with
    | none => true
    | some (least, greatest) => decide (least ≤ d.exponent ∧ d.exponent ≤ greatest)
  if inside then positionalText layout.pointZero d else exponentText layout.plusSign d

/-- The text of a number. What is not a number has no sign. -/
def Layout.render (layout : Layout) (n : Number) : String :=
  if n.isNaN then "NaN"
  else
    let sign := if n.isNegative then ['-'] else []
    let body := if n.isInfinite then ['i', 'n', 'f'] else layout.magnitudeText n
    String.ofList (sign ++ body)

end Ripple.Number
