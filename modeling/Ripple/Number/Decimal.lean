import Ripple.Number
import Ripple.Text.CodeRange

/-!
# Numbers from decimals

A decimal is read to the nearest double; a tie goes to the even significand, and a decimal
that rounds past the largest finite double is infinite. The rounding is done on whole numbers
throughout.
-/

namespace Ripple.Number

/-- The whole number nearest to `num / den`; a tie goes to the even one. -/
def roundHalfEven (num den : Nat) : Nat :=
  let low := num / den
  let twice := 2 * (num % den)
  if twice < den ∨ (twice = den ∧ low % 2 = 0) then low else low + 1

/-- The same number with the given sign. -/
def withSign (negative : Bool) (n : Number) : Number := if negative then n.neg else n

/-- The exponent of the double grid around a positive ratio: the power of two that leaves a
significand of 53 bits, but no less than that of the least double. -/
def gridExponent (num den : Nat) : Int :=
  let size : Int := (num.log2 : Int) - den.log2
  let below := num <<< (-size).toNat < den <<< size.toNat
  ((if below then size - 53 else size - 52) + 1074).toNat - 1074

/-- The double nearest to `num / den`. -/
def ofRatio (negative : Bool) (num den : Nat) : Number :=
  if num = 0 then zero.withSign negative
  else
    let grid := gridExponent num den
    let significand := roundHalfEven (num <<< (-grid).toNat) (den <<< grid.toNat)
    let magnitude := significand + (grid + 1074).toNat * leadingBit
    let rounded : Number := ⟨(min magnitude infiniteMagnitude).toUInt64⟩
    rounded.withSign negative

/-- The number of decimal digits of a positive number. -/
def digitCount (n : Nat) : Nat := (Nat.toDigits 10 n).length

/-- The double nearest to `digits * 10 ^ exponent`. Decimals far outside the range of doubles, below
`10 ^ -400` and from `10 ^ 400` on, are settled by size alone. -/
def ofDecimal (negative : Bool) (digits : Nat) (exponent : Int) : Number :=
  let top := (exponent + digitCount digits + 400).toNat
  if digits = 0 ∨ top = 0 then zero.withSign negative
  else if 800 < top then infinity.withSign negative
  else ofRatio negative (digits * tenTo exponent.toNat) (tenTo (-exponent).toNat)

/-- The double nearest to an integer. -/
def ofInt (n : Int) : Number := ofRatio (n < 0) n.natAbs 1

/-! ## Decimal digits -/

/-- Whether a character is one of the ten digits. -/
def isDigit (c : Char) : Bool := Text.isBetween '0' '9' c

/-- The number that a run of digits writes. -/
def digitsValue (cs : List Char) : Nat :=
  cs.foldl (fun n c => 10 * n + (c.toNat - '0'.toNat)) 0

/-- Reads a decimal from the digits before and after its point. -/
def ofDigits (whole fraction : List Char) : Number :=
  ofDecimal false (digitsValue (whole ++ fraction)) (-(fraction.length : Int))

/-! ## Reading free-form numbers -/

/-- An exponent: digits with an optional sign. -/
def readExponent? (cs : List Char) : Option Int :=
  let unsigned (ds : List Char) : Option Int :=
    if ds.isEmpty ∨ ¬ ds.all isDigit then none else some (digitsValue ds)
  match cs with
  | '+' :: ds => unsigned ds
  | '-' :: ds => (unsigned ds).map (- ·)
  | ds => unsigned ds

/-- A decimal with an optional point and exponent, with a digit before or after the point. -/
def readUnsigned? (negative : Bool) (cs : List Char) : Option Number := do
  let whole := cs.takeWhile isDigit
  let rest := cs.dropWhile isDigit
  let (fraction, rest) := match rest with
    | '.' :: more => (more.takeWhile isDigit, more.dropWhile isDigit)
    | more => ([], more)
  if whole.isEmpty ∧ fraction.isEmpty then none
  let exponent ← match rest with
    | [] => some 0
    | mark :: more => if mark = 'e' ∨ mark = 'E' then readExponent? more else none
  some (ofDecimal negative (digitsValue (whole ++ fraction)) (exponent - fraction.length))

/-- A number as text: a decimal, or in any case of letters `inf`, `infinity` or `nan`, each
with an optional sign. -/
def read? (text : String) : Option Number :=
  let signed (negative : Bool) (cs : List Char) : Option Number :=
    let name := String.ofList (cs.map Char.toLower)
    if name = "inf" ∨ name = "infinity" then some (infinity.withSign negative)
    else if name = "nan" then some (notANumber.withSign negative)
    else readUnsigned? negative cs
  match text.toList with
  | '+' :: cs => signed false cs
  | '-' :: cs => signed true cs
  | cs => signed false cs

end Ripple.Number
