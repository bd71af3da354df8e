import Ripple.Json.Token

/-!
# Number literals

A literal without sign, fraction and exponent is a whole number. Other literals are doubles.
A double is computed from the leading digits that fit a 64-bit word and a power of ten, with one
rounding for each step; it is near to what is written, but not always the nearest.
-/

namespace Ripple.Json

/-- The largest 64-bit word. -/
def maxWord : Nat := UInt64.size - 1

/-- The whole number that a literal writes, if it is below `2 ^ 64`. -/
def literalNat? (literal : String) : Option Nat :=
  let cs := literal.toList
  let value := Number.digitsValue cs
  if cs.all Number.isDigit ∧ value ≤ maxWord then some value else none

/-- Leading digits that fit a word, with the power of ten they are to be multiplied by. -/
structure Leading where
  significand : Nat
  exponent : Int
  deriving DecidableEq, Repr

/-- Takes one more digit if it fits. -/
def Leading.digit? (x : Leading) (c : Char) : Option Nat :=
  let longer := 10 * x.significand + (c.toNat - '0'.toNat)
  if longer ≤ maxWord then some longer else none

/-- Takes digits before the point. From the first one that does not fit, each one adds one to
the exponent. -/
def Leading.whole (x : Leading) : List Char → Leading
  | [] => x
  | c :: rest =>
    match x.digit? c with
    | some longer => whole ⟨longer, x.exponent⟩ rest
    | none => ⟨x.significand, x.exponent + (rest.length + 1 : Nat)⟩

/-- Takes digits after the point. From the first one that does not fit, they are left out. -/
def Leading.fraction (x : Leading) : List Char → Leading
  | [] => x
  | c :: rest =>
    match x.digit? c with
    | some longer => fraction ⟨longer, x.exponent - 1⟩ rest
    | none => x

/-- Multiplies by a power of ten in steps of at most `10 ^ 308`; `none` if the result is too
large. -/
def scaleByPower? : Nat → Number → Int → Option Number
  | 0, f, _ => some f
  | steps + 1, f, exponent =>
    if exponent < -308 then
      scaleByPower? steps (f.div (.ofDecimal false 1 308)) (exponent + 308)
    else if exponent < 0 then some (f.div (.ofDecimal false 1 (-exponent)))
    else if f.isZero then some f
    else if 308 < exponent then none
    else
      let product := f.mul (.ofDecimal false 1 exponent)
      if product.isFinite then some product else none

/-- The double of leading digits; `none` if it is too large. -/
def Leading.number? (x : Leading) : Option Number :=
  scaleByPower? 4 (.ofInt x.significand) x.exponent

/-- The number that the exponent part of a literal writes. -/
def exponentValue : List Char → Int
  | _ :: '-' :: ds => -(Number.digitsValue ds : Int)
  | _ :: '+' :: ds => Number.digitsValue ds
  | _ :: ds => Number.digitsValue ds
  | [] => 0

/-- The double that a literal writes; `none` if it is too large. -/
def literalNumber? (literal : String) : Option Number := do
  let (negative, cs) := match literal.toList with
    | '-' :: cs => (true, cs)
    | cs => (false, cs)
  let (whole, rest) := takeDigits cs
  let leading : Leading := Leading.whole ⟨0, 0⟩ whole
  let magnitude ←
    if rest.isEmpty ∧ leading.exponent = 0 then some (Number.ofInt leading.significand)
    else
      let (fraction, rest) := match rest with
        | '.' :: more => takeDigits more
        | rest => ([], rest)
      let x := leading.fraction fraction
      Leading.number? { x with exponent := x.exponent + exponentValue rest }
  some (magnitude.withSign negative)

end Ripple.Json
