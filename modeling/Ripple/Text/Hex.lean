import Ripple.Text.CodeRange

/-!
# Hexadecimal text

Digits `0` to `9` and `a` to `f`, most significant first, with or without leading zeros.
-/

namespace Ripple.Text.Hex

/-- The lower-case digits of a number without leading zeros; zero is `0`. -/
def digits (n : Nat) : List Char := Nat.toDigits 16 n

/-- The digits of a number, filled up with zeros on the left to a width. -/
def padded (width n : Nat) : String :=
  let shown := digits n
  String.ofList (List.replicate (width - shown.length) '0' ++ shown)

/-- The shortest digits of a number as a string. -/
def short (n : Nat) : String := String.ofList (digits n)

/-- The value of one digit, in either case. -/
def digit? (c : Char) : Option Nat :=
  if isBetween '0' '9' c then some (c.toNat - '0'.toNat)
  else if isBetween 'a' 'f' c then some (c.toNat - 'a'.toNat + 10)
  else if isBetween 'A' 'F' c then some (c.toNat - 'A'.toNat + 10)
  else none

/-- The number a run of digits writes; `none` if one of them is no digit. -/
def value? (cs : List Char) : Option Nat :=
  cs.foldlM (fun n c => (digit? c).map (16 * n + ·)) 0

/-- Each byte as two digits. -/
def ofBytes (bytes : List UInt8) : String :=
  String.join (bytes.map fun byte => padded 2 byte.toNat)

end Ripple.Text.Hex
