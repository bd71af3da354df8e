/-!
# Ranges of code points

Characters are compared by their code points. A property of characters beyond ASCII is given as an
ascending list of ranges.
-/

namespace Ripple.Text

/-- Whether a character is one of those from the first to the last. -/
def isBetween (first last c : Char) : Bool := first.toNat ≤ c.toNat && c.toNat ≤ last.toNat

theorem isBetween_iff {first last c : Char} :
    isBetween first last c ↔ first.toNat ≤ c.toNat ∧ c.toNat ≤ last.toNat := by
  simp [isBetween]

/-- The code points from the first number to the second, both included. -/
abbrev CodeRange := Nat × Nat

/-- Whether a code point lies in one of the ranges. -/
def CodeRange.covers (ranges : List CodeRange) (code : Nat) : Bool :=
  ranges.any fun (first, last) => first ≤ code && code ≤ last

end Ripple.Text
