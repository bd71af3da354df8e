import Ripple.Digest
import Ripple.Text.Hex
/-!
# Identifiers

Tables and columns are addressed by 64-bit identifiers that are derived from their names, so
that a name never has to be compared where an identifier is known.
-/

namespace Ripple

/-- The identifier of a table or a column. -/
structure Ident where
  /-- The identifier as a number. -/
  raw : UInt64
  deriving DecidableEq, Inhabited, Repr

namespace Ident

/-- Identifiers are ordered as numbers. -/
instance : LT Ident := ⟨fun a b => a.raw < b.raw⟩

instance (a b : Ident) : Decidable (a < b) := inferInstanceAs (Decidable (a.raw < b.raw))

/-- `Ident::of`: the identifier of a name is the first eight bytes of the digest of its UTF-8 form,
least significant first. -/
def of (name : String) : Ident :=
  ⟨Digest.wordOf ((Digest.hash name.toUTF8.toList).take 8)⟩

/-- The identifier of the null table, which default references point to. -/
def null : Ident := ⟨0⟩

/-- Identifiers are written as sixteen digits after a hash sign. -/
def render (id : Ident) : String := "#" ++ Text.Hex.padded 16 id.raw.toNat

end Ident

end Ripple
