import Ripple.Change

/-!
# Blocks

A block is a routine with the registers it watches and the registers it produces. The routine
is a function of the store: equal stores give equal changes.
-/

namespace Ripple

/-- When a block runs besides answering to what it watches. -/
inductive Activation where
  /-- Only when a watched register was written. -/
  | onWatch
  /-- Also once when its program is loaded. -/
  | onLoad
  deriving DecidableEq, Repr

/-- What a block does: the changes it wants on a store, or a message why it fails. -/
abbrev Routine := Store → Except String (List Change)

/-- A unit of derived data. -/
structure Block where
  name : String
  activation : Activation
  watch : List Register
  produce : List Register
  routine : Routine

namespace Block

/-- A block with each register listed once, where it was first named. -/
def build (name : String) (activation : Activation) (watch produce : List Register)
    (routine : Routine) : Block :=
  ⟨name, activation, keepFirst watch, keepFirst produce, routine⟩

/-- `Block::watches`: whether the block watches something that a write to the register can change. -/
def watches (block : Block) (register : Register) : Bool :=
  block.watch.any register.overlaps

/-- Whether the block produces something that another block watches. -/
def feeds (producer watcher : Block) : Bool := producer.produce.any watcher.watches

end Block

end Ripple
