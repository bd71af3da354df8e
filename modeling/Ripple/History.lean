import Ripple.Fault
import Ripple.Change

/-!
# History

The committed transactions in order, with a cursor: the store is in the state after the entries
before the cursor. Moving the cursor undoes or redoes entries. A transaction that is recorded
takes the place of the entries after the cursor.
-/

namespace Ripple

/-- Committed transactions and how many of them are in effect. -/
structure History where
  /-- The entries, oldest first. -/
  entries : List Entry
  /-- How many of the entries are in effect. -/
  cursor : Nat
  /-- Whether the cursor may be moved. -/
  paused : Bool
  /-- The number of entries that are kept, if limited. -/
  limit : Option Nat
  /-- The number of the next entry. -/
  nextSeq : Nat
  deriving DecidableEq, Repr

namespace History

/-- A history without entries. -/
def new (limit : Option Nat) : History := ⟨[], 0, false, limit, 1⟩

def size (h : History) : Nat := h.entries.length

/-- Whether all entries are in effect. -/
def atTip (h : History) : Bool := h.cursor = h.size

/-- The entry that came into effect last. -/
def current? (h : History) : Option Entry :=
  if h.cursor = 0 then none else h.entries[h.cursor - 1]?

/-- Drops the oldest entries beyond the limit. The state after them becomes the first one that
can be gone back to. -/
def evict (h : History) : History :=
  match h.limit with
  | none => h
  | some limit =>
    let excess := h.size - limit
    { h with entries := h.entries.drop excess, cursor := h.cursor - excess }

/-- `History::record` puts an entry in place of those after the cursor, and gives it with its number. -/
def record (h : History) (entry : Entry) : History × Entry :=
  let numbered := { entry with seq := h.nextSeq }
  let kept := h.entries.take h.cursor ++ [numbered]
  let longer := { h with entries := kept, cursor := kept.length, nextSeq := h.nextSeq + 1 }
  (longer.evict, numbered)

/-! ## Moving the cursor -/

/-- Carries out steps until one is refused. What was done before it stays done. -/
def runSteps (step : Effect → Store → Except Refusal Store) (s : Store) :
    List Effect → Store × Except Fault Unit
  | [] => (s, .ok ())
  | effect :: rest =>
    match step effect s with
    | .error reason => (s, .error (.store reason))
    | .ok s => runSteps step s rest

/-- `History::back` undoes the entry before the cursor. -/
def back (h : History) (s : Store) : History × Store × Except Fault Unit :=
  match h.current? with
  | none => (h, s, .error .atOldest)
  | some entry =>
    match runSteps Effect.revert s entry.effects.reverse with
    | (s, .ok ()) => ({ h with cursor := h.cursor - 1 }, s, .ok ())
    | (s, .error fault) => (h, s, .error fault)

/-- `History::forward` redoes the entry after the cursor. -/
def forward (h : History) (s : Store) : History × Store × Except Fault Unit :=
  match h.entries[h.cursor]? with
  | none => (h, s, .error .atNewest)
  | some entry =>
    match runSteps Effect.replay s entry.effects with
    | (s, .ok ()) => ({ h with cursor := h.cursor + 1 }, s, .ok ())
    | (s, .error fault) => (h, s, .error fault)

/-- Makes a move a number of times, or until it fails. -/
def repeatMove (move : History → Store → History × Store × Except Fault Unit) :
    Nat → History → Store → History × Store × Except Fault Unit
  | 0, h, s => (h, s, .ok ())
  | count + 1, h, s =>
    match move h s with
    | (h, s, .ok ()) => repeatMove move count h s
    | (h, s, .error fault) => (h, s, .error fault)

/-- `History::seek` moves the cursor to a position by undoing or redoing every entry on the way. -/
def seek (h : History) (s : Store) (position : Nat) : History × Store × Except Fault Unit :=
  if h.size < position then (h, s, .error .atNewest)
  else if position < h.cursor then repeatMove back (h.cursor - position) h s
  else repeatMove forward (position - h.cursor) h s

/-- `History::step_back_one` undoes one entry, while paused. -/
def stepBack (h : History) (s : Store) : History × Store × Except Fault Unit :=
  if h.paused then h.back s else (h, s, .error .notPaused)

/-- `History::step_forward_one` redoes one entry, while paused. -/
def stepForward (h : History) (s : Store) : History × Store × Except Fault Unit :=
  if h.paused then h.forward s else (h, s, .error .notPaused)

def pause (h : History) : History := { h with paused := true }

/-- `History::resume` brings all entries into effect and ends the pause. -/
def resume (h : History) (s : Store) : History × Store × Except Fault Unit :=
  match h.seek s h.size with
  | (h, s, .ok ()) => ({ h with paused := false }, s, .ok ())
  | (h, s, .error fault) => (h, s, .error fault)

/-- `History::clear` forgets all entries. The present state becomes the first one. -/
def clear (h : History) : History := new h.limit

end History

end Ripple
