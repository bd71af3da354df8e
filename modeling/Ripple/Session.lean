import Ripple.Event
import Ripple.History
import Ripple.Program.Compilation
import Ripple.Propagation
import Ripple.Settings

/-!
# Sessions

A session is one universe of tables, blocks and history. It is empty until a program is loaded
and live from then on: changes are queued and committed as transactions. While it is paused,
the state it shows can be moved through the history. Loading another program starts anew.

Every request gives the session after it together with the answer.
-/

namespace Ripple

/-- What a session is doing. -/
inductive Mode where
  /-- No program is loaded. -/
  | empty
  /-- Transactions advance the state that is shown. -/
  | live
  /-- The state that is shown is held. -/
  | paused
  deriving DecidableEq, Repr

/-- Turns the text of a program into a program. -/
abbrev Compiler := String → Except Program.CompileError Program

/-- `Core`: tables, blocks and history with the changes to be committed. -/
structure Session where
  store : Store
  graph : Graph
  history : History
  settings : Settings
  compiler : Compiler
  /-- The queued changes, in order. -/
  pending : List Change
  /-- Whether a program is loaded. -/
  ready : Bool
  /-- Whether someone listens to events. -/
  listening : Bool
  /-- What was told to the listeners, in order. -/
  told : List Event

/-- The session after a request and the answer to it. -/
abbrev Answer (α : Type) := Session × Except Fault α

namespace Session

/-- `Core::with_frontend`: a session without a program and with a compiler. -/
def withCompiler (settings : Settings) (compiler : Compiler) : Session where
  store := .empty
  graph := .empty
  history := .new settings.maxEntries
  settings := settings
  compiler := compiler
  pending := []
  ready := false
  listening := false
  told := []

/-- A session without a program, for programs in the table language. -/
def new (settings : Settings) : Session := withCompiler settings Program.compile

def mode (s : Session) : Mode :=
  if ¬ s.ready then .empty else if s.history.paused then .paused else .live

/-- Runs the transactions of the session. -/
def propagator (s : Session) : Propagator := .ofCap s.settings.maxRounds

/-! ## Events -/

def subscribe (s : Session) : Session := { s with listening := true }

def unsubscribe (s : Session) : Session := { s with listening := false }

/-- `Core::emit` tells an event to the listener, if there is one. -/
def tell (s : Session) (event : Event) : Session :=
  if s.listening then { s with told := s.told ++ [event] } else s

/-- `Core::emit_cursor_moved` tells that the cursor moved from where it was. -/
def tellCursor (s : Session) (previous : Nat) : Session :=
  s.tell (.cursorMoved s.history.cursor previous s.history.size)

/-! ## Programs -/

/-- The store with the tables that a program declares. -/
def declareAll (store : Store) : List Program.Declaration → Except Refusal Store
  | [] => .ok store
  | d :: rest => do
    let store ← store.create d.id d.name d.specs d.rows
    declareAll store rest

/-- `Core::load` loads a program: its tables are created and its formulas evaluated before anything of
the session is given up. -/
def load (s : Session) (program : Program) : Answer Unit :=
  match declareAll .empty program.tables with
  | .error reason => (s, .error (.store reason))
  | .ok store =>
    let graph := Graph.ofBlocks program.blocks
    match s.propagator.bootstrap graph store with
    | (_, .error fault) => (s, .error fault)
    | (store, .ok _) =>
      let loaded : Session :=
        { s with store, graph, history := .new s.settings.maxEntries, pending := [], ready := true }
      (loaded.tell (.programLoaded store.size graph.size), .ok ())

/-- What a failure to load says about a program. -/
def loadFault : Fault → Fault
  | .compile e => .compile e
  | fault => .compile ⟨0, .reported s!"program failed to load: {fault.message}"⟩

/-- `Core::compile` compiles a program and loads it. -/
def compile (s : Session) (text : String) : Answer Unit :=
  match s.compiler text with
  | .error e => (s, .error (.compile e))
  | .ok program =>
    match s.load program with
    | (s, .ok ()) => (s, .ok ())
    | (s, .error fault) => (s, .error (loadFault fault))

/-- `Core::clear` gives up all tables, blocks and entries. -/
def clear (s : Session) : Session :=
  { s with
    store := .empty
    graph := .empty
    history := .new s.settings.maxEntries
    pending := []
    ready := false }

/-! ## Transactions -/

/-- `Core::queue` queues a change. -/
def queue (s : Session) (change : Change) : Answer Unit :=
  if s.ready then ({ s with pending := s.pending ++ [change] }, .ok ())
  else (s, .error .notReady)

/-- `Core::queue_change` queues the writing of a cell; the row is counted from one. -/
def queueWrite (s : Session) (name : String) (row : Nat) (column : UInt64) (value : Value) :
    Answer Unit :=
  if ¬ s.ready then (s, .error .notReady)
  else if row = 0 then (s, .error (.rejected s.pending.length (.rowZero (.of name))))
  else s.queue (.set (.of name) (row - 1) (.raw column) value)

/-- `Core::queue_append` queues rows to be added to a table. -/
def queueRows (s : Session) (name : String) (rows : List Row) : Answer Unit :=
  s.queue (.append (.of name) rows)

/-- `Core::discard_pending` drops the queued changes. -/
def discard (s : Session) : Session := { s with pending := [] }

/-- `Core::commit_and_record` commits changes on the present state and records the entry, unless
nothing changed. -/
def commitChanges (s : Session) (changes : List Change) (visible : Bool) :
    Answer (Option Entry) :=
  match s.propagator.commit s.graph s.store changes with
  | (store, .error fault) => ({ s with store }, .error fault)
  | (store, .ok entry) =>
    if entry.effects.isEmpty then ({ s with store }, .ok none)
    else
      let (history, entry) := s.history.record entry
      let recorded := { s with store, history }.tell (.ofCommit entry)
      (if visible then recorded.tell (.ofCells entry) else recorded, .ok (some entry))

/-- Moves the cursor without telling. -/
def seek (s : Session) (position : Nat) : Answer Unit :=
  match s.history.seek s.store position with
  | (history, store, result) => ({ s with history, store }, result)

/-- Commits changes on the newest state while an older one is shown, and shows that one again.
The cursor keeps to its entry when older ones are dropped. -/
def commitBehind (s : Session) (changes : List Change) : Answer (Option Entry) :=
  let hold := s.history.cursor
  let sizeBefore := s.history.size
  match s.seek sizeBefore with
  | (s, .error fault) => (s, .error fault)
  | (s, .ok ()) =>
    let (s, result) := s.commitChanges changes false
    let evicted := sizeBefore + 1 - s.history.size
    let target := match result with
      | .ok (some _) => hold - evicted
      | _ => hold
    match s.seek target with
    | (s, .error fault) => (s, .error fault)
    | (s, .ok ()) => (s, result)

/-- Commits changes on the state that is shown while it is not the newest one. -/
def commitBranch (s : Session) (changes : List Change) : Answer (Option Entry) :=
  let previous := s.history.cursor
  match s.commitChanges changes true with
  | (s, .ok (some entry)) => (s.tellCursor previous, .ok (some entry))
  | answer => answer

/-- `Core::process_transaction` commits the queued changes as one transaction. The queue is empty
afterwards in any case. The answer is the recorded entry, or `none` if nothing changed. -/
def commit (s : Session) : Answer (Option Entry) :=
  let changes := s.pending
  let s := s.discard
  if ¬ s.ready then (s, .error .notReady)
  else if changes.isEmpty then (s, .error .nothingQueued)
  else if ¬ s.history.paused then s.commitChanges changes true
  else
    match s.settings.pausedCommits with
    | .reject => (s, .error .commitWhilePaused)
    | .branch => s.commitBranch changes
    | .append => s.commitBehind changes

/-- A cell to be written: its row, counted from one, its column and its value. -/
structure Write where
  row : Nat
  column : UInt64
  value : Value
  deriving DecidableEq, Repr

/-- Queues writes up to the first one that is refused. -/
def queueWrites (s : Session) (name : String) : List Write → Answer Unit
  | [] => (s, .ok ())
  | w :: rest =>
    match s.queueWrite name w.row w.column w.value with
    | (s, .error fault) => (s, .error fault)
    | (s, .ok ()) => s.queueWrites name rest

/-- `SharedCore::transact` queues writes and commits them. If one is refused, nothing stays queued. -/
def transact (s : Session) (name : String) (writes : List Write) : Answer (Option Entry) :=
  match s.queueWrites name writes with
  | (s, .error fault) => (s.discard, .error fault)
  | (s, .ok ()) => s.commit

/-! ## Reading -/

/-- `Core::get_column`: all cells of a column, given by numbers. -/
def getColumn (s : Session) (table column : UInt64) : Except Fault (List Value) :=
  (s.store.readColumn ⟨table⟩ (.raw column)).mapError .store

/-- `Core::column`: all cells of a column, given by names. -/
def column (s : Session) (table column : String) : Except Fault (List Value) :=
  (s.store.readColumn (.of table) (.named column)).mapError .store

/-- `Core::cell`: a cell given by names; the row is counted from one. -/
def cell (s : Session) (table : String) (row : Nat) (column : String) : Except Fault Value :=
  if row = 0 then .error (.store (.rowZero (.of table)))
  else (s.store.readCell (.of table) (row - 1) (.named column)).mapError .store

/-! ## Moving through the history -/

/-- `Core::pause` holds the state that is shown. -/
def pause (s : Session) : Answer Unit :=
  if s.ready then ({ s with history := s.history.pause }, .ok ()) else (s, .error .notReady)

/-- `Core::resume` shows the newest state and goes on from there. -/
def resume (s : Session) : Answer Unit :=
  if ¬ s.ready then (s, .error .notReady)
  else
    let previous := s.history.cursor
    match s.history.resume s.store with
    | (history, store, .error fault) => ({ s with history, store }, .error fault)
    | (history, store, .ok ()) =>
      let s := { s with history, store }
      (if history.cursor = previous then s else s.tellCursor previous, .ok ())

/-- `Core::step_back_one` undoes one entry. -/
def stepBack (s : Session) : Answer Unit :=
  if ¬ s.ready then (s, .error .notReady)
  else
    let undone := s.history.current?
    match s.history.stepBack s.store with
    | (history, store, .error fault) => ({ s with history, store }, .error fault)
    | (history, store, .ok ()) =>
      let moved := { s with history, store }.tellCursor s.history.cursor
      (match undone with | some entry => moved.tell (.ofCells entry) | none => moved, .ok ())

/-- `Core::step_forward_one` redoes one entry. -/
def stepForward (s : Session) : Answer Unit :=
  if ¬ s.ready then (s, .error .notReady)
  else
    match s.history.stepForward s.store with
    | (history, store, .error fault) => ({ s with history, store }, .error fault)
    | (history, store, .ok ()) =>
      let moved := { s with history, store }.tellCursor s.history.cursor
      (match history.current? with | some entry => moved.tell (.ofCells entry) | none => moved,
        .ok ())

/-! ## Description -/

/-- The mode as it is named in descriptions. -/
def Mode.name : Mode → String
  | .empty => "Empty"
  | .live => "Live"
  | .paused => "Paused"

/-- The session in one line. -/
def describe (s : Session) : String :=
  let fields := s!"mode: {Mode.name s.mode}, tables: {s.store.size}, blocks: {s.graph.size}, " ++
    s!"history_len: {s.history.size}, history_cursor: {s.history.cursor}, " ++
    s!"pending: {s.pending.length}"
  "Core \x7b " ++ fields ++ " \x7d"

end Session

end Ripple
