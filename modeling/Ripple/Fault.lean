import Ripple.Program.CompileError
import Ripple.Refusal

/-!
# Faults

Why a session does not do what it was asked to. After every fault the session is as it was.
-/

namespace Ripple

/-- `EngineError`: the reason a request to a session fails. -/
inductive Fault where
  /-- The program does not compile or does not load. -/
  | compile (error : Program.CompileError)
  /-- A submitted change, counted from zero, was refused. -/
  | rejected (index : Nat) (reason : Refusal)
  /-- Blocks were still due after as many rounds as are allowed. -/
  | divergent (rounds : Nat)
  | atOldest
  | atNewest
  /-- A block asked for a change that was refused. -/
  | invalidChange (block : String) (reason : Refusal)
  /-- The routine of a block failed. -/
  | blockFailed (block message : String)
  | nothingQueued
  | notPaused
  | commitWhilePaused
  /-- No program is loaded. -/
  | notReady
  | store (reason : Refusal)
  deriving DecidableEq, Repr

namespace Fault

/-- `EngineError::code`, a stable name for programs. -/
def code : Fault → String
  | compile _ => "compile_error"
  | rejected _ _ => "transaction_rejected"
  | divergent _ => "divergent_transaction"
  | atOldest => "at_oldest_entry"
  | atNewest => "at_newest_entry"
  | invalidChange _ _ => "internal_invariant_violation"
  | blockFailed _ _ => "block_evaluation"
  | nothingQueued => "empty_transaction"
  | notPaused => "not_paused"
  | commitWhilePaused => "commit_while_paused"
  | notReady => "not_ready"
  | store _ => "store_error"

/-- The fault that this one comes from, as it is shown to people. -/
def cause? : Fault → Option String
  | compile e => some e.message
  | rejected _ reason => some reason.message
  | invalidChange _ reason => some reason.message
  | store reason => some reason.message
  | _ => none

/-- The fault as it is shown to people. -/
def message : Fault → String
  | compile e => e.message
  | rejected index reason => s!"transaction rejected at change {index}: {reason.message}"
  | divergent rounds => s!"propagation did not settle within {rounds} round(s)"
  | atOldest => "already at the oldest history entry"
  | atNewest => "already at the newest history entry"
  | invalidChange block reason => s!"block '{block}' produced an invalid change: {reason.message}"
  | blockFailed block message => s!"block '{block}' failed: {message}"
  | nothingQueued => "no changes queued"
  | notPaused => "time travel requires the engine to be paused"
  | commitWhilePaused => "commits are rejected while paused"
  | notReady => "no program loaded"
  | store reason => reason.message

/-- `EngineError::is_recoverable`: whether the session can be used on without further ado. -/
def isRecoverable : Fault → Bool
  | invalidChange _ _ => false
  | _ => true

end Fault

end Ripple
